import Loku.Frontend.Media
import Loku.Routes.Files
import Loku.System.EveryVideo

/-!
# The files behind a page

While no file changes after a scan, all that the pages of a visit load or offer for download is
there: from the sidecars that the scan has found, through the rows, the answers and the views, to
the address that a page asks for and the file that this address leads to (`shown_files_there`).
-/

namespace Loku

open Lib.PercentCode (decode encode)

/-! ## Addresses -/

/-- The name of a library is its own encoding. -/
theorem encode_of_validLibraryName {name : String} (h : validLibraryName name = true) :
    encode name.toList = name.toList := by
  apply Lib.PercentCode.encode_of_unreserved
  intro c hc
  unfold validLibraryName at h
  rw [Bool.and_eq_true, List.all_eq_true] at h
  have hchar := h.2 c hc
  simp only [Bool.or_eq_true, beq_iff_eq] at hchar
  unfold Lib.PercentCode.unreserved Char.isAlphanum Char.isAlpha
  rcases hchar with ((hlower | hdigit) | rfl) | rfl
  · rw [hlower, Bool.or_true, Bool.true_or, Bool.true_or]
  · rw [hdigit, Bool.or_true, Bool.true_or]
  · decide
  · decide

/-- The path of an address is that of the mount, and the encoded path of the file. -/
theorem path_videoUrl {library : String} (h : validLibraryName library = true) (file : String) :
    (Url.ofText (Api.videoUrl library file)).path =
      (fileMount library).toList ++ '/' :: encodePath file.toList := by
  have hquery := not_mem_encode_of_separator (d := '?') (by decide)
  have hname := hquery library.toList
  rw [encode_of_validLibraryName h] at hname
  have htext : (Api.videoUrl library file).toList =
      (fileMount library).toList ++ '/' :: encodePath file.toList := by
    simp [Api.videoUrl, Api.encodePath, fileMount, encode_of_validLibraryName h]
  have hmark : '?' ∉ (Api.videoUrl library file).toList := by
    have hfile := not_mem_encodePath (by decide) hquery file.toList
    simp [htext, fileMount, hname, hfile]
  rw [Url.ofText_of_not_mem hmark, htext]

theorem decode_slash_encodePath (file : List Char) :
    decode ('/' :: encodePath file) = some ('/' :: file) := by
  rw [Lib.PercentCode.decode_cons (by decide), decode_encodePath, Option.map_some]

/-! ## What a scan has found -/

/-- A sidecar that is found is there, beside the video. -/
theorem exists_of_findSidecar {t : FileTree} {root below : Path} {video : FileName}
    {suffix : Suffix} {file : String}
    (h : findSidecar t (root ++ below) video root suffix = some file) :
    file = Path.relText (below ++ [video.sidecar suffix]) ∧
      t.pathExists (root ++ (below ++ [video.sidecar suffix])) = true := by
  unfold findSidecar sidecarPath at h
  split at h
  · rename_i hexists
    rw [List.append_assoc] at h hexists
    rw [Path.stripPrefix_append, Option.map_some] at h
    exact ⟨(Option.some.inj h).symm, hexists⟩
  · cases h

theorem pathExists_of_readFile {t : FileTree} {p : Path} {data : FileData}
    (h : t.readFile p = some data) : t.pathExists p = true := by
  unfold FileTree.pathExists
  unfold FileTree.readFile at h
  split at h
  · rename_i hstat
    rw [hstat]
    rfl
  · cases h

namespace ServerState

variable {s : ServerState}

/-- The index is what a completed scan has left, and scans, flushes, probe passes, failures and
picks since. -/
def Scanned (s : ServerState) : Prop :=
  ∃ decoders faults index first stats, ReachableIndex decoders index ∧
    scanAll decoders faults (fun _ => .still s.tree) s.libraries index = (first, .ok stats) ∧
    Relation.ReflTransGen (QuietStep decoders s.tree s.libraries) first s.index

theorem Sound.steady (hs : s.Sound) (h : s.Scanned) :
    ∃ decoders, Steady decoders s.tree s.libraries s.index := by
  obtain ⟨t, cli, file, hresolve⟩ := hs.libraries
  obtain ⟨decoders, faults, index, first, stats, hreach, hscan, hquiet⟩ := h
  exact ⟨decoders,
    ((steady_scanAll (nodup_resolveLibraries hresolve) hreach hscan).run hquiet).1⟩

/-- The files of an item are in its library. -/
theorem Sound.files_there (hs : s.Sound) (h : s.Scanned) {item : Api.VideoItem} (hitem : s.Has item)
    {file : String} (hfile : file ∈ item.files) : ∃ library ∈ s.libraries,
      library.name = item.library ∧ ∃ root rel, s.tree.canonicalize library.path = some root ∧
        rel ≠ [] ∧ file = Path.relText rel ∧ s.tree.pathExists (root ++ rel) = true := by
  obtain ⟨r, hr, rfl⟩ := hitem
  obtain ⟨library, hlibrary, hname⟩ := List.mem_map.mp (hs.configured r hr)
  obtain ⟨decoders, hsteady⟩ := hs.steady h
  have hstored := Index.recordAt_of_find? (Lib.Table.find?_key hr)
  obtain ⟨record, ⟨root, hroot, dir, hdir, hcollect⟩, hkey, hwritten⟩ :=
    hsteady.exists_masterRecord hlibrary hname.symm hstored
  obtain ⟨video, -, hbuild⟩ := mem_collectDirectory.mp hcollect
  obtain ⟨hrecordKey, -, -, hthumb, hcompat⟩ := buildRecord_columns hbuild
  obtain ⟨data, hdata, -⟩ := buildRecord_content hbuild
  obtain ⟨below, rfl⟩ := (FileTree.reachableDir_iff.mp hdir).1
  refine ⟨library, hlibrary, hname, root, ?_⟩
  have hthumb' : r.record.thumbRelPath = record.thumbRelPath :=
    (congrArg VideoRecord.thumbRelPath hwritten).symm
  have hcompat' : r.record.compatRelPath = record.compatRelPath :=
    (congrArg VideoRecord.compatRelPath hwritten).symm
  have hpath : r.record.relPath = Path.relText (below ++ [video]) := by
    have hsame := congrArg Prod.snd (hkey.symm.trans hrecordKey)
    rw [List.append_assoc, relativeOf_append] at hsame
    exact hsame
  rcases List.mem_cons.mp hfile with rfl | hfile
  · rw [List.append_assoc] at hdata
    exact ⟨below ++ [video], hroot, by simp, hpath, pathExists_of_readFile hdata⟩
  · rcases List.mem_append.mp hfile with hfile | hfile
    · have hfound : r.record.thumbRelPath = some file := Option.mem_toList.mp hfile
      obtain ⟨suffix, -, hsidecar⟩ := List.exists_of_findSome?_eq_some
        (hthumb.symm.trans (hthumb'.symm.trans hfound))
      exact ⟨_, hroot, by simp, exists_of_findSidecar hsidecar⟩
    · have hfound : r.record.compatRelPath = some file := Option.mem_toList.mp hfile
      exact ⟨_, hroot, by simp,
        exists_of_findSidecar (hcompat.symm.trans (hcompat'.symm.trans hfound))⟩

end ServerState

/-- All that a page of a visit loads or offers for download is there, behind its address. -/
theorem shown_files_there {s : ServerState} (hs : s.Sound) (hscanned : s.Scanned)
    (reader : FormReader) (service : DirService) (fromFloat : Rat → String) {url : String}
    (hurl : s.world.Leads (Route.parse (Url.ofText url))) {actions : List VisitAction} {v : Visit}
    (hrun : Lib.Run (VisitStep reader fromFloat) (Visit.start url s) actions v)
    {address : String} (haddress : (Main.view fromFloat v.client.page).Fetches address) :
    ∃ library ∈ s.libraries, ∃ root rel, s.tree.canonicalize library.path = some root ∧
      s.tree.pathExists (root ++ rel) = true ∧
      v.server.fileTarget service (Url.ofText address).path = some (library.path ++ rel) := by
  have hinv := hrun.invariant (I := Visit.SoundInv s) (fun v a v' h hstep => h.step hs hstep)
    (Visit.soundInv_start hurl)
  obtain ⟨item, hholds, file, hfile, rfl⟩ := Main.holds_of_fetches haddress
  obtain ⟨library, hlibrary, hname, root, rel, hroot, hrel, rfl, hexists⟩ :=
    hs.files_there hscanned ((World.plays_of_holds hinv.visit.shows hholds).has id) hfile
  obtain ⟨t, cli, config, hresolve⟩ := hs.libraries
  obtain ⟨picks, hserver⟩ := hinv.server
  have hvalid := validLibraryName_of_resolveLibraries hresolve library hlibrary
  refine ⟨library, hlibrary, root, rel, hroot, hexists, ?_⟩
  rw [← hname, path_videoUrl hvalid, hserver]
  exact ServerState.fileTarget_fileMount hresolve hlibrary service hrel
    (decode_slash_encodePath _)

/-! ## The player of a small server -/

namespace SmallSite

open OneVideo (library decoders)

theorem scanned_server : server.Scanned := by
  have hscan : scanAll decoders Faults.none (fun _ => .still Replaced.tree) [library]
      .openInMemory = (Replaced.index, .ok { directories := 4, videos := 1, removed := 0 }) := by
    decide
  exact ⟨decoders, _, _, _, _, Relation.ReflTransGen.refl, hscan, Relation.ReflTransGen.refl⟩

def item : Api.VideoItem :=
  (VideoItem.fromRecord none (Replaced.index.recordFromRow episode)).counterpart

def request : Request := ⟨0, .getItem item.library item.path⟩

/-- The page that is opened by the address of the player. -/
def opened : Visit := Visit.start (Route.player ⟨item.library, item.path⟩).toString server

def played : Visit :=
  (opened.served request (request.call.handled server)).arrived request
    (request.call.handled server).2

theorem shown_files_there_player : ∃ library ∈ server.libraries, ∃ root rel,
    server.tree.canonicalize library.path = some root ∧
      server.tree.pathExists (root ++ rel) = true ∧
      played.server.fileTarget .plain
        (Url.ofText (Api.videoUrl item.library item.path)).path = some (library.path ++ rel) := by
  have hroute : Route.parse (Url.ofText (Route.player ⟨item.library, item.path⟩).toString) =
      .player ⟨item.library, item.path⟩ :=
    parse_ofText_player ⟨by decide, by decide⟩
  have hmem : episode ∈ server.index.videos := List.head_mem _
  have hleads : server.world.Leads (Route.parse
      (Url.ofText (Route.player ⟨item.library, item.path⟩).toString)) := by
    rw [hroute]
    exact ⟨item, ⟨episode, hmem, rfl⟩, rfl, rfl⟩
  have hflight : request ∈ opened.client.inFlight := by
    unfold opened Visit.start
    rw [hroute]
    exact List.mem_cons_self
  have hserve : VisitStep .plain (fun _ => "") opened _ _ :=
    .serve hflight (appRoutes_request .plain server request.call)
  have harrive : VisitStep .plain (fun _ => "") _ _ played :=
    .arrive hflight (List.mem_append_right _ List.mem_cons_self)
  have hpage : played.client.page = .player (.loaded ⟨item, 0, none⟩) := by
    obtain ⟨-, dir, video, hvideo, -⟩ := sound_server.path_of_has ⟨episode, hmem, rfl⟩
    have hanswer : request.call.answer (request.call.handled server).2 = .item (.ok item) :=
      (sound_server.handled_getItem hmem hvideo).2
    have hstart : opened.client.page =
        .player (.loading ⟨item.library, item.path⟩) := by
      unfold opened Visit.start
      rw [hroute]
      rfl
    show (Main.update (request.call.answer (request.call.handled server).2).toMsg
      opened.client.page).1 = _
    rw [hanswer, hstart]
    rfl
  have hshown : (Main.view (fun _ => "") played.client.page).Fetches
      (Api.videoUrl item.library item.path) := by
    have hnative : item.nativeType = none := by decide
    have hcompat : item.compatPath = none := by decide
    have hpending : item.derivation.state = .pending := by decide
    rw [hpage]
    simp [Main.view, Html.div, Html.fetches_map, Player.view, Player.viewLoaded,
      Player.viewMain, Player.viewPreparing, Player.downloadLink, Html.a, Attribute.isNamed,
      hnative, hcompat, hpending]
  exact shown_files_there sound_server scanned_server .plain .plain (fun _ => "") hleads
    (.cons hserve (.single harrive)) hshown

end SmallSite

end Loku
