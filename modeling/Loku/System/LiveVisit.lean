import Loku.System.Placed

/-!
# A visit while the index changes

Between the requests of a visit maintenance and the worker change the index, and the files change
as well. What a page shows may then be out of date, and what it links to may be gone. But all it
shows was on the server at some time, every response is a success or says that something is not
found or that a text cannot be searched for, only the last makes a search page fail, the home page
never fails, and no page waits for an answer that is not on the way (`visit_while_indexing`).
-/

namespace Loku

open FileTree

/-! ## Directories of a tree without links -/

theorem FileTree.canonicalize_linkFree {t : FileTree} (ht : t.LinkFree) {p q : Path}
    (h : t.canonicalize p = some q) : q = p := by
  obtain ⟨hq, -⟩ := descend_linkFree ht [] h
  rwa [List.nil_append] at hq

theorem FileTree.descendParts_slash_linkFree {t : FileTree} (ht : t.LinkFree)
    {follow : List String → Option Path} {done p q : Path}
    (h : t.descendParts follow done (p.map FileName.text ++ [""]) = some q) : q = done ++ p := by
  induction p generalizing done with
  | nil =>
    rw [List.map_nil, List.nil_append, descendParts, if_pos (Or.inl rfl)] at h
    split at h
    · cases h
      exact (List.append_nil _).symm
    · cases h
  | cons n rest ih =>
    rw [List.map_cons, List.cons_append, descendParts_name] at h
    split at h
    · cases h
    · rename_i target hnode
      exact absurd hnode (ht _ target)
    · rw [ih h, List.append_assoc]
      rfl

/-- Without links a stored text leads nowhere else. -/
theorem FileTree.canonicalizeText_linkFree {t : FileTree} (ht : t.LinkFree) {base rel q : Path}
    (h : t.canonicalizeText base rel.relText = some q) : q = base ++ rel := by
  unfold canonicalizeText at h
  by_cases hrel : rel = []
  · subst hrel
    rw [List.append_nil]
    exact descendParts_slash_linkFree ht h
  · rw [textParts_relText hrel, ← List.map_append, resolveParts_map_text] at h
    exact canonicalize_linkFree ht h

/-- A request for the text of a path finds the directory or nothing. -/
theorem ensureDirectoryExists_linkFree {t : FileTree} (ht : t.LinkFree) (library : Library)
    (rel : Path) (requested : String) :
    (∃ root, t.canonicalize library.path = some root ∧ t.node (root ++ rel) = some .dir) ∨
      ensureDirectoryExists t library rel.relText requested =
        .error (.directoryNotFound requested) := by
  cases hok : ensureDirectoryExists t library rel.relText requested with
  | ok _ =>
    obtain ⟨root, rel', hleads⟩ := ensureDirectoryExists_ok_iff.mp hok
    have htarget := canonicalizeText_linkFree ht hleads.canonicalTarget
    obtain rfl := canonicalize_linkFree ht hleads.canonicalRoot
    rw [List.append_cancel_left htarget] at hleads
    exact Or.inl ⟨_, hleads.canonicalRoot, hleads.dir⟩
  | error error =>
    refine Or.inr (congrArg Except.error ?_)
    unfold ensureDirectoryExists at hok
    split at hok
    · exact (Except.error.inj hok).symm
    · rename_i root hroot
      split at hok
      · exact (Except.error.inj hok).symm
      · rename_i target htarget
        have hinside : target.startsWith root = true := by
          rw [canonicalizeText_linkFree ht htarget, canonicalize_linkFree ht hroot]
          exact Path.startsWith_iff.mpr (List.prefix_append _ _)
        rw [hinside] at hok
        split at hok
        · rename_i hout
          cases hout
        · split at hok
          · exact (Except.error.inj hok).symm
          · cases hok

/-! ## What has been on the server -/

namespace ServerState

/-- The rows are of masters in the configured libraries. -/
structure Placed (s : ServerState) : Prop extends s.Orderly where
  free : s.tree.LinkFree
  rows : ∀ r ∈ s.index.videos, IsMaster s.libraries r.record

theorem Placed.picked {s : ServerState} (h : s.Placed) (picks : Lib.Table DiscSetOverride.key) :
    (s.picked picks).Placed where
  libraries := h.libraries
  configured := h.configured
  integers := h.integers
  few := h.few
  free := h.free
  rows := h.rows

end ServerState

/-- The path is the text of a directory of the library on disk, or of one at or above the parent
of a row. -/
def ServerState.Named (s : ServerState) (name path : String) : Prop :=
  s.Directory name path ∨ ∃ r ∈ s.index.videos, r.record.library = name ∧
    ∃ rel below : Path, path = rel.relText ∧ r.record.parent = Path.relText (rel ++ below)

/-- The items and the directories that the server has had, and the texts that it could read all the
time. -/
def World.ofPast (libraries : List Library) (past : List ServerState) : World where
  libraries := libraries.map fun library => ⟨library.name, library.kind⟩
  Directory name path :=
    name ∈ libraries.map Library.name ∧ (path = "" ∨ ∃ s ∈ past, s.Named name path)
  Has item := ∃ s ∈ past, s.Has item
  Reads query := ∀ s ∈ past, s.engine.Reads query
  Gone := True

namespace ServerState.Named
variable {s : ServerState} {name path : String}

theorem exists_relText (h : s.Named name path) : ∃ rel : Path, path = rel.relText := by
  rcases h with ⟨-, -, -, -, rel, -, -, hpath⟩ | ⟨-, -, -, rel, -, hpath, -⟩
  · exact ⟨rel, hpath⟩
  · exact ⟨rel, hpath⟩

/-- So are the directories above it. -/
theorem above {rel above : Path} (h : s.Named name rel.relText) (habove : above <+: rel) :
    s.Named name above.relText := by
  rcases h with hdir | ⟨r, hr, hlib, rel', below, hrel, hparent⟩
  · exact Or.inl (Directory.above hdir habove)
  · obtain rfl := Path.relText_inj.mp hrel
    obtain ⟨rest, rfl⟩ := habove
    exact Or.inr ⟨r, hr, hlib, above, rest ++ below, rfl, by rw [hparent, List.append_assoc]⟩

end ServerState.Named

theorem named_of_row {s : ServerState} {r : Row} (hr : r ∈ s.index.videos) {dir : Path}
    (hparent : r.record.parent = dir.relText) : s.Named r.record.library dir.relText :=
  Or.inr ⟨r, hr, rfl, dir, [], rfl, by rw [hparent, List.append_nil]⟩

/-- The server has had these libraries all the time. -/
def AllPlaced (libraries : List Library) (past : List ServerState) : Prop :=
  ∀ s ∈ past, s.Placed ∧ s.libraries = libraries

section
variable {libraries : List Library} {past : List ServerState} {s : ServerState}

theorem names_ofPast (libraries : List Library) (past : List ServerState) :
    (World.ofPast libraries past).names = libraries.map Library.name := by
  unfold World.names World.ofPast
  rw [List.map_map]
  rfl

/-- An item that the server has had is that of a master. -/
theorem AllPlaced.master (h : AllPlaced libraries past) {item : Api.VideoItem}
    (hitem : (World.ofPast libraries past).Has item) : ∃ record : VideoRecord,
      IsMaster libraries record ∧ item.library = record.library ∧ item.path = record.relPath ∧
        item.discSet = record.discSet := by
  obtain ⟨s, hs, r, hr, rfl⟩ := hitem
  obtain ⟨hplaced, hlibraries⟩ := h s hs
  exact ⟨r.record, hlibraries ▸ hplaced.rows r hr, rfl, rfl, rfl⟩

theorem IsMaster.path {record : VideoRecord} (h : IsMaster libraries record) :
    record.library ∈ libraries.map Library.name ∧ ∃ (dir : Path) (video : FileName),
      record.relPath = Path.relText (dir ++ [video]) ∧ record.parent = dir.relText := by
  obtain ⟨library, hlibrary, dir, video, hplace⟩ := h
  simp only [VideoRecord.place, Library.place, Prod.mk.injEq] at hplace
  obtain ⟨hname, hpath, hparent, -⟩ := hplace
  rw [hname]
  exact ⟨List.mem_map_of_mem hlibrary, dir, video, hpath, hparent⟩

theorem AllPlaced.coherent (h : AllPlaced libraries past) (hne : past ≠ []) :
    (World.ofPast libraries past).Coherent where
  name_ne name hname := by
    obtain ⟨s, hs⟩ := List.exists_mem_of_ne_nil past hne
    obtain ⟨hplaced, rfl⟩ := h s hs
    exact hplaced.name_ne (names_ofPast _ past ▸ hname)
  root name hname := ⟨names_ofPast _ past ▸ hname, Or.inl rfl⟩
  directory := by
    rintro name path ⟨hname, hpath⟩
    rw [names_ofPast]
    refine ⟨hname, ?_⟩
    rcases hpath with rfl | ⟨s, hs, hnamed⟩
    · refine ⟨[], rfl, fun above habove => ⟨hname, Or.inl ?_⟩⟩
      rw [List.prefix_nil.mp habove]
      rfl
    · obtain ⟨rel, rfl⟩ := hnamed.exists_relText
      exact ⟨rel, rfl, fun above habove => ⟨hname, Or.inr ⟨s, hs, hnamed.above habove⟩⟩⟩
  item := by
    intro item hitem
    obtain ⟨s, hs, r, hr, rfl⟩ := hitem
    obtain ⟨hplaced, rfl⟩ := h s hs
    obtain ⟨hname, dir, video, hrel, hparent⟩ := (hplaced.rows r hr).path
    exact ⟨dir, video, hrel, hname, Or.inr ⟨s, hs, named_of_row hr hparent⟩⟩

/-! ## Answers -/

/-- The status of an answer: a success, something that is not found, or a search that cannot be
read. -/
def World.Tells (w : World) (call : Call) (status : Nat) : Prop :=
  status = 200 ∨ status = 404 ∨ status = 500 ∧ w.Unread call

/-- A response to a call, with what the client makes of it. -/
def World.Told (w : World) (s : ServerState) (call : Call) : Prop :=
  w.Tells call (call.handled s).2.status ∧ w.Truthful call (call.answer (call.handled s).2)

/-- A subdirectory of a listing is at or above the parent of a row. -/
theorem ServerState.Placed.subdirectory (hs : s.Placed) {library : String} {rel : Path}
    {name : String}
    (hname : name ∈ (s.index.browseDirectory library rel.relText).subdirectories) :
    s.Named library (childRelPath rel.relText name) := by
  have hcomponents : ∀ p : Path, ∀ c ∈ p.map FileName.text, IsComponent c := by
    intro p c hc
    obtain ⟨m, -, rfl⟩ := List.mem_map.mp hc
    exact ⟨m.valid.1, m.slash_not_mem⟩
  have hparents : ParentsJoined s.index := by
    intro r hr
    obtain ⟨-, dir, -, -, hparent⟩ := (hs.rows r hr).path
    exact ⟨dir.map FileName.text, hcomponents dir, hparent⟩
  obtain ⟨r, hr, hlib, rest, hrest, hparent⟩ :=
    (mem_subdirectories_joined hparents (hcomponents rel)).mp hname
  obtain ⟨-, dir, -, -, hdir⟩ := (hs.rows r hr).path
  have htext := toList_joined_append (hcomponents rel) (List.cons_ne_nil name rest)
  rw [← hparent, hdir] at htext
  obtain ⟨last, hlast, hbelow⟩ := append_of_joined (hcomponents rel) (hcomponents dir) htext
  obtain ⟨front, back, rfl, hfront, rfl⟩ := List.map_eq_append_iff.mp hlast
  obtain rfl : front = rel :=
    List.map_injective_iff.mpr (fun _ _ => FileName.ext) hfront
  cases back with
  | nil =>
    have hempty := joined_eq_empty hrest (String.toList_inj.mp hbelow.symm)
    exact absurd hempty (List.cons_ne_nil name rest)
  | cons n back =>
    -- both texts begin with their first component
    have hfirst := firstComponent_joined (hrest name List.mem_cons_self) rest
    rw [← hbelow, List.map_cons,
      firstComponent_joined (hcomponents [n] _ List.mem_cons_self)] at hfirst
    refine Or.inr ⟨r, hr, hlib, front ++ [n], back, ?_, ?_⟩
    · show childRelPath (joined (front.map FileName.text)) name = _
      rw [childRelPath_joined (hcomponents front), Path.relText, List.map_append, ← hfirst]
      rfl
    · rw [hdir, List.append_assoc]
      rfl

/-- A listing that is no longer there is said not to be found. -/
theorem told_getBrowse (h : AllPlaced libraries past) (hs : s ∈ past) {library : Library}
    (hlibrary : library ∈ libraries) (rel : Path) :
    (World.ofPast libraries past).Told s (.getBrowse library.name rel.relText) := by
  obtain ⟨hplaced, rfl⟩ := h s hs
  have hrequested : requestedLibrary s.libraries ⟨some library.name, rel.relText⟩ =
      some library := hplaced.findLibrary hlibrary
  rcases ensureDirectoryExists_linkFree hplaced.free library rel rel.relText with
    ⟨root, hroot, hdir⟩ | hmissing
  · obtain ⟨hstatus, hanswer⟩ := hplaced.handled_getBrowse hlibrary hroot hdir
    have hhas : ∀ item, s.Has item → (World.ofPast s.libraries past).Has item :=
      fun _ hitem => ⟨s, hs, hitem⟩
    have hdirectories : ∀ name ∈
        (s.index.browseDirectory library.name rel.relText).subdirectories,
        (World.ofPast s.libraries past).Directory library.name (childRelPath rel.relText name) :=
      fun name hname =>
        ⟨List.mem_map_of_mem hlibrary, Or.inr ⟨s, hs, hplaced.subdirectory hname⟩⟩
    have hthere : s.Named library.name rel.relText :=
      Or.inl ⟨library, hlibrary, rfl, root, rel, hroot, hdir, rfl⟩
    have hshown : (World.ofPast s.libraries past).HasListing (DirListing.counterpart
        ⟨library.name, rel.relText, listing s.index library rel.relText s.active⟩) := by
      refine ⟨⟨List.mem_map_of_mem hlibrary, Or.inr ⟨s, hs, hthere⟩⟩, fun entry hentry => ?_⟩
      obtain ⟨shown, hshown, rfl⟩ := List.mem_map.mp hentry
      exact ServerState.hasEntry_listing hhas hdirectories hshown
    refine ⟨Or.inl hstatus, ?_⟩
    rw [hanswer]
    exact .listing hshown
  · have hhandler : browseHandler s.tree s.libraries s.active s.index
        ⟨some library.name, rel.relText⟩ = .error (.directoryNotFound rel.relText) := by
      unfold browseHandler
      rw [hrequested, relPath_relText]
      dsimp only
      rw [hmissing]
    have hresponse : ((Call.getBrowse library.name rel.relText).handled s).2 =
        ⟨404, .text (BrowseError.text (.directoryNotFound rel.relText))⟩ := by
      show s.browse ⟨some library.name, rel.relText⟩ = _
      unfold ServerState.browse
      rw [hhandler]
      rfl
    unfold World.Told
    rw [hresponse]
    exact ⟨Or.inr (Or.inl rfl), .noListing _ trivial⟩

/-- The row that an item is asked for by, or none. -/
theorem told_getItem (h : AllPlaced libraries past) (hs : s ∈ past) {library path : String}
    (hserves : (World.ofPast libraries past).Serves (.getItem library path)) :
    (World.ofPast libraries past).Told s (.getItem library path) := by
  obtain ⟨item, hitem, rfl, rfl⟩ := hserves
  obtain ⟨record, hmaster, hlib, hpath, -⟩ := h.master hitem
  obtain ⟨hname, dir, video, hrel, -⟩ := hmaster.path
  obtain ⟨hplaced, rfl⟩ := h s hs
  rw [hlib, hpath]
  cases hrow : s.index.videos.find? (record.library, record.relPath) with
  | some r =>
    obtain ⟨hr, hkey⟩ := Lib.Table.find?_eq_some_iff.mp hrow
    have hsameLib : r.record.library = record.library := congrArg Prod.fst hkey
    have hsamePath : r.record.relPath = record.relPath := congrArg Prod.snd hkey
    obtain ⟨hstatus, hanswer⟩ := hplaced.handled_getItem hr (hsamePath.trans hrel)
    have hhas : (World.ofPast s.libraries past).Has
        (VideoItem.fromRecord s.active (s.index.recordFromRow r)).counterpart :=
      ⟨s, hs, r, hr, rfl⟩
    have htruthful := World.Truthful.item hhas
    rw [← hanswer] at htruthful
    rw [← hsameLib, ← hsamePath]
    exact ⟨Or.inl hstatus, htruthful⟩
  | none =>
    obtain ⟨found, -, -, hfound⟩ := hplaced.exists_library hname
    have hhandler : itemHandler s.libraries s.active s.index ⟨record.library, record.relPath⟩ =
        .error (.itemNotFound record.library record.relPath) := by
      have hdrop : String.ofList (record.relPath.toList.dropWhile (· == '/')) = record.relPath := by
        rw [hrel]
        exact relPath_relText none _
      unfold itemHandler Index.video
      dsimp only
      rw [hfound, hdrop, hrow]
      rfl
    have hresponse : ((Call.getItem record.library record.relPath).handled s).2 =
        ⟨404, .text (ItemError.text (.itemNotFound record.library record.relPath))⟩ := by
      show s.item ⟨record.library, record.relPath⟩ = _
      unfold ServerState.item
      rw [hhandler]
      rfl
    unfold World.Told
    rw [hresponse]
    exact ⟨Or.inr (Or.inl rfl), .noItem _ trivial⟩

/-- A pick is refused only if its row is gone: a row of that path is in the same set. -/
theorem told_postMainTitle (h : AllPlaced libraries past) (hs : s ∈ past)
    {library discSet path : String}
    (hserves : (World.ofPast libraries past).Serves (.postMainTitle library discSet path)) :
    (World.ofPast libraries past).Told s (.postMainTitle library discSet path) := by
  obtain ⟨item, hitem, rfl, rfl, hset⟩ := hserves
  obtain ⟨record, hmaster, hlib, hpath, hdiscSet⟩ := h.master hitem
  obtain ⟨hname, -⟩ := hmaster.path
  obtain ⟨hplaced, rfl⟩ := h s hs
  rw [hlib, hpath]
  cases hrow : s.index.videos.find? (record.library, record.relPath) with
  | some r =>
    obtain ⟨hr, hkey⟩ := Lib.Table.find?_eq_some_iff.mp hrow
    obtain ⟨t, cli, file, hresolve⟩ := hplaced.libraries
    have hsame := (hplaced.rows r hr).discSet_eq (nodup_resolveLibraries hresolve) hmaster hkey
    have hsameLib : r.record.library = record.library := congrArg Prod.fst hkey
    have hsamePath : r.record.relPath = record.relPath := congrArg Prod.snd hkey
    obtain ⟨hstatus, hanswer⟩ := hplaced.handled_postMainTitle hr
      (hsame.trans (hdiscSet.symm.trans hset))
    rw [← hsameLib, ← hsamePath]
    refine ⟨Or.inl hstatus, ?_⟩
    rw [hanswer]
    exact .mainTitle
  | none =>
    obtain ⟨found, -, -, hfound⟩ := hplaced.exists_library hname
    have hhandler : setMainHandler s.libraries ⟨record.library, discSet, record.relPath⟩ s.index =
        .error (.itemNotFound record.library record.relPath) := by
      unfold setMainHandler Index.video
      dsimp only
      rw [hfound, hrow]
      rfl
    have hresponse : ((Call.postMainTitle record.library discSet record.relPath).handled s).2 =
        ⟨404, .text (DiscSetError.text (.itemNotFound record.library record.relPath))⟩ := by
      show (s.setMain ⟨record.library, discSet, record.relPath⟩).2 = _
      unfold ServerState.setMain
      rw [hhandler]
      rfl
    unfold World.Told
    rw [hresponse]
    exact ⟨Or.inr (Or.inl rfl), .noMainTitle _ trivial⟩

/-- What has been on the server is answered truthfully. -/
theorem AllPlaced.told (h : AllPlaced libraries past) (hs : s ∈ past) {call : Call}
    (hserves : (World.ofPast libraries past).Serves call) :
    (World.ofPast libraries past).Told s call := by
  have hlibraries := (h s hs).2
  cases call with
  | getLibraries =>
    obtain ⟨hstatus, hanswer⟩ := ServerState.handled_getLibraries s
    have hinfos : s.libraryInfos = (World.ofPast libraries past).libraries := by
      rw [← hlibraries]
      rfl
    refine ⟨Or.inl hstatus, ?_⟩
    rw [hanswer, hinfos]
    exact .libraries
  | getBrowse name path =>
    obtain ⟨library, hlibrary, rfl⟩ := List.mem_map.mp hserves.1
    have hcoherent := h.coherent (List.ne_nil_of_mem hs)
    obtain ⟨-, rel, rfl, -⟩ := hcoherent.directory hserves
    exact told_getBrowse h hs hlibrary rel
  | getItem library path => exact told_getItem h hs hserves
  | getSearch query library limit offset =>
    obtain ⟨hnames, hlimit, hoffset⟩ := hserves
    have hsearches : ∀ name ∈ library, name ∈ s.libraries.map Library.name := by
      intro name hname
      rw [hlibraries, ← names_ofPast _ past]
      exact hnames name hname
    by_cases hreads : s.engine.Reads query
    · obtain ⟨page, -, hstatus, ⟨htotal, hitems⟩, hanswer⟩ :=
        (h s hs).1.handled_getSearch_ok query hsearches hlimit hoffset hreads
      refine ⟨Or.inl hstatus, ?_⟩
      rw [hanswer]
      exact .results ⟨htotal, fun item hitem => ⟨s, hs, hitems item hitem⟩⟩
    · obtain ⟨hstatus, error, hanswer⟩ :=
        (h s hs).1.handled_getSearch_unread hsearches hlimit hoffset hreads
      have hunread : ¬ (World.ofPast libraries past).Reads query := fun hall => hreads (hall s hs)
      refine ⟨Or.inr (Or.inr ⟨hstatus, hunread⟩), ?_⟩
      rw [hanswer]
      exact .noResults error hunread
  | postMainTitle library discSet path => exact told_postMainTitle h hs hserves

end

/-! ## Visits -/

/-- A visit, with the states that the server has been in. -/
structure LiveVisit where
  visit : Visit
  past : List ServerState

def LiveVisit.start (url : String) (s : ServerState) : LiveVisit := ⟨Visit.start url s, [s]⟩

/-- An event of the visit, or a change of what the server answers from. -/
inductive LiveStep (reader : FormReader) (fromFloat : Rat → String) :
    LiveVisit → Option VisitAction → LiveVisit → Prop
  | visit {l : LiveVisit} {action : VisitAction} {v : Visit}
      (h : VisitStep reader fromFloat l.visit action v) :
      LiveStep reader fromFloat l (some action) ⟨v, l.past ++ [v.server]⟩
  | change {l : LiveVisit} {s : ServerState} (hplaced : s.Placed)
      (hlibraries : s.libraries = l.visit.server.libraries) :
      LiveStep reader fromFloat l none ⟨{ l.visit with server := s }, l.past ++ [s]⟩

namespace LiveVisit

/-- The visit is sound for any past of the server that goes on from here. -/
structure Inv (libraries : List Library) (l : LiveVisit) : Prop where
  placed : AllPlaced libraries l.past
  server : l.visit.server ∈ l.past
  status : ∀ p ∈ l.visit.returned, (World.ofPast libraries l.past).Tells p.1.call p.2.status
  visit : ∀ past, AllPlaced libraries past → l.past ⊆ past →
    l.visit.Inv (World.ofPast libraries past)

variable {libraries : List Library} {l l' : LiveVisit} {reader : FormReader}
  {fromFloat : Rat → String}

theorem tells_mono {past past' : List ServerState} {call : Call} {status : Nat}
    (h : (World.ofPast libraries past).Tells call status) (hsub : past ⊆ past') :
    (World.ofPast libraries past').Tells call status := by
  refine h.imp_right (Or.imp_right fun ⟨hstatus, hunread⟩ => ⟨hstatus, ?_⟩)
  cases call with
  | getSearch query library limit offset => exact fun hall => hunread fun s hs => hall s (hsub hs)
  | _ => exact hunread

theorem AllPlaced.concat {past : List ServerState} (h : AllPlaced libraries past)
    {s : ServerState} (hplaced : s.Placed) (hlibraries : s.libraries = libraries) :
    AllPlaced libraries (past ++ [s]) := by
  intro t ht
  rcases List.mem_append.mp ht with ht | ht
  · exact h t ht
  · rw [List.mem_singleton.mp ht]
    exact ⟨hplaced, hlibraries⟩

/-- The server answers what is on the way. -/
theorem Inv.told (h : l.Inv libraries) {past : List ServerState}
    (hall : AllPlaced libraries past) (hsub : l.past ⊆ past) {r : Request}
    (hr : r ∈ l.visit.client.inFlight) :
    (World.ofPast libraries past).Told l.visit.server r.call :=
  hall.told (hsub h.server) ((h.visit past hall hsub).serves r hr)

theorem Inv.step (h : l.Inv libraries) {action : Option VisitAction}
    (hstep : LiveStep reader fromFloat l action l') : l'.Inv libraries := by
  obtain ⟨hplaced, hlibraries⟩ := h.placed _ h.server
  cases hstep with
  | @visit action v hvisit =>
    obtain ⟨picks, hserver⟩ := Visit.exists_picked_of_step hvisit
    have hplaced' : v.server.Placed := hserver ▸ hplaced.picked picks
    have hlibraries' : v.server.libraries = libraries := by
      rw [hserver]
      exact hlibraries
    refine ⟨AllPlaced.concat h.placed hplaced' hlibraries',
      List.mem_append_right _ List.mem_cons_self, ?_, ?_⟩
    · intro p hp
      rcases Visit.returned_of_step hvisit hp with hp | ⟨hr, hresponse⟩
      · exact tells_mono (h.status p hp) (List.subset_append_left _ _)
      · rw [hresponse]
        exact tells_mono (h.told h.placed (List.Subset.refl _) hr).1
          (List.subset_append_left _ _)
    · intro past hall hsub
      have hsub' : l.past ⊆ past := fun s hs => hsub (List.mem_append_left _ hs)
      have hcoherent := hall.coherent (List.ne_nil_of_mem (hsub' h.server))
      exact (h.visit past hall hsub').step hcoherent
        (fun r hr => (h.told hall hsub' hr).2) hvisit
  | change hplaced' hlibraries' =>
    refine ⟨AllPlaced.concat h.placed hplaced' (hlibraries'.trans hlibraries),
      List.mem_append_right _ List.mem_cons_self,
      fun p hp => tells_mono (h.status p hp) (List.subset_append_left _ _), ?_⟩
    intro past hall hsub
    have hvisit := h.visit past hall fun s hs => hsub (List.mem_append_left _ hs)
    exact { hvisit with }

/-- What was there at first is there ever since. -/
theorem leads_of_first {s : ServerState} {route : Route}
    (h : (World.ofPast libraries [s]).Leads route) {past : List ServerState} (hs : s ∈ past) :
    (World.ofPast libraries past).Leads route := by
  cases route with
  | player params =>
    obtain ⟨item, ⟨t, ht, hitem⟩, hparams⟩ := h
    obtain rfl := List.mem_singleton.mp ht
    exact ⟨item, ⟨t, hs, hitem⟩, hparams⟩
  | browse params =>
    obtain ⟨⟨hname, hpath⟩, hpage⟩ := h
    refine ⟨⟨hname, hpath.imp_right ?_⟩, hpage⟩
    rintro ⟨t, ht, hnamed⟩
    obtain rfl := List.mem_singleton.mp ht
    exact ⟨t, hs, hnamed⟩
  | _ => exact h

theorem inv_start {s : ServerState} (hs : s.Placed) {url : String}
    (hurl : (World.ofPast s.libraries [s]).Leads (Route.parse (Url.ofText url))) :
    (start url s).Inv s.libraries where
  placed := by
    intro t ht
    obtain rfl := List.mem_singleton.mp ht
    exact ⟨hs, rfl⟩
  server := List.mem_cons_self
  status := fun _ hp => absurd hp List.not_mem_nil
  visit past _ hsub := Visit.inv_start (leads_of_first hurl (hsub List.mem_cons_self))

end LiveVisit

/-- While the index and the files change, every response of a visit is a success or says that
something is not found or, of a search, that its text cannot be read. What a page shows has been on
the server, a search page fails only after such a response, and as long as a page loads, a request
whose answer it takes is on the way. -/
theorem visit_while_indexing {s : ServerState} (hs : s.Placed) (reader : FormReader)
    (fromFloat : Rat → String) {url : String}
    (hurl : (World.ofPast s.libraries [s]).Leads (Route.parse (Url.ofText url)))
    {actions : List (Option VisitAction)} {l : LiveVisit}
    (hrun : Lib.Run (LiveStep reader fromFloat) (LiveVisit.start url s) actions l) :
    (∀ p ∈ l.visit.returned, (World.ofPast s.libraries l.past).Tells p.1.call p.2.status) ∧
      (World.ofPast s.libraries l.past).Shows l.visit.client.page ∧
      (l.visit.client.page.SearchFailed → ∃ p ∈ l.visit.returned,
        (World.ofPast s.libraries l.past).Unread p.1.call) ∧
      ∀ call, l.visit.client.page.Awaits call →
        ∃ r ∈ l.visit.client.inFlight, l.visit.client.page.Awaits r.call := by
  have hinv := hrun.invariant (I := LiveVisit.Inv s.libraries) (fun _ _ _ h hstep => h.step hstep)
    (LiveVisit.inv_start hs hurl)
  have hvisit := hinv.visit l.past hinv.placed (List.Subset.refl _)
  exact ⟨hinv.status, hvisit.shows, hvisit.failed, hvisit.loads⟩

/-- The server of a run of maintenance, the worker and crashes. -/
theorem placed_of_run {decoders : Decoders} {libraries : List Library} {disk t : FileTree}
    {cli : Option Path} {config : Option (List LibraryFileEntry)} (ht : t.LinkFree)
    (hresolve : resolveLibraries disk cli config = .ok libraries)
    {actions : List (Option DerivationAction)} {s : DerivationSystem}
    (hrun : Lib.Run (CopyStep decoders libraries) (derivationStart t) actions s)
    (engine : FullText) (active : Option ActiveDerivation)
    (hintegers : ∀ r ∈ s.index.videos,
      (VideoItem.fromRecord active (s.index.recordFromRow r)).Exact)
    (hfew : s.index.videos.rows.length < 2 ^ 31) :
    (s.server libraries engine active).Placed where
  libraries := ⟨disk, cli, config, hresolve⟩
  configured r hr := by
    obtain ⟨hname, -⟩ := IsMaster.path ((mastersOnly_run hrun).rows r hr)
    exact hname
  integers := hintegers
  few := hfew
  free := by
    have hinv := hrun.invariant (I := CopiesThere libraries) (fun _ _ _ h hstep => h.step hstep)
      (copiesThere_start ht)
    exact hinv.free
  rows := (mastersOnly_run hrun).rows

/-! ## A video that is gone -/

namespace StaleSnapshot

open OneVideo (lib tree library decoders)

/-- The server with the video, and one whose index is empty again. -/
def first : ServerState := updated.server [library] engine none

def gone : ServerState := (derivationStart tree).server [library] engine none

theorem placed_first : first.Placed := by
  have hresolve : resolveLibraries tree none (some [⟨"movies", [lib], .downloads⟩]) =
      .ok [library] := by decide
  have hnumbers : ∀ r ∈ updated.index.videos.rows, r.record.year = none ∧
      r.record.viewCount = none ∧ r.record.discTitleIndex = none := by decide
  refine placed_of_run (by decide) hresolve run_updated engine none ?_ (by decide)
  intro r hr
  obtain ⟨hyear, hviews, htitle⟩ := hnumbers r hr
  exact VideoItem.exact_of_none hyear hviews htitle

theorem placed_gone : gone.Placed := by
  have hresolve : resolveLibraries tree none (some [⟨"movies", [lib], .downloads⟩]) =
      .ok [library] := by decide
  have hrun : Lib.Run (CopyStep decoders [library]) (derivationStart tree) []
      (derivationStart tree) := .nil _
  exact placed_of_run (by decide) hresolve hrun engine none
    (fun r hr => absurd hr (Lib.Table.not_mem_empty r)) (by decide)

def address : String := (Route.player ⟨item.library, item.path⟩).toString

def request : Request := ⟨0, .getItem item.library item.path⟩

/-- The page of the video is opened, the video goes, and only then it is asked for. -/
def missed : LiveVisit :=
  ⟨(({ Visit.start address first with server := gone }).served request
      (request.call.handled gone)).arrived request (request.call.handled gone).2,
    [first, gone, gone, gone]⟩

theorem visit_while_indexing_missed :
    (∀ p ∈ missed.visit.returned,
        (World.ofPast [library] missed.past).Tells p.1.call p.2.status) ∧
      (World.ofPast [library] missed.past).Shows missed.visit.client.page ∧
      (missed.visit.client.page.SearchFailed → ∃ p ∈ missed.visit.returned,
        (World.ofPast [library] missed.past).Unread p.1.call) ∧
      ∀ call, missed.visit.client.page.Awaits call →
        ∃ r ∈ missed.visit.client.inFlight, missed.visit.client.page.Awaits r.call := by
  have hroute : Route.parse (Url.ofText address) = .player ⟨item.library, item.path⟩ :=
    parse_ofText_player ⟨by decide, by decide⟩
  have hleads : (World.ofPast first.libraries [first]).Leads
      (Route.parse (Url.ofText address)) := by
    rw [hroute]
    exact ⟨item, ⟨first, List.mem_cons_self, row, List.head_mem _, rfl⟩, rfl, rfl⟩
  have hflight : request ∈ (Visit.start address first).client.inFlight := by
    unfold Visit.start
    rw [hroute]
    exact List.mem_cons_self
  have hserve : VisitStep .plain (fun _ => "")
      { Visit.start address first with server := gone } _ _ :=
    .serve hflight (appRoutes_request .plain gone request.call)
  have harrive : VisitStep .plain (fun _ => "") _ _ missed.visit :=
    .arrive hflight (List.mem_append_right _ List.mem_cons_self)
  have hrun : Lib.Run (LiveStep .plain fun _ => "") (LiveVisit.start address first)
      [none, some (.serve request), some (.arrive request (request.call.handled gone).2)] missed :=
    .cons (.change placed_gone rfl) (.cons (.visit hserve) (.single (.visit harrive)))
  exact visit_while_indexing placed_first .plain (fun _ => "") hleads hrun

end StaleSnapshot

end Loku
