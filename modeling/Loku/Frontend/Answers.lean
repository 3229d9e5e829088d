import Loku.Config
import Loku.Frontend.World
import Loku.Routes.Assembled

/-!
# What the client gets

A server is orderly when its libraries are the configured ones, its rows are of these libraries,
and its integers are exact in the client's numbers. The client decodes what such a server answers:
the libraries, pages of results, and each listing, item or pick that is accepted.

A server is sound when its index agrees with the file trees as well. It answers each call that
asks for something it has with success, unless the full-text engine cannot read the text that is
searched for (`truthful_answer`). A picked main title is all that an
answer changes (`exists_picked`).
-/

namespace Loku

/-- Of an item without numbers nothing is lost in a browser. -/
theorem VideoItem.exact_of_none {item : VideoItem} (hyear : item.year = none)
    (hviews : item.viewCount = none) (htitle : item.discTitleIndex = none) : item.Exact where
  year := by simp [hyear]
  viewCount := by simp [hviews]
  discTitleIndex := by simp [htitle]

namespace ServerState

/-! ## What the server has -/

/-- The libraries are as configured, the rows are of these libraries only and fewer than `2 ^ 31`,
and the client reads their numbers exactly. -/
structure Orderly (s : ServerState) : Prop where
  libraries : ∃ t cli file, resolveLibraries t cli file = .ok s.libraries
  configured : ∀ r ∈ s.index.videos, r.record.library ∈ s.libraries.map Library.name
  integers : ∀ r ∈ s.index.videos,
    (VideoItem.fromRecord s.active (s.index.recordFromRow r)).Exact
  few : s.index.videos.rows.length < 2 ^ 31

/-- And each library lists the videos of its tree. -/
structure Sound (s : ServerState) : Prop extends s.Orderly where
  trees : ∀ library ∈ s.libraries, ∃ root, s.tree.canonicalize library.path = some root ∧
    s.tree.node root = some .dir ∧ Lists s.index library.name root (videosOf s.tree root)

/-- The server with other picks. -/
def picked (s : ServerState) (picks : Lib.Table DiscSetOverride.key) : ServerState :=
  { s with index := { s.index with discSetOverrides := picks } }

section
variable (s : ServerState)

/-- The path is the stored text of a directory of the library. -/
def Directory (name path : String) : Prop :=
  ∃ library ∈ s.libraries, library.name = name ∧
    ∃ root rel : Path, s.tree.canonicalize library.path = some root ∧
      s.tree.node (root ++ rel) = some .dir ∧ path = rel.relText

/-- The item is that of a row. -/
def Has (item : Api.VideoItem) : Prop :=
  ∃ r ∈ s.index.videos,
    (VideoItem.fromRecord s.active (s.index.recordFromRow r)).counterpart = item

/-- The configured libraries, as the client gets them. -/
def libraryInfos : List Api.Library := s.libraries.map fun library => ⟨library.name, library.kind⟩

/-- What the client may be told of while the server is as it is. -/
def world : World := ⟨s.libraryInfos, s.Directory, s.Has, s.engine.Reads, False⟩

end

theorem names_world (s : ServerState) : s.world.names = s.libraries.map Library.name := by
  unfold World.names world libraryInfos
  rw [List.map_map]
  rfl

/-! ## Picks -/

theorem Sound.picked {s : ServerState} (h : s.Sound) (picks : Lib.Table DiscSetOverride.key) :
    (s.picked picks).Sound where
  libraries := h.libraries
  configured := h.configured
  trees library hmem := by
    obtain ⟨root, hroot, hdir, hlists⟩ := h.trees library hmem
    exact ⟨root, hroot, hdir, hlists.congr fun _ _ => rfl⟩
  integers := h.integers
  few := h.few

/-- A call changes nothing but the picks. -/
theorem exists_picked (s : ServerState) (call : Call) :
    ∃ picks, (call.handled s).1 = s.picked picks := by
  cases call with
  | postMainTitle library discSet path =>
    show ∃ picks, (s.setMain ⟨library, discSet, path⟩).1 = _
    unfold setMain
    split
    · rename_i index response hok
      obtain ⟨-, rfl⟩ := setMainHandler_ok hok
      exact ⟨_, rfl⟩
    · exact ⟨s.index.discSetOverrides, rfl⟩
  | _ => exact ⟨s.index.discSetOverrides, rfl⟩

/-! ## Libraries -/

section
variable {s : ServerState}

theorem Orderly.name_ne (h : s.Orderly) {name : String}
    (hname : name ∈ s.libraries.map Library.name) : name ≠ "" := by
  obtain ⟨t, cli, file, hresolve⟩ := h.libraries
  obtain ⟨library, hmem, rfl⟩ := List.mem_map.mp hname
  exact name_ne_of_resolveLibraries hresolve library hmem

theorem Orderly.findLibrary (h : s.Orderly) {library : Library} (hmem : library ∈ s.libraries) :
    findLibrary s.libraries library.name = some library := by
  obtain ⟨t, cli, file, hresolve⟩ := h.libraries
  have hnodup := nodup_resolveLibraries hresolve
  cases hfind : Loku.findLibrary s.libraries library.name with
  | none =>
    have hnone := List.find?_eq_none.mp hfind library hmem
    simp at hnone
  | some found =>
    have hname : found.name = library.name := by simpa using List.find?_some hfind
    rw [List.inj_on_of_nodup_map hnodup (List.mem_of_find?_eq_some hfind) hmem hname]

theorem Orderly.exists_library (h : s.Orderly) {name : String}
    (hname : name ∈ s.libraries.map Library.name) :
    ∃ library ∈ s.libraries, library.name = name ∧
      Loku.findLibrary s.libraries name = some library := by
  obtain ⟨library, hmem, rfl⟩ := List.mem_map.mp hname
  exact ⟨library, hmem, rfl, h.findLibrary hmem⟩

/-- A directory that is at or above the parent of a row is there. -/
theorem Sound.directory_of_row (h : s.Sound) {library : Library} (hmem : library ∈ s.libraries)
    {r : Row} (hr : r ∈ s.index.videos) (hlib : r.record.library = library.name) {path : String}
    (habove : AtOrBeneath path r.record.parent) : s.Directory library.name path := by
  obtain ⟨root, hroot, -, hlists⟩ := h.trees library hmem
  have hlisted : listing s.index library path none ≠ [] :=
    listing_ne_nil_iff.mpr ⟨r, hr, hlib, habove⟩
  obtain ⟨rel, hrel, hdir, -⟩ := exists_video_of_listing hlists hlisted
  exact ⟨library, hmem, rfl, root, rel, hroot, hdir, hrel⟩

/-! ## Items -/

/-- The path of an item is the stored text of its file. -/
theorem Sound.path_of_has (h : s.Sound) {item : Api.VideoItem} (hitem : s.Has item) :
    item.library ∈ s.libraries.map Library.name ∧ ∃ (dir : Path) (video : FileName),
      item.path = Path.relText (dir ++ [video]) ∧ s.Directory item.library dir.relText := by
  obtain ⟨r, hr, rfl⟩ := hitem
  have hconfigured := h.configured r hr
  obtain ⟨library, hmem, hname⟩ := List.mem_map.mp hconfigured
  obtain ⟨root, hroot, -, hlists⟩ := h.trees library hmem
  obtain ⟨⟨dir, video⟩, hp, hrel, hparent⟩ := hlists.sound r hr hname.symm
  obtain ⟨below, rfl⟩ := hlists.under _ hp
  rw [List.append_assoc, relativeOf_append] at hrel
  rw [relativeOf_append] at hparent
  refine ⟨hconfigured, below, video, hrel, ?_⟩
  show s.Directory r.record.library _
  rw [← hname]
  apply h.directory_of_row hmem hr hname.symm
  rw [hparent]
  exact atOrBeneath_relText.mpr List.prefix_rfl

/-- The items of a listing are rows of the library. -/
theorem has_of_mem_items {library : Library} {path : String} {entry : Entry} {item : VideoItem}
    (hentry : entry ∈ listing s.index library path s.active) (hitem : item ∈ entry.items) :
    s.Has item.counterpart ∧ item.library = library.name ∧
      ∃ r ∈ s.index.videos, VideoItem.fromRecord s.active (s.index.recordFromRow r) = item := by
  have hmem := (items_listing s.index library path s.active).mem_iff.mp
    (List.mem_flatMap.mpr ⟨entry, hentry, hitem⟩)
  obtain ⟨record, hrecord, rfl⟩ := List.mem_map.mp hmem
  obtain ⟨r, hr, hlib, -, rfl⟩ := Index.mem_browse_videos.mp hrecord
  exact ⟨⟨r, hr, rfl⟩, hlib, r, hr, rfl⟩

/-- The titles of a set are in it, and the main one is among them. -/
theorem titles_of_mem_listing {library : Library} {path : String} {set : DiscSetEntry}
    (h : Entry.discSet set ∈ listing s.index library path s.active) :
    set.main ∈ set.titles ∧ ∀ item ∈ set.titles, item.discSet = some set.discSet := by
  have hentry := discSetEntry_of_mem_listing h
  refine ⟨(isMain_of_discSetEntry hentry).mem, fun item hitem => ?_⟩
  rw [titles_of_discSetEntry hentry, mem_discTitles] at hitem
  obtain ⟨record, hrecord, rfl⟩ := hitem
  unfold titlesIn at hrecord
  rw [setRecords_eq] at hrecord
  split at hrecord
  · exact of_decide_eq_true (List.mem_filter.mp hrecord).2
  · cases hrecord

/-- The entries of a listing, as the client decodes them, in a world with the items of the
server. -/
theorem hasEntry_listing {w : World} (hhas : ∀ item, s.Has item → w.Has item) {library : Library}
    {path : String}
    (hdirectories : ∀ name ∈ (s.index.browseDirectory library.name path).subdirectories,
      w.Directory library.name (childRelPath path name))
    {entry : Entry} (hentry : entry ∈ listing s.index library path s.active) :
    w.HasEntry library.name entry.counterpart := by
  cases entry with
  | directory dir =>
    obtain ⟨hname, hpath⟩ := mem_listing_directory.mp hentry
    show w.Directory library.name dir.path
    rw [hpath]
    exact hdirectories _ hname
  | video item =>
    obtain ⟨hitem, hlib, -⟩ := has_of_mem_items hentry List.mem_cons_self
    exact ⟨hhas _ hitem, hlib⟩
  | discSet set =>
    obtain ⟨hmain, hset⟩ := titles_of_mem_listing hentry
    refine ⟨List.mem_map_of_mem hmain, fun item hitem => ?_⟩
    obtain ⟨title, htitle, rfl⟩ := List.mem_map.mp hitem
    obtain ⟨hitem, hlib, -⟩ := has_of_mem_items hentry htitle
    exact ⟨hhas _ hitem, hlib, hset title htitle⟩

/-- A subdirectory of a listing is above a row. -/
theorem Sound.directory_of_subdirectory (h : s.Sound) {library : Library}
    (hmem : library ∈ s.libraries) {path name : String}
    (hname : name ∈ (s.index.browseDirectory library.name path).subdirectories) :
    s.Directory library.name (childRelPath path name) := by
  obtain ⟨r, hr, hlib, hrow⟩ := row_of_mem_subdirectories hname
  refine h.directory_of_row hmem hr hlib ?_
  by_cases hroot : childRelPath path name = ""
  · rw [hroot]
    exact atOrBeneath_root r.record.parent
  · rw [atOrBeneath_iff hroot]
    refine hrow.imp_right ?_
    rintro ⟨below, hbelow⟩
    exact ⟨below.toList, by simp [hbelow]⟩

theorem Orderly.exact_entry (h : s.Orderly) {library : Library} {path : String} {entry : Entry}
    (hentry : entry ∈ listing s.index library path s.active) : entry.Exact := by
  have hitem : ∀ item ∈ entry.items, item.Exact := by
    intro item hitem
    obtain ⟨-, -, r, hr, rfl⟩ := has_of_mem_items hentry hitem
    exact h.integers r hr
  cases entry with
  | directory dir => trivial
  | video item => exact hitem item List.mem_cons_self
  | discSet set => exact ⟨hitem set.main (titles_of_mem_listing hentry).1, hitem⟩

/-! ## Answers -/

theorem expectJson_ok {α : Type} {decoder : Decoder α} {json : Json} {value : α}
    (h : decoder json = some value) : expectJson decoder ⟨200, .json json⟩ = .ok value := by
  unfold expectJson
  rw [if_pos (show 200 ≤ 200 ∧ 200 < 300 from ⟨le_rfl, by omega⟩)]
  dsimp only
  rw [h]

theorem decode_libraries (infos : List LibraryInfo) :
    Decode.list Api.libraryDecoder (.array (infos.map LibraryInfo.toJson)) =
      some (infos.map fun info => ⟨info.name, info.kind⟩) := by
  refine Decode.list_array fun info _ => ?_
  have hkind : Api.libraryKindDecoder info.kind.toJson = some info.kind := by
    cases info.kind <;> rfl
  simp [Api.libraryDecoder, Decode.field, LibraryInfo.toJson, Json.get_record, Json.slot,
    Decode.string, hkind]

theorem handled_getLibraries (s : ServerState) :
    (Call.getLibraries.handled s).2.status = 200 ∧
      Call.getLibraries.answer (Call.getLibraries.handled s).2 =
        .libraries (.ok s.libraryInfos) := by
  refine ⟨rfl, ?_⟩
  show Answer.libraries (expectJson _ s.listLibraries) = _
  unfold listLibraries
  rw [expectJson_ok (decode_libraries _), librariesHandler, List.map_map]
  rfl

theorem Orderly.found (h : s.Orderly) {library : Option String}
    (hlibrary : ∀ name ∈ library, name ∈ s.libraries.map Library.name) :
    ∀ name ∈ library, (Loku.findLibrary s.libraries name).isSome = true := by
  intro name hname
  obtain ⟨library, -, -, hfound⟩ := h.exists_library (hlibrary name hname)
  rw [hfound]
  rfl

theorem Orderly.search_ok (h : s.Orderly) {params : SearchQuery}
    (hlibrary : ∀ name ∈ params.library, name ∈ s.libraries.map Library.name)
    (hreads : s.engine.Reads params.q) :
    ∃ page, searchHandler s.libraries s.engine s.active params s.index = .ok page ∧
      page.total ≤ s.index.videos.rows.length ∧ page.limit ≤ maxLimit ∧
      page.offset = params.offset.getD 0 ∧ ∀ item ∈ page.items, ∃ r ∈ s.index.videos,
        VideoItem.fromRecord s.active (s.index.recordFromRow r) = item := by
  unfold searchHandler
  rw [findLibrary_filter (h.found hlibrary)]
  dsimp only
  cases hfts : ftsQuery params.q with
  | none =>
    exact ⟨_, rfl, Nat.zero_le _, Nat.min_le_right _ _, rfl,
      fun item hitem => absurd hitem List.not_mem_nil⟩
  | some fts =>
    dsimp only
    cases hsearch : s.index.search s.engine fts params.library
        (min (params.limit.getD defaultLimit) maxLimit) (params.offset.getD 0) with
    | error error =>
      obtain ⟨results, hok⟩ := Index.search_ok_iff.mpr (hreads fts hfts)
      rw [hsearch] at hok
      cases hok
    | ok results =>
      refine ⟨_, rfl, ?_, Nat.min_le_right _ _, rfl, ?_⟩
      · rw [Index.total_search hsearch]
        exact List.length_filter_le _ _
      · intro item hitem
        obtain ⟨record, hrecord, rfl⟩ := List.mem_map.mp hitem
        obtain ⟨r, hr, -, -, rfl⟩ := Index.mem_search_items hsearch hrecord
        exact ⟨r, hr, rfl⟩

theorem handled_getSearch_eq (s : ServerState) (query : String) (library : Option String)
    {limit offset : Int} (hlimit : 0 ≤ limit ∧ limit < 2 ^ 32)
    (hoffset : 0 ≤ offset ∧ offset < 2 ^ 32) :
    (Call.getSearch query library limit offset).handled s =
      (s, s.search ⟨query, library, some limit.toNat, some offset.toNat⟩) := by
  have hread : ∀ i : Int, 0 ≤ i → i < 2 ^ 32 → asU32 i = some i.toNat :=
    fun i hi hi' => if_pos ⟨hi, by omega⟩
  show (s, (((asU32 limit).bind fun limit => (asU32 offset).map fun offset =>
    s.search ⟨query, library, some limit, some offset⟩).getD .badQuery)) = _
  rw [hread limit hlimit.1 hlimit.2, hread offset hoffset.1 hoffset.2, Option.bind_some,
    Option.map_some, Option.getD_some]

/-- A page of results, as the client gets it from the search handler. -/
theorem Orderly.handled_getSearch_ok (h : s.Orderly) (query : String) {library : Option String}
    (hlibrary : ∀ name ∈ library, name ∈ s.libraries.map Library.name) {limit offset : Int}
    (hlimit : 0 ≤ limit ∧ limit < 2 ^ 32) (hoffset : 0 ≤ offset ∧ offset < 2 ^ 32)
    (hreads : s.engine.Reads query) :
    let call : Call := .getSearch query library limit offset
    ∃ page, searchHandler s.libraries s.engine s.active
        ⟨query, library, some limit.toNat, some offset.toNat⟩ s.index = .ok page ∧
      (call.handled s).2.status = 200 ∧ s.world.HasPage page.counterpart ∧
      call.answer (call.handled s).2 = .results (.ok page.counterpart) := by
  intro call
  have hsearches : ∀ name ∈
      (⟨query, library, some limit.toNat, some offset.toNat⟩ : SearchQuery).library,
      name ∈ s.libraries.map Library.name := hlibrary
  obtain ⟨page, hpage, htotal, hmax, hfrom, hitems⟩ := h.search_ok hsearches hreads
  have hfew := h.few
  have hexact : page.Exact := by
    constructor
    · exact Lib.asDouble_of_natAbs_lt (by omega)
    · exact Lib.asDouble_of_natAbs_lt (by unfold maxLimit at hmax; omega)
    · exact Lib.asDouble_of_natAbs_lt (by rw [hfrom, Option.getD_some]; omega)
    · intro item hitem
      obtain ⟨r, hr, rfl⟩ := hitems item hitem
      exact h.integers r hr
  have hresponse : call.handled s = (s, ⟨200, .json page.toJson⟩) := by
    rw [handled_getSearch_eq s query library hlimit hoffset]
    unfold search
    rw [hpage]
    rfl
  rw [hresponse]
  refine ⟨page, hpage, rfl, ⟨⟨Int.natCast_nonneg _, ?_⟩, ?_⟩, ?_⟩
  · show (page.total : Int) < 2 ^ 31
    omega
  · intro item hitem
    obtain ⟨shown, hshown, rfl⟩ := List.mem_map.mp hitem
    obtain ⟨r, hr, rfl⟩ := hitems shown hshown
    exact ⟨r, hr, rfl⟩
  · exact congrArg Answer.results (expectJson_ok (decode_searchPage hexact))

/-- A search for a text that the engine cannot read. -/
theorem Orderly.handled_getSearch_unread (h : s.Orderly) {query : String} {library : Option String}
    (hlibrary : ∀ name ∈ library, name ∈ s.libraries.map Library.name) {limit offset : Int}
    (hlimit : 0 ≤ limit ∧ limit < 2 ^ 32) (hoffset : 0 ≤ offset ∧ offset < 2 ^ 32)
    (hunread : ¬ s.engine.Reads query) :
    let call : Call := .getSearch query library limit offset
    (call.handled s).2.status = 500 ∧ ∃ error,
      call.answer (call.handled s).2 = .results (.error error) := by
  intro call
  obtain ⟨error, herror⟩ := searchHandler_unread (h.found hlibrary) hunread s.active
    (some limit.toNat) (some offset.toNat)
  have hresponse : call.handled s = (s, ⟨500, .text error.text⟩) := by
    rw [handled_getSearch_eq s query library hlimit hoffset]
    unfold search
    rw [herror]
    rfl
  rw [hresponse]
  exact ⟨rfl, _, rfl⟩

/-- A page of results, as the client gets it, or the failure of a search that cannot be read. -/
theorem Orderly.handled_getSearch (h : s.Orderly) (query : String) {library : Option String}
    (hlibrary : ∀ name ∈ library, name ∈ s.libraries.map Library.name) {limit offset : Int}
    (hlimit : 0 ≤ limit ∧ limit < 2 ^ 32) (hoffset : 0 ≤ offset ∧ offset < 2 ^ 32) :
    let call : Call := .getSearch query library limit offset
    s.world.Answered call (call.handled s).2.status ∧
      s.world.Truthful call (call.answer (call.handled s).2) := by
  intro call
  by_cases hreads : s.engine.Reads query
  · obtain ⟨page, -, hstatus, hpage, hanswer⟩ :=
      h.handled_getSearch_ok query hlibrary hlimit hoffset hreads
    rw [hanswer]
    exact ⟨Or.inl ⟨hstatus, not_not.mpr hreads⟩, .results hpage⟩
  · obtain ⟨hstatus, error, hanswer⟩ :=
      h.handled_getSearch_unread hlibrary hlimit hoffset hreads
    rw [hanswer]
    exact ⟨Or.inr ⟨hstatus, hreads⟩, .noResults error hreads⟩

/-- The listing of a directory, as the client gets it. -/
theorem Orderly.handled_getBrowse (h : s.Orderly) {library : Library} (hmem : library ∈ s.libraries)
    {root rel : Path} (hroot : s.tree.canonicalize library.path = some root)
    (hdir : s.tree.node (root ++ rel) = some .dir) :
    let call : Call := .getBrowse library.name rel.relText
    (call.handled s).2.status = 200 ∧ call.answer (call.handled s).2 =
      .listing (.ok (DirListing.counterpart
        ⟨library.name, rel.relText, listing s.index library rel.relText s.active⟩)) := by
  intro call
  have hrequested : requestedLibrary s.libraries ⟨some library.name, rel.relText⟩ =
      some library :=
    h.findLibrary hmem
  have hanswer : browseHandler s.tree s.libraries s.active s.index
      ⟨some library.name, rel.relText⟩ =
      .ok ⟨library.name, rel.relText, listing s.index library rel.relText s.active⟩ :=
    browseHandler_relText hrequested hroot hdir
  have hresponse : (call.handled s).2 = ⟨200, .json (DirListing.toJson
      ⟨library.name, rel.relText, listing s.index library rel.relText s.active⟩)⟩ := by
    show s.browse ⟨some library.name, rel.relText⟩ = _
    unfold browse
    rw [hanswer]
    rfl
  rw [hresponse]
  exact ⟨rfl, congrArg Answer.listing
    (expectJson_ok (decode_dirListing fun entry hentry => h.exact_entry hentry))⟩

/-- The item of a row, as the client gets it. -/
theorem Orderly.handled_getItem (h : s.Orderly) {r : Row} (hr : r ∈ s.index.videos) {p : Path}
    (hpath : r.record.relPath = p.relText) :
    let call : Call := .getItem r.record.library r.record.relPath
    (call.handled s).2.status = 200 ∧ call.answer (call.handled s).2 =
      .item (.ok (VideoItem.fromRecord s.active (s.index.recordFromRow r)).counterpart) := by
  intro call
  obtain ⟨library, -, -, hfound⟩ := h.exists_library (h.configured r hr)
  have hanswer : itemHandler s.libraries s.active s.index ⟨r.record.library, r.record.relPath⟩ =
      .ok (VideoItem.fromRecord s.active (s.index.recordFromRow r)) := by
    refine itemHandler_of_row hr (Option.isSome_iff_exists.mpr ⟨library, hfound⟩) ?_
    rw [hpath]
    exact Path.head?_relText _
  have hresponse : (call.handled s).2 = ⟨200, .json
      (VideoItem.toJson (VideoItem.fromRecord s.active (s.index.recordFromRow r)))⟩ := by
    show s.item ⟨r.record.library, r.record.relPath⟩ = _
    unfold ServerState.item
    rw [hanswer]
    rfl
  rw [hresponse]
  exact ⟨rfl, congrArg Answer.item (expectJson_ok (decode_videoItem (h.integers r hr)))⟩

/-- A pick of a title of the set is recorded. -/
theorem Orderly.setMain_eq (h : s.Orderly) {r : Row} (hr : r ∈ s.index.videos) {discSet : String}
    (hset : r.record.discSet = some discSet) :
    s.setMain ⟨r.record.library, discSet, r.record.relPath⟩ =
      ({ s with index := s.index.setMainTitle r.record.library discSet r.record.relPath },
        ⟨200, .json (SetMainTitleResponse.toJson
          ⟨r.record.library, discSet, r.record.relPath⟩)⟩) := by
  have hfound : s.index.video r.record.library r.record.relPath =
      some (s.index.recordFromRow r) := by
    unfold Index.video
    rw [show s.index.videos.find? (r.record.library, r.record.relPath) = some r from
      Lib.Table.find?_key hr]
    rfl
  obtain ⟨library, -, -, hlibrary⟩ := h.exists_library (h.configured r hr)
  have hpicked : setMainHandler s.libraries
      ⟨r.record.library, discSet, r.record.relPath⟩ s.index =
      .ok (s.index.setMainTitle r.record.library discSet r.record.relPath,
        ⟨r.record.library, discSet, r.record.relPath⟩) := by
    unfold setMainHandler
    dsimp only
    rw [hlibrary, hfound]
    exact if_neg (not_not.mpr hset)
  unfold setMain
  rw [hpicked]

/-- A pick of a title of the set is accepted. -/
theorem Orderly.handled_postMainTitle (h : s.Orderly) {r : Row} (hr : r ∈ s.index.videos)
    {discSet : String} (hset : r.record.discSet = some discSet) :
    let call : Call := .postMainTitle r.record.library discSet r.record.relPath
    (call.handled s).2.status = 200 ∧ call.answer (call.handled s).2 = .mainTitle (.ok ()) := by
  intro call
  have hresponse : (call.handled s).2 = ⟨200, .json (SetMainTitleResponse.toJson
      ⟨r.record.library, discSet, r.record.relPath⟩)⟩ := congrArg Prod.snd (h.setMain_eq hr hset)
  rw [hresponse]
  exact ⟨rfl, rfl⟩

/-! ## A sound server -/

theorem Sound.directory_root (h : s.Sound) {name : String}
    (hname : name ∈ s.libraries.map Library.name) : s.Directory name "" := by
  obtain ⟨library, hmem, rfl⟩ := List.mem_map.mp hname
  obtain ⟨root, hroot, hdir, -⟩ := h.trees library hmem
  exact ⟨library, hmem, rfl, root, [], hroot, by rwa [List.append_nil], rfl⟩

/-- What is above a directory is there. -/
theorem Directory.above {name : String} {rel above : Path} (h : s.Directory name rel.relText)
    (habove : above <+: rel) : s.Directory name above.relText := by
  obtain ⟨library, hmem, rfl, root, rel', hroot, hdir, hrel⟩ := h
  obtain rfl := Path.relText_inj.mp hrel
  have hpre : root ++ above <+: root ++ rel := (List.prefix_append_right_inj root).mpr habove
  refine ⟨library, hmem, rfl, root, above, hroot, ?_, rfl⟩
  rcases Lib.PathTree.node_of_prefix hpre hdir with habove | ⟨-, habove⟩
  · exact habove
  · exact habove

theorem Sound.coherent (h : s.Sound) : s.world.Coherent where
  name_ne name hname := h.name_ne (s.names_world ▸ hname)
  root name hname := h.directory_root (s.names_world ▸ hname)
  directory := by
    rintro name path ⟨library, hmem, rfl, root, rel, hroot, hdir, rfl⟩
    refine ⟨?_, rel, rfl, fun above => Directory.above ⟨library, hmem, rfl, root, rel, hroot,
      hdir, rfl⟩⟩
    rw [names_world]
    exact List.mem_map_of_mem hmem
  item := by
    intro item hitem
    obtain ⟨-, hpath⟩ := h.path_of_has hitem
    exact hpath

/-- The answer to a call for something that is there. -/
theorem Sound.truthful_answer (h : s.Sound) {call : Call} (hcall : s.world.Serves call) :
    s.world.Answered call (call.handled s).2.status ∧
      s.world.Truthful call (call.answer (call.handled s).2) := by
  cases call with
  | getLibraries =>
    obtain ⟨hstatus, hanswer⟩ := handled_getLibraries s
    rw [hanswer]
    exact ⟨Or.inl ⟨hstatus, id⟩, .libraries⟩
  | getBrowse name path =>
    obtain ⟨library, hmem, rfl, root, rel, hroot, hdir, rfl⟩ := hcall
    obtain ⟨hstatus, hanswer⟩ := h.handled_getBrowse hmem hroot hdir
    have hshown : s.world.HasListing (DirListing.counterpart
        ⟨library.name, rel.relText, listing s.index library rel.relText s.active⟩) := by
      refine ⟨⟨library, hmem, rfl, root, rel, hroot, hdir, rfl⟩, fun entry hentry => ?_⟩
      obtain ⟨shown, hshown, rfl⟩ := List.mem_map.mp hentry
      exact hasEntry_listing (fun _ => id)
        (fun name hname => h.directory_of_subdirectory hmem hname) hshown
    rw [hanswer]
    exact ⟨Or.inl ⟨hstatus, id⟩, .listing hshown⟩
  | getItem name path =>
    obtain ⟨item, hitem, rfl, rfl⟩ := hcall
    obtain ⟨-, dir, video, hpath, -⟩ := h.path_of_has hitem
    obtain ⟨r, hr, rfl⟩ := hitem
    obtain ⟨hstatus, hanswer⟩ := h.handled_getItem hr hpath
    have hhas : s.world.Has (VideoItem.fromRecord s.active (s.index.recordFromRow r)).counterpart :=
      ⟨r, hr, rfl⟩
    have htruthful := World.Truthful.item hhas
    rw [← hanswer] at htruthful
    exact ⟨Or.inl ⟨hstatus, id⟩, htruthful⟩
  | getSearch query library limit offset =>
    obtain ⟨hlibrary, hlimit, hoffset⟩ := hcall
    exact h.handled_getSearch query (fun name hname => s.names_world ▸ hlibrary name hname)
      hlimit hoffset
  | postMainTitle name discSet path =>
    obtain ⟨item, ⟨r, hr, rfl⟩, rfl, rfl, hset⟩ := hcall
    obtain ⟨hstatus, hanswer⟩ := h.handled_postMainTitle hr hset
    have htruthful : s.world.Truthful
      (.postMainTitle r.record.library discSet r.record.relPath) (.mainTitle (.ok ())) := .mainTitle
    rw [← hanswer] at htruthful
    exact ⟨Or.inl ⟨hstatus, id⟩, htruthful⟩

end

end ServerState

end Loku
