import Loku.Index.Collect
import Loku.Routes.Browse
import Mathlib.Data.List.TakeWhile

/-!
# Navigating a library

A client reaches a directory by following directory entries from the root listing, one
component at a time (`Followed`). Where the parents of the rows are slash-joined components, as
the scanner writes them, every row is reached under the components of its parent, and the
entries of a directory are exactly the components that continue its path in some parent, compared
letter by letter (`mem_subdirectories_joined`). The main result is `navigation_complete`.
-/

namespace Loku

/-- A component of a stored parent. -/
def IsComponent (c : String) : Prop := c ≠ "" ∧ '/' ∉ c.toList

instance (c : String) : Decidable (IsComponent c) := inferInstanceAs (Decidable (_ ∧ _))

/-- The text of a list of components, empty for the root. -/
def joined (comps : List String) : String := "/".intercalate comps

/-- Every parent is slash-joined components. -/
def ParentsJoined (index : Index) : Prop :=
  ∀ r ∈ index.videos, ∃ comps : List String,
    (∀ c ∈ comps, IsComponent c) ∧ r.record.parent = joined comps

/-- Following directory entries by name leads from one directory path to another. -/
inductive Followed (index : Index) (library : Library) (active : Option ActiveDerivation) :
    String → List String → String → Prop
  | here (path : String) : Followed index library active path [] path
  | into {path target : String} {dir : DirEntry} {names : List String}
      (entry : Entry.directory dir ∈ listing index library path active)
      (rest : Followed index library active dir.path names target) :
      Followed index library active path (dir.name :: names) target

/-! ## Joined components -/

@[simp]
theorem joined_nil : joined [] = "" := rfl

@[simp]
theorem joined_singleton (c : String) : joined [c] = c := String.intercalate_singleton

theorem joined_cons {c : String} {comps : List String} (h : comps ≠ []) :
    joined (c :: comps) = c ++ "/" ++ joined comps := by
  have happ := String.intercalate_append_of_ne_nil (s := "/") (List.cons_ne_nil c []) h
  rw [String.intercalate_singleton] at happ
  exact happ

theorem joined_append {comps rest : List String} (hcomps : comps ≠ []) (hrest : rest ≠ []) :
    joined (comps ++ rest) = joined comps ++ "/" ++ joined rest :=
  String.intercalate_append_of_ne_nil hcomps hrest

theorem joined_eq_empty {comps : List String} (h : ∀ c ∈ comps, IsComponent c)
    (hempty : joined comps = "") : comps = [] := by
  cases comps with
  | nil => rfl
  | cons c comps =>
    have hc := (h c List.mem_cons_self).1
    cases comps with
    | nil => exact absurd (by simpa using hempty) hc
    | cons d comps =>
      rw [joined_cons (List.cons_ne_nil d comps)] at hempty
      have hlen := congrArg (fun s => s.toList.length) hempty
      simp [String.toList_append] at hlen

/-- The prefix of a directory's children, before the components that follow it. -/
theorem toList_joined_append {comps rest : List String} (h : ∀ c ∈ comps, IsComponent c)
    (hrest : rest ≠ []) :
    (joined (comps ++ rest)).toList =
      (browsePrefix (joined comps)).toList ++ (joined rest).toList := by
  cases comps with
  | nil => rfl
  | cons c comps =>
    have hne : joined (c :: comps) ≠ "" := fun hempty =>
      List.cons_ne_nil c comps (joined_eq_empty h hempty)
    unfold browsePrefix
    rw [if_neg hne, joined_append (List.cons_ne_nil c comps) hrest, String.toList_append]

theorem firstComponent_joined {c : String} (hc : IsComponent c) (rest : List String) :
    firstComponent (joined (c :: rest)).toList = c := by
  have hall : ∀ x ∈ c.toList, (x != '/') = true := by
    intro x hx
    rw [bne_iff_ne]
    rintro rfl
    exact hc.2 hx
  unfold firstComponent
  cases rest with
  | nil => rw [joined_singleton, List.takeWhile_eq_self_iff.mpr hall, String.ofList_toList]
  | cons d rest =>
    rw [joined_cons (List.cons_ne_nil d rest), String.toList_append, String.toList_append,
      List.append_assoc, List.takeWhile_append_of_pos hall]
    simp

/-- The first component of a joined text that begins with one. -/
theorem eq_cons_of_joined {c : String} {rest : List Char} {comps : List String}
    (hc : '/' ∉ c.toList) (h : ∀ d ∈ comps, IsComponent d)
    (htext : (joined comps).toList = c.toList ++ '/' :: rest) :
    ∃ tail, comps = c :: tail ∧ (joined tail).toList = rest := by
  cases comps with
  | nil => simp at htext
  | cons d comps =>
    have hd := (h d List.mem_cons_self).2
    cases comps with
    | nil =>
      rw [joined_singleton] at htext
      rw [htext] at hd
      simp at hd
    | cons e comps =>
      rw [joined_cons (List.cons_ne_nil e comps), String.toList_append, String.toList_append,
        List.append_assoc] at htext
      have htext' : d.toList ++ '/' :: (joined (e :: comps)).toList = c.toList ++ '/' :: rest :=
        htext
      -- both texts are cut at their first slash
      have hfirst := congrArg (List.takeWhile (· != '/')) htext'
      have hall : ∀ s : String, '/' ∉ s.toList → ∀ x ∈ s.toList, (x != '/') = true := by
        intro s hs x hx
        rw [bne_iff_ne]
        rintro rfl
        exact hs hx
      rw [List.takeWhile_append_of_pos (hall d hd), List.takeWhile_append_of_pos (hall c hc)]
        at hfirst
      have hdc : d = c := String.toList_inj.mp (by simpa using hfirst)
      subst hdc
      rw [List.append_cancel_left_eq, List.cons.injEq] at htext'
      exact ⟨e :: comps, rfl, htext'.2⟩

theorem append_of_joined {comps rest : List String} {tail : List Char}
    (hcomps : ∀ c ∈ comps, IsComponent c) (hrest : ∀ c ∈ rest, IsComponent c)
    (htext : (joined rest).toList = (browsePrefix (joined comps)).toList ++ tail) :
    ∃ last, rest = comps ++ last ∧ (joined last).toList = tail := by
  induction comps generalizing rest with
  | nil => exact ⟨rest, rfl, by simpa [browsePrefix] using htext⟩
  | cons c comps ih =>
    have hc := (hcomps c List.mem_cons_self).2
    have hcomps' := fun d hd => hcomps d (List.mem_cons_of_mem c hd)
    have hpre : (browsePrefix (joined (c :: comps))).toList =
        c.toList ++ '/' :: (browsePrefix (joined comps)).toList := by
      have hne : joined (c :: comps) ≠ "" := fun hempty =>
        List.cons_ne_nil c comps (joined_eq_empty hcomps hempty)
      unfold browsePrefix
      rw [if_neg hne]
      cases comps with
      | nil => simp
      | cons d comps =>
        have hne' : joined (d :: comps) ≠ "" := fun hempty =>
          List.cons_ne_nil d comps (joined_eq_empty hcomps' hempty)
        rw [if_neg hne', joined_cons (List.cons_ne_nil d comps)]
        simp
    rw [hpre, List.append_assoc, List.cons_append] at htext
    obtain ⟨more, rfl, hmore⟩ := eq_cons_of_joined hc hrest htext
    obtain ⟨last, rfl, hlast⟩ :=
      ih hcomps' (fun d hd => hrest d (List.mem_cons_of_mem c hd)) hmore
    exact ⟨last, rfl, hlast⟩

/-! ## Directory entries -/

theorem childRelPath_eq (path name : String) :
    childRelPath path name = browsePrefix path ++ name := by
  unfold childRelPath browsePrefix
  split
  · exact (String.empty_append).symm
  · rfl

/-- Whatever the browsed text, a row lies at or beneath the child that an entry names. -/
theorem row_of_mem_subdirectories {index : Index} {library path name : String}
    (h : name ∈ (index.browseDirectory library path).subdirectories) :
    ∃ r ∈ index.videos, r.record.library = library ∧
      (r.record.parent = childRelPath path name ∨
        ∃ below, r.record.parent = childRelPath path name ++ "/" ++ below) := by
  obtain ⟨r, hr, hlib, -, rest, happ, hname⟩ := Index.mem_subdirectories.mp h
  refine ⟨r, hr, hlib, ?_⟩
  have hsplit := List.takeWhile_append_dropWhile (p := (· != '/')) (l := rest)
  have hfirst : rest.takeWhile (· != '/') = name.toList := by
    rw [← hname, firstComponent, String.toList_ofList]
  rw [hfirst] at hsplit
  rw [childRelPath_eq]
  cases hdrop : rest.dropWhile (· != '/') with
  | nil =>
    left
    rw [hdrop, List.append_nil] at hsplit
    apply String.toList_inj.mp
    rw [happ, ← hsplit, String.toList_append]
  | cons x below =>
    right
    have hx : x = '/' := by
      have hhead := List.head?_dropWhile_not (fun c : Char => c != '/') rest
      rw [hdrop] at hhead
      simpa using hhead
    rw [hdrop, hx] at hsplit
    refine ⟨String.ofList below, ?_⟩
    apply String.toList_inj.mp
    rw [happ, ← hsplit]
    simp [String.toList_append]

/-- The entries of a directory are the components that continue its path in some parent. -/
theorem mem_subdirectories_joined {index : Index} (hparents : ParentsJoined index)
    {library name : String} {comps : List String} (hcomps : ∀ c ∈ comps, IsComponent c) :
    name ∈ (index.browseDirectory library (joined comps)).subdirectories ↔
      ∃ r ∈ index.videos, r.record.library = library ∧
        ∃ rest, (∀ c ∈ name :: rest, IsComponent c) ∧
          r.record.parent = joined (comps ++ name :: rest) := by
  rw [Index.mem_subdirectories]
  constructor
  · rintro ⟨r, hr, hlib, hne, tail, happ, hname⟩
    obtain ⟨all, hall, hparent⟩ := hparents r hr
    rw [hparent] at happ
    obtain ⟨last, rfl, hlast⟩ := append_of_joined hcomps hall happ
    have hlastComps : ∀ c ∈ last, IsComponent c := fun c hc =>
      hall c (List.mem_append_right _ hc)
    cases last with
    | nil =>
      -- nothing follows the directory: its text would end with a slash
      rw [List.append_nil] at happ hparent
      cases comps with
      | nil => exact absurd hparent hne
      | cons c comps =>
        have hne' : joined (c :: comps) ≠ "" := hparent ▸ hne
        have hlen := congrArg List.length happ
        unfold browsePrefix at hlen
        rw [if_neg hne'] at hlen
        simp [String.toList_append] at hlen
    | cons c rest =>
      rw [← hlast, firstComponent_joined (hlastComps c List.mem_cons_self)] at hname
      subst hname
      exact ⟨r, hr, hlib, rest, hlastComps, hparent⟩
  · rintro ⟨r, hr, hlib, rest, hrest, hparent⟩
    have htext := toList_joined_append hcomps (List.cons_ne_nil name rest)
    refine ⟨r, hr, hlib, ?_, _, hparent ▸ htext,
      firstComponent_joined (hrest name List.mem_cons_self) rest⟩
    intro hempty
    have hall : ∀ c ∈ comps ++ name :: rest, IsComponent c := by
      intro c hc
      rcases List.mem_append.mp hc with hc | hc
      · exact hcomps c hc
      · exact hrest c hc
    have hnil := joined_eq_empty hall (hparent.symm.trans hempty)
    simp at hnil

theorem childRelPath_joined {comps : List String} {name : String}
    (hcomps : ∀ c ∈ comps, IsComponent c) :
    childRelPath (joined comps) name = joined (comps ++ [name]) := by
  apply String.toList_inj.mp
  rw [toList_joined_append hcomps (List.cons_ne_nil name []), childRelPath_eq,
    String.toList_append, joined_singleton]

/-- The directories on the way to a row, one component after the other. -/
theorem followed_of_row {index : Index} (hparents : ParentsJoined index) {library : Library}
    (active : Option ActiveDerivation) {r : Row} (hr : r ∈ index.videos)
    (hlib : r.record.library = library.name) :
    ∀ (rest comps : List String), (∀ c ∈ comps, IsComponent c) → (∀ c ∈ rest, IsComponent c) →
      r.record.parent = joined (comps ++ rest) →
      Followed index library active (joined comps) rest r.record.parent
  | [], comps, _, _, hparent => by
    rw [hparent, List.append_nil]
    exact .here _
  | name :: rest, comps, hcomps, hrest, hparent => by
    have hname : name ∈ (index.browseDirectory library.name (joined comps)).subdirectories :=
      (mem_subdirectories_joined hparents hcomps).mpr ⟨r, hr, hlib, rest, hrest, hparent⟩
    have hcomps' : ∀ c ∈ comps ++ [name], IsComponent c := by
      intro c hc
      rcases List.mem_append.mp hc with hc | hc
      · exact hcomps c hc
      · exact hrest c (List.mem_singleton.mp hc ▸ List.mem_cons_self)
    have hnext := followed_of_row hparents active hr hlib rest (comps ++ [name]) hcomps'
      (fun c hc => hrest c (List.mem_cons_of_mem name hc)) (by simpa using hparent)
    rw [← childRelPath_joined hcomps] at hnext
    have hentry : Entry.directory ⟨name, childRelPath (joined comps) name⟩ ∈
        listing index library (joined comps) active := mem_listing_directory.mpr ⟨hname, rfl⟩
    exact .into hentry hnext

/-- A row is shown once in the listing of its parent. -/
theorem item_once {index : Index} {library : Library} (active : Option ActiveDerivation) {r : Row}
    (hr : r ∈ index.videos) (hlib : r.record.library = library.name) :
    ((listing index library r.record.parent active).flatMap Entry.items).filter
        (fun item => item.path == r.record.relPath) =
      [VideoItem.fromRecord active (index.recordFromRow r)] := by
  have hperm := (items_listing index library r.record.parent active).filter
    fun item => item.path == r.record.relPath
  have hmem : index.recordFromRow r ∈
      (index.browseDirectory library.name r.record.parent).videos :=
    Index.mem_browse_videos.mpr ⟨r, hr, hlib, rfl, rfl⟩
  have hnodup := Index.browse_videos_nodup index library.name r.record.parent
  generalize (index.browseDirectory library.name r.record.parent).videos = videos at *
  have hone : ∀ records : List VideoRecord, (records.map VideoRecord.relPath).Nodup →
      index.recordFromRow r ∈ records →
      (records.map (VideoItem.fromRecord active)).filter
        (fun item => item.path == r.record.relPath) =
        [VideoItem.fromRecord active (index.recordFromRow r)] := by
    intro records hrecords hin
    obtain ⟨before, after, rfl⟩ := List.append_of_mem hin
    rw [List.map_append, List.map_cons, List.nodup_middle, List.nodup_cons] at hrecords
    have hothers : ∀ l : List VideoRecord, (∀ x ∈ l, x ∈ before ++ after) →
        (l.map (VideoItem.fromRecord active)).filter
          (fun item => item.path == r.record.relPath) = [] := by
      intro l hl
      rw [List.filter_eq_nil_iff]
      intro item hitem
      obtain ⟨x, hx, rfl⟩ := List.mem_map.mp hitem
      rw [beq_iff_eq]
      intro heq
      apply hrecords.1
      rw [← List.map_append]
      have hx' := List.mem_map_of_mem (f := VideoRecord.relPath) (hl x hx)
      rwa [show x.relPath = r.record.relPath from heq] at hx'
    rw [List.map_append, List.map_cons, List.filter_append, List.filter_cons_of_pos,
      hothers before fun x hx => List.mem_append_left _ hx,
      hothers after fun x hx => List.mem_append_right _ hx, List.nil_append]
    exact beq_self_eq_true _
  rw [hone videos hnodup hmem] at hperm
  exact List.perm_singleton.mp hperm

/-- The names of a listing's directory entries. -/
def directoryNames (entries : List Entry) : List String :=
  entries.filterMap fun
    | .directory dir => some dir.name
    | _ => none

theorem directoryNames_listing (index : Index) (library : Library) (path : String)
    (active : Option ActiveDerivation) :
    directoryNames (listing index library path active) =
      (index.browseDirectory library.name path).subdirectories := by
  have hdirectories : ∀ names : List String,
      directoryNames (directoryEntries path names) = names := by
    intro names
    unfold directoryNames directoryEntries
    rw [List.filterMap_map]
    exact List.filterMap_some ..
  unfold listing assembleEntries directoryNames
  rw [List.filterMap_append]
  refine (congrArg₂ (· ++ ·) (hdirectories _) ?_).trans (List.append_nil _)
  rw [List.filterMap_eq_nil_iff]
  intro e he
  cases e with
  | directory dir =>
    -- the items are no directories
    have hmem : Entry.directory dir ∈ unsortedItems library _ active :=
      (List.mem_insertionSort _).mp he
    simp only [unsortedItems, List.mem_append, List.mem_filterMap, List.mem_map, reduceCtorEq,
      and_false, exists_false, or_false] at hmem
    obtain ⟨s, -, hentry⟩ := hmem
    obtain ⟨main, -, heq⟩ := Option.map_eq_some_iff.mp hentry
    cases heq
  | video item => rfl
  | discSet set => rfl

/-- The records the scanner collects below a root have joined parents. -/
theorem parent_joined_of_collect {decoders : Decoders} {t : FileTree} {library : Library}
    {root dir : Path} (hdir : root <+: dir) {record : VideoRecord}
    (h : record ∈ collectDirectory decoders t library root dir) :
    ∃ comps : List String, (∀ c ∈ comps, IsComponent c) ∧ record.parent = joined comps := by
  obtain ⟨rel, rfl⟩ := hdir
  obtain ⟨video, -, hbuild⟩ := mem_collectDirectory.mp h
  refine ⟨rel.map FileName.text, ?_, ?_⟩
  · intro c hc
    obtain ⟨n, -, rfl⟩ := List.mem_map.mp hc
    exact ⟨n.valid.1, n.slash_not_mem⟩
  · rw [(buildRecord_columns hbuild).2.1, relativeOf_append]
    rfl

/-- Browse navigation reaches every row, and no entry leads nowhere. -/
theorem navigation_complete {index : Index} (hparents : ParentsJoined index) (library : Library)
    (active : Option ActiveDerivation) :
    (∀ r ∈ index.videos, r.record.library = library.name →
      (∃ comps : List String, (∀ c ∈ comps, IsComponent c) ∧ r.record.parent = joined comps ∧
        Followed index library active "" comps r.record.parent) ∧
      ((listing index library r.record.parent active).flatMap Entry.items).filter
        (fun item => item.path == r.record.relPath) =
          [VideoItem.fromRecord active (index.recordFromRow r)]) ∧
    (∀ path dir, Entry.directory dir ∈ listing index library path active →
      ∃ r ∈ index.videos, r.record.library = library.name ∧
        (r.record.parent = dir.path ∨ ∃ below, r.record.parent = dir.path ++ "/" ++ below)) ∧
    (∀ path, (directoryNames (listing index library path active)).Pairwise (· < ·)) ∧
    (∀ comps : List String, (∀ c ∈ comps, IsComponent c) → ∀ dir,
      Entry.directory dir ∈ listing index library (joined comps) active ↔
        dir.path = joined (comps ++ [dir.name]) ∧
          ∃ r ∈ index.videos, r.record.library = library.name ∧
            ∃ rest, (∀ c ∈ dir.name :: rest, IsComponent c) ∧
              r.record.parent = joined (comps ++ dir.name :: rest)) := by
  refine ⟨?_, ?_, ?_, ?_⟩
  · intro r hr hlib
    obtain ⟨comps, hcomps, hparent⟩ := hparents r hr
    have hfollowed := followed_of_row hparents active hr hlib comps [] (by simp) hcomps hparent
    exact ⟨⟨comps, hcomps, hparent, hfollowed⟩, item_once active hr hlib⟩
  · intro path dir hdir
    obtain ⟨hname, hpath⟩ := mem_listing_directory.mp hdir
    rw [hpath]
    exact row_of_mem_subdirectories hname
  · intro path
    rw [directoryNames_listing]
    exact Index.subdirectories_ascending index library.name path
  · intro comps hcomps dir
    rw [mem_listing_directory, mem_subdirectories_joined hparents hcomps,
      childRelPath_joined hcomps, and_comm]

/-! ## A library with a directory named by wildcards -/

namespace Wildcards

def row : Row := ⟨1, .placed "movies" "50%/Part_1/Movie.mkv" "50%/Part_1" "Movie.mkv" 3 5, 1⟩

def index : Index := ⟨⟨[row], by decide⟩, .empty, .empty, .empty, none⟩

def library : Library := ⟨"movies", [], .downloads⟩

theorem parentsJoined_index : ParentsJoined index := by
  intro r hr
  obtain rfl : r = row := List.mem_singleton.mp hr
  exact ⟨["50%", "Part_1"], by decide, by decide⟩

theorem navigation_complete_wildcards :
    (∃ comps : List String, (∀ c ∈ comps, IsComponent c) ∧ row.record.parent = joined comps ∧
        Followed index library none "" comps row.record.parent) ∧
      ((listing index library row.record.parent none).flatMap Entry.items).filter
        (fun item => item.path == row.record.relPath) =
          [VideoItem.fromRecord none (index.recordFromRow row)] :=
  (navigation_complete parentsJoined_index library none).1 row (by decide) (by decide)

end Wildcards

end Loku
