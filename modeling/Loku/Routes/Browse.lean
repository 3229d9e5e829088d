import Loku.Disc
import Loku.Index.Browse
import Loku.Routes.Types

/-!
# The browse listing

`assembleEntries` turns the index's answer for one directory into entries: the subdirectories,
then the videos and the disc sets together by their sort names. Only a library of discs groups
its titles, and a set of one title stays a video. `listing` is the listing of a directory of a
library.

A listing shows every video of the directory exactly once, as a plain video or as a title of a
set (`items_listing`), and one disc set for each prefix with two or more titles
(`filter_isSet_listing`).
-/

namespace Loku

structure DirEntry where
  name : String
  path : String
deriving DecidableEq

structure DiscSetEntry where
  discSet : String
  displayTitle : String
  main : VideoItem
  titles : List VideoItem
deriving DecidableEq

inductive Entry
  | directory (dir : DirEntry)
  | video (item : VideoItem)
  | discSet (set : DiscSetEntry)
deriving DecidableEq

structure DirListing where
  library : String
  path : String
  entries : List Entry
deriving DecidableEq

/-- The name listings sort by. -/
def Entry.sortName : Entry → String
  | .directory dir => dir.name
  | .video item => item.name
  | .discSet set => set.displayTitle

/-- The videos an entry stands for. -/
def Entry.items : Entry → List VideoItem
  | .directory _ => []
  | .video item => [item]
  | .discSet set => set.titles

/-- The path of a child under a directory path. -/
def childRelPath (relPath name : String) : String :=
  if relPath = "" then name else relPath ++ "/" ++ name

def directoryEntries (relPath : String) (subdirectories : List String) : List Entry :=
  subdirectories.map fun name => .directory { name := name, path := childRelPath relPath name }

/-! ## Disc sets -/

/-- The set a record is grouped under. -/
def groupKey (kind : LibraryKind) (record : VideoRecord) : Option String :=
  match kind with
  | .discs => record.discSet
  | .downloads => none

/-- The disc-set groups by their prefix, and the standalone videos. -/
def discSetGroups (kind : LibraryKind) (videos : List VideoRecord) :
    List (String × List VideoRecord) × List VideoRecord :=
  Lib.groupBy (groupKey kind) videos

/-- `None` before every index. -/
def titleIndexLt : Option Int → Option Int → Prop
  | none, some _ => True
  | some i, some j => i < j
  | _, none => False

instance : DecidableRel titleIndexLt
  | none, none => inferInstanceAs (Decidable False)
  | none, some _ => inferInstanceAs (Decidable True)
  | some _, none => inferInstanceAs (Decidable False)
  | some i, some j => inferInstanceAs (Decidable (i < j))

/-- Disc order: by `(disc_title_index, rel_path)`. -/
def discOrder (r r' : VideoRecord) : Prop :=
  titleIndexLt r.discTitleIndex r'.discTitleIndex ∨
    (r.discTitleIndex = r'.discTitleIndex ∧ r.relPath ≤ r'.relPath)

instance : DecidableRel discOrder := fun _ _ => inferInstanceAs (Decidable (_ ∨ (_ ∧ _)))

/-- `max_by_key(|record| record.size)`: the last of the largest. -/
def largest (records : List VideoRecord) : Option VideoRecord :=
  records.foldl (fun best r =>
    match best with
    | none => some r
    | some b => if b.size ≤ r.size then some r else some b) none

/-- The path of the main title: the pick, else the largest file. -/
def mainRel (setName : String) (records : List VideoRecord) (overrides : List (String × String)) :
    String :=
  ((overrides.lookup setName).or ((largest records).map VideoRecord.relPath)).getD ""

/-- The titles of a set in disc order. -/
def discTitles (records : List VideoRecord) (active : Option ActiveDerivation) : List VideoItem :=
  (records.insertionSort discOrder).map (VideoItem.fromRecord active)

/-- The title shown as the main one: that of the path, or the first. -/
def mainTitle (titles : List VideoItem) (path : String) : Option VideoItem :=
  (titles.find? fun item => item.path == path).or titles.head?

/-- One entry for a set of titles. -/
def discSetEntry (setName : String) (records : List VideoRecord)
    (overrides : List (String × String)) (active : Option ActiveDerivation) : Option Entry :=
  (mainTitle (discTitles records active) (mainRel setName records overrides)).map fun main =>
    .discSet
      { discSet := setName
        displayTitle := main.title.getD (displayTitle setName)
        main := main
        titles := discTitles records active }

/-! ## Assembly -/

/-- The sets with several titles, then the standalone videos and the single titles. -/
def unsortedItems (library : Library) (data : BrowseData) (active : Option ActiveDerivation) :
    List Entry :=
  let groups := discSetGroups library.kind data.videos
  let parts := groups.1.partition fun s => 1 < s.2.length
  parts.1.filterMap (fun s => discSetEntry s.1 s.2 data.overrides active) ++
    (groups.2 ++ parts.2.flatMap Prod.snd).map fun record =>
      .video (VideoItem.fromRecord active record)

def assembleEntries (library : Library) (relPath : String) (data : BrowseData)
    (active : Option ActiveDerivation) : List Entry :=
  directoryEntries relPath data.subdirectories ++
    (unsortedItems library data active).insertionSort fun e e' => e.sortName ≤ e'.sortName

/-- The entries listed for a directory of a library. -/
def listing (index : Index) (library : Library) (relPath : String)
    (active : Option ActiveDerivation) : List Entry :=
  assembleEntries library relPath (index.browseDirectory library.name relPath) active

/-! ## What a listing shows -/

section Assembly
variable {library : Library} {data : BrowseData} {active : Option ActiveDerivation}

theorem discTitles_perm (records : List VideoRecord) (active : Option ActiveDerivation) :
    (discTitles records active).Perm (records.map (VideoItem.fromRecord active)) :=
  (List.perm_insertionSort discOrder records).map _

theorem mainTitle_isSome {titles : List VideoItem} (h : titles ≠ []) (path : String) :
    ∃ main, mainTitle titles path = some main ∧ main ∈ titles := by
  unfold mainTitle
  cases hfind : titles.find? fun item => item.path == path with
  | some main => exact ⟨main, rfl, List.mem_of_find?_eq_some hfind⟩
  | none =>
    obtain ⟨first, rest, rfl⟩ := List.exists_cons_of_ne_nil h
    exact ⟨first, rfl, List.mem_cons_self⟩

/-- A group with titles has an entry, which shows all of them. -/
theorem discSetEntry_isSome (setName : String) {records : List VideoRecord} (h : records ≠ [])
    (overrides : List (String × String)) (active : Option ActiveDerivation) :
    ∃ set, discSetEntry setName records overrides active = some (.discSet set) ∧
      set.discSet = setName ∧ set.titles = discTitles records active ∧
      mainTitle set.titles (mainRel setName records overrides) = some set.main := by
  have hne : discTitles records active ≠ [] := by
    intro hnil
    have hlen := (discTitles_perm records active).length_eq
    rw [hnil, List.length_map, List.length_nil] at hlen
    exact h (List.length_eq_zero_iff.mp hlen.symm)
  obtain ⟨main, hmain, -⟩ := mainTitle_isSome hne (mainRel setName records overrides)
  refine ⟨⟨setName, main.title.getD (displayTitle setName), main, discTitles records active⟩, ?_,
    rfl, rfl, hmain⟩
  unfold discSetEntry
  rw [hmain]
  rfl

theorem flatMap_items_discSets (overrides : List (String × String))
    (active : Option ActiveDerivation) (sets : List (String × List VideoRecord))
    (h : ∀ s ∈ sets, s.2 ≠ []) :
    ((sets.filterMap fun s => discSetEntry s.1 s.2 overrides active).flatMap Entry.items).Perm
      ((sets.flatMap Prod.snd).map (VideoItem.fromRecord active)) := by
  induction sets with
  | nil => exact List.Perm.refl _
  | cons s sets ih =>
    obtain ⟨set, hentry, -, htitles, -⟩ :=
      discSetEntry_isSome s.1 (h s List.mem_cons_self) overrides active
    have hrest := ih fun s' hs' => h s' (List.mem_cons_of_mem _ hs')
    rw [List.filterMap_cons]
    simp only [hentry, List.flatMap_cons, List.map_append]
    have hitems : (Entry.discSet set).items = discTitles s.2 active := htitles
    rw [hitems]
    exact (discTitles_perm s.2 active).append hrest

/-- Every video of the directory is shown once. -/
theorem flatMap_items_unsortedItems (library : Library) (data : BrowseData)
    (active : Option ActiveDerivation) :
    ((unsortedItems library data active).flatMap Entry.items).Perm
      (data.videos.map (VideoItem.fromRecord active)) := by
  have hgroups := Lib.groupBy_perm (groupKey library.kind) data.videos
  have hne := Lib.groupBy_ne_nil (groupKey library.kind) data.videos
  unfold unsortedItems discSetGroups
  generalize Lib.groupBy (groupKey library.kind) data.videos = groups at hgroups hne
  simp only [List.partition_eq_filter_filter, List.flatMap_append]
  have hsets := flatMap_items_discSets data.overrides active
    (groups.1.filter fun s => decide (1 < s.2.length))
    fun s hs => hne s (List.mem_filter.mp hs).1
  have hvideos : ∀ records : List VideoRecord, (records.map fun record =>
      Entry.video (VideoItem.fromRecord active record)).flatMap Entry.items =
        records.map (VideoItem.fromRecord active) := by
    intro records
    induction records with
    | nil => rfl
    | cons r records ih => rw [List.map_cons, List.flatMap_cons, ih]; rfl
  rw [hvideos]
  refine (hsets.append_right _).trans ?_
  rw [← List.map_append]
  refine List.Perm.map _ ?_
  -- the sets with several titles and the single ones are all the groups
  have hparts := (List.filter_append_perm (fun s : String × List VideoRecord =>
    decide (1 < s.2.length)) groups.1).flatMap_right Prod.snd
  rw [List.flatMap_append] at hparts
  refine .trans ?_ hgroups
  refine .trans ?_ (hparts.append_right groups.2)
  rw [List.append_assoc]
  exact List.perm_append_comm.append_left _

/-- A listing shows every video of the directory exactly once. -/
theorem items_listing (index : Index) (library : Library) (relPath : String)
    (active : Option ActiveDerivation) :
    ((listing index library relPath active).flatMap Entry.items).Perm
      ((index.browseDirectory library.name relPath).videos.map (VideoItem.fromRecord active)) := by
  have hdirectories : ∀ names : List String,
      (directoryEntries relPath names).flatMap Entry.items = [] := by
    intro names
    rw [List.flatMap_eq_nil_iff]
    intro e he
    obtain ⟨name, -, rfl⟩ := List.mem_map.mp he
    rfl
  unfold listing assembleEntries
  rw [List.flatMap_append, hdirectories, List.nil_append]
  exact ((List.perm_insertionSort _ _).flatMap_right _).trans
    (flatMap_items_unsortedItems library _ active)

theorem mem_listing_directory {index : Index} {relPath : String} {dir : DirEntry} :
    Entry.directory dir ∈ listing index library relPath active ↔
      dir.name ∈ (index.browseDirectory library.name relPath).subdirectories ∧
        dir.path = childRelPath relPath dir.name := by
  simp only [listing, assembleEntries, directoryEntries, unsortedItems, List.mem_append,
    List.mem_map, List.mem_insertionSort, List.mem_filterMap, reduceCtorEq, and_false,
    exists_false, or_false]
  constructor
  · rintro (⟨name, hname, heq⟩ | ⟨s, -, hentry⟩)
    · cases heq
      exact ⟨hname, rfl⟩
    · -- an entry of a set is not a directory
      unfold discSetEntry at hentry
      obtain ⟨main, -, heq⟩ := Option.map_eq_some_iff.mp hentry
      cases heq
  · rintro ⟨hname, hpath⟩
    exact Or.inl ⟨dir.name, hname, by rw [← hpath]⟩

/-! ## The entry of a set -/

/-- The titles that a listing groups under a prefix. -/
def setRecords (library : Library) (videos : List VideoRecord) (setName : String) :
    List VideoRecord :=
  videos.filter fun r => groupKey library.kind r = some setName

def Entry.isSet (setName : String) : Entry → Bool
  | .discSet set => set.discSet == setName
  | _ => false

theorem isSet_of_discSetEntry {setName s : String} {records : List VideoRecord}
    {overrides : List (String × String)} {e : Entry}
    (h : discSetEntry s records overrides active = some e) : e.isSet setName = (s == setName) := by
  unfold discSetEntry at h
  obtain ⟨main, -, rfl⟩ := Option.map_eq_some_iff.mp h
  rfl

theorem filter_isSet_discSets (overrides : List (String × String))
    (active : Option ActiveDerivation) (setName : String)
    (sets : List (String × List VideoRecord)) :
    (sets.filterMap fun s => discSetEntry s.1 s.2 overrides active).filter (Entry.isSet setName) =
      (sets.filter fun s => s.1 = setName).filterMap fun s =>
        discSetEntry s.1 s.2 overrides active := by
  induction sets with
  | nil => rfl
  | cons s sets ih =>
    rw [List.filterMap_cons, List.filter_cons]
    cases hentry : discSetEntry s.1 s.2 overrides active with
    | none =>
      rw [ih]
      split
      · rw [List.filterMap_cons, hentry]
      · rfl
    | some e =>
      rw [List.filter_cons, isSet_of_discSetEntry hentry, ih]
      by_cases hs : s.1 = setName
      · rw [if_pos (by simpa using hs), if_pos (by simpa using hs), List.filterMap_cons, hentry]
      · simp [hs]

theorem filter_isSet_videos (setName : String) (active : Option ActiveDerivation)
    (videos : List VideoRecord) :
    (videos.map fun record => Entry.video (VideoItem.fromRecord active record)).filter
      (Entry.isSet setName) = [] := by
  rw [List.filter_eq_nil_iff]
  intro e he
  obtain ⟨record, -, rfl⟩ := List.mem_map.mp he
  exact Bool.false_ne_true

theorem filter_isSet_directoryEntries (setName relPath : String) (names : List String) :
    (directoryEntries relPath names).filter (Entry.isSet setName) = [] := by
  rw [List.filter_eq_nil_iff]
  intro e he
  obtain ⟨name, -, rfl⟩ := List.mem_map.mp he
  exact Bool.false_ne_true

/-- Before they are sorted, the entries have one for a set of several titles. -/
theorem filter_isSet_unsortedItems (library : Library) (data : BrowseData)
    (active : Option ActiveDerivation) (setName : String) :
    (unsortedItems library data active).filter (Entry.isSet setName) =
      if 1 < (setRecords library data.videos setName).length then
        (discSetEntry setName (setRecords library data.videos setName) data.overrides
          active).toList
      else [] := by
  have hgroups := Lib.groupBy_sorted (groupKey library.kind) data.videos
  have hrecords : Lib.groupAt setName (Lib.groupBy (groupKey library.kind) data.videos).1 =
      setRecords library data.videos setName :=
    Lib.groupAt_groupBy (groupKey library.kind) setName data.videos
  unfold unsortedItems discSetGroups
  simp only [List.partition_eq_filter_filter, List.filter_append, filter_isSet_videos,
    List.append_nil, filter_isSet_discSets]
  rw [List.filter_comm, hgroups.filter_key, hrecords]
  generalize hset : setRecords library data.videos setName = records at hrecords ⊢
  split
  · rename_i hnone
    have hnil : records = [] := by
      rw [← hrecords, Lib.groupAt, hnone]
      rfl
    rw [hnil]
    rfl
  · show (List.filter _ [(setName, records)]).filterMap _ = _
    by_cases hlen : 1 < records.length
    · rw [if_pos hlen, List.filter_cons_of_pos (by simpa using hlen), List.filter_nil,
        List.filterMap_cons]
      cases discSetEntry setName records data.overrides active <;> rfl
    · rw [if_neg hlen, List.filter_cons_of_neg (by simpa using hlen)]
      rfl

/-- A listing has one entry for a set of several titles, and none for any other. -/
theorem filter_isSet_listing (index : Index) (library : Library) (relPath : String)
    (active : Option ActiveDerivation) (setName : String) :
    let data := index.browseDirectory library.name relPath
    let records := setRecords library data.videos setName
    (listing index library relPath active).filter (Entry.isSet setName) =
      if 1 < records.length then
        (discSetEntry setName records data.overrides active).toList
      else [] := by
  intro data records
  have hunsorted := filter_isSet_unsortedItems library data active setName
  have hsorted : ((listing index library relPath active).filter (Entry.isSet setName)).Perm
      ((unsortedItems library data active).filter (Entry.isSet setName)) := by
    unfold listing assembleEntries
    rw [List.filter_append, filter_isSet_directoryEntries, List.nil_append]
    exact (List.perm_insertionSort _ _).filter _
  rw [hunsorted] at hsorted
  split at hsorted
  · rename_i hlen
    rw [if_pos hlen]
    cases hentry : discSetEntry setName records data.overrides active with
    | none => rw [hentry] at hsorted; exact List.perm_nil.mp hsorted
    | some e => rw [hentry] at hsorted; exact List.perm_singleton.mp hsorted
  · rename_i hlen
    rw [if_neg hlen]
    exact List.perm_nil.mp hsorted

end Assembly

end Loku
