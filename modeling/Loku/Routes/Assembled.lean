import Loku.Routes.MainTitles

/-!
# What is assembled

`assembleEntries` puts one directory's records through a grouping, a partition by group size, a
collapse that may drop a group, and a sort. `Assembled` is what comes out for any records,
subdirectories and picks: no record is lost or doubled (`conserved`), the sets are exactly the
prefixes that several records of a discs library share (`sets`), and their main title is the pick,
the largest file or the first title (`IsMain`).
-/

namespace Loku

/-! ## The two orders -/

theorem discOrder_total (r r' : VideoRecord) : discOrder r r' ∨ discOrder r' r := by
  unfold discOrder
  cases hi : r.discTitleIndex with
  | none =>
    cases hj : r'.discTitleIndex with
    | none => simpa [titleIndexLt] using le_total r.relPath r'.relPath
    | some j => simp [titleIndexLt]
  | some i =>
    cases hj : r'.discTitleIndex with
    | none => simp [titleIndexLt]
    | some j =>
      have hpaths := le_total r.relPath r'.relPath
      rcases lt_trichotomy i j with hlt | heq | hlt
      · simp [titleIndexLt, hlt]
      · simpa [titleIndexLt, heq] using hpaths
      · simp [titleIndexLt, hlt]

theorem titleIndexLt_trans {a b c : Option Int} (h : titleIndexLt a b) (h' : titleIndexLt b c) :
    titleIndexLt a c := by
  cases a <;> cases b <;> cases c <;> simp only [titleIndexLt] at h h' ⊢
  omega

theorem discOrder_trans {r s u : VideoRecord} (h : discOrder r s) (h' : discOrder s u) :
    discOrder r u := by
  rcases h with h | ⟨heq, hle⟩
  · rcases h' with h' | ⟨heq', -⟩
    · exact Or.inl (titleIndexLt_trans h h')
    · exact Or.inl (heq' ▸ h)
  · rcases h' with h' | ⟨heq', hle'⟩
    · exact Or.inl (heq ▸ h')
    · exact Or.inr ⟨heq.trans heq', hle.trans hle'⟩

instance : Std.Total discOrder := ⟨discOrder_total⟩

instance : IsTrans VideoRecord discOrder := ⟨fun _ _ _ => discOrder_trans⟩

instance : Std.Total fun e e' : Entry => e.sortName ≤ e'.sortName :=
  ⟨fun e e' => le_total e.sortName e'.sortName⟩

instance : IsTrans Entry fun e e' => e.sortName ≤ e'.sortName := ⟨fun _ _ _ => le_trans⟩

/-! ## The largest record -/

theorem size_le_largest {records : List VideoRecord} {r : VideoRecord}
    (h : largest records = some r) : ∀ r' ∈ records, r'.size ≤ r.size := by
  cases records with
  | nil => simp
  | cons first rest =>
    induction rest generalizing first with
    | nil =>
      cases h
      simp
    | cons second rest ih =>
      rw [largest_cons_cons] at h
      split at h
      · rename_i hle
        have hrest := ih second h
        have hsecond := hrest second List.mem_cons_self
        intro r' hr'
        rcases List.mem_cons.mp hr' with rfl | hr'
        · exact hle.trans hsecond
        · exact hrest r' hr'
      · rename_i hlt
        have hrest := ih first h
        have hfirst := hrest first List.mem_cons_self
        intro r' hr'
        rcases List.mem_cons.mp hr' with rfl | hr'
        · exact hfirst
        · rcases List.mem_cons.mp hr' with rfl | hr'
          · omega
          · exact hrest r' (List.mem_cons_of_mem _ hr')

/-! ## The assembled entries -/

/-- The records with a disc-set prefix. -/
def sharing (videos : List VideoRecord) (setName : String) : List VideoRecord :=
  videos.filter fun r => r.discSet = some setName

/-- The main title of a set of records: the pick, if it is one of them; the largest without a
pick; and the first otherwise. -/
structure IsMain (overrides : List (String × String)) (records : List VideoRecord)
    (active : Option ActiveDerivation) (set : DiscSetEntry) : Prop where
  mem : set.main ∈ set.titles
  picked : ∀ path, overrides.lookup set.discSet = some path →
    (∃ r ∈ records, r.relPath = path) → set.main.path = path
  largest : overrides.lookup set.discSet = none → ∃ r ∈ records,
    (∀ r' ∈ records, r'.size ≤ r.size) ∧ set.main.path = r.relPath ∧
      ((records.map VideoRecord.relPath).Nodup → set.main = .fromRecord active r)
  first : ∀ path, overrides.lookup set.discSet = some path →
    (∀ r ∈ records, r.relPath ≠ path) → set.titles.head? = some set.main

/-- A listing of one directory: its subdirectories in order, then `items`, its videos and sets. -/
structure Assembled (library : Library) (relPath : String) (data : BrowseData)
    (active : Option ActiveDerivation) (entries items : List Entry) : Prop where
  entries_eq : entries = data.subdirectories.map (fun name =>
    .directory { name := name, path := childRelPath relPath name }) ++ items
  noDirectory : ∀ e ∈ items, ∀ dir, e ≠ .directory dir
  sorted : items.Pairwise fun e e' => e.sortName ≤ e'.sortName
  conserved : ∃ records : List VideoRecord, records.Perm data.videos ∧
    items.flatMap Entry.items = records.map (VideoItem.fromRecord active)
  sets : ∀ setName, (items.filter (Entry.isSet setName)).length =
    if library.kind = .discs ∧ 1 < (sharing data.videos setName).length then 1 else 0
  titles : ∀ set, .discSet set ∈ items → ∃ records : List VideoRecord,
    records.Perm (sharing data.videos set.discSet) ∧ records.Pairwise discOrder ∧
      set.titles = records.map (VideoItem.fromRecord active)
  main : ∀ set, .discSet set ∈ items →
    IsMain data.overrides (sharing data.videos set.discSet) active set

section Assembly
variable {library : Library} {data : BrowseData} {active : Option ActiveDerivation}

theorem setRecords_eq (library : Library) (videos : List VideoRecord) (setName : String) :
    setRecords library videos setName =
      if library.kind = .discs then sharing videos setName else [] := by
  unfold setRecords sharing groupKey
  cases library.kind with
  | discs => simp
  | downloads => simp

theorem mem_discTitles {records : List VideoRecord} {item : VideoItem} :
    item ∈ discTitles records active ↔ ∃ r ∈ records, .fromRecord active r = item := by
  rw [(discTitles_perm records active).mem_iff, List.mem_map]

theorem mainTitle_mem {titles : List VideoItem} {path : String} {main : VideoItem}
    (h : mainTitle titles path = some main) : main ∈ titles := by
  rcases Option.or_eq_some_iff.mp h with h | ⟨-, h⟩
  · exact List.mem_of_find?_eq_some h
  · exact List.mem_of_head? h

/-- A title of the set is found by its path. -/
theorem path_mainTitle {records : List VideoRecord} {r : VideoRecord} (hr : r ∈ records)
    {main : VideoItem} (h : mainTitle (discTitles records active) r.relPath = some main) :
    main.path = r.relPath := by
  rcases Option.or_eq_some_iff.mp h with h | ⟨hnone, -⟩
  · simpa using List.find?_some h
  · have hitem : .fromRecord active r ∈ discTitles records active :=
      mem_discTitles.mpr ⟨r, hr, rfl⟩
    exact absurd (beq_self_eq_true r.relPath) (List.find?_eq_none.mp hnone _ hitem)

theorem isMain_of_discSetEntry {setName : String} {records : List VideoRecord}
    {overrides : List (String × String)} {set : DiscSetEntry}
    (h : discSetEntry setName records overrides active = some (.discSet set)) :
    IsMain overrides records active set := by
  obtain ⟨main, hmain, hset⟩ := Option.map_eq_some_iff.mp h
  cases hset
  have hmem : main ∈ discTitles records active := mainTitle_mem hmain
  constructor
  · exact hmem
  · rintro path hpick ⟨r, hr, rfl⟩
    have hrel : mainRel setName records overrides = r.relPath := by
      unfold mainRel
      rw [hpick]
      rfl
    rw [hrel] at hmain
    exact path_mainTitle hr hmain
  · intro hpick
    obtain ⟨r₀, hr₀, -⟩ := mem_discTitles.mp hmem
    obtain ⟨r, hr, hlargest⟩ := largest_mem (List.ne_nil_of_mem hr₀)
    have hrel : mainRel setName records overrides = r.relPath := by
      unfold mainRel
      rw [hpick, hlargest]
      rfl
    rw [hrel] at hmain
    refine ⟨r, hr, size_le_largest hlargest, path_mainTitle hr hmain, fun hnodup => ?_⟩
    rw [mainTitle_of_mem hnodup hr] at hmain
    exact (Option.some.inj hmain).symm
  · intro path hpick hstale
    have hrel : mainRel setName records overrides = path := by
      unfold mainRel
      rw [hpick]
      rfl
    rw [hrel, mainTitle_of_not_mem hstale] at hmain
    show (discTitles records active).head? = some main
    rw [← hmain]
    exact List.head?_map

theorem mem_unsortedItems_discSet {set : DiscSetEntry}
    (h : .discSet set ∈ unsortedItems library data active) :
    1 < (setRecords library data.videos set.discSet).length ∧
      discSetEntry set.discSet (setRecords library data.videos set.discSet) data.overrides active =
        some (.discSet set) := by
  have hfilter : .discSet set ∈
      (unsortedItems library data active).filter (Entry.isSet set.discSet) :=
    List.mem_filter.mpr ⟨h, beq_self_eq_true set.discSet⟩
  rw [filter_isSet_unsortedItems] at hfilter
  split at hfilter
  · rename_i hlen
    exact ⟨hlen, Option.mem_toList.mp hfilter⟩
  · cases hfilter

theorem not_directory_of_mem_unsortedItems {e : Entry} (h : e ∈ unsortedItems library data active)
    (dir : DirEntry) : e ≠ .directory dir := by
  rintro rfl
  unfold unsortedItems at h
  rcases List.mem_append.mp h with h | h
  · obtain ⟨s, -, hentry⟩ := List.mem_filterMap.mp h
    obtain ⟨main, -, heq⟩ := Option.map_eq_some_iff.mp hentry
    cases heq
  · obtain ⟨r, -, heq⟩ := List.mem_map.mp h
    cases heq

/-- A group of several titles has one entry. -/
theorem length_filter_isSet (library : Library) (data : BrowseData)
    (active : Option ActiveDerivation) (setName : String) :
    ((unsortedItems library data active).filter (Entry.isSet setName)).length =
      if library.kind = .discs ∧ 1 < (sharing data.videos setName).length then 1 else 0 := by
  rw [filter_isSet_unsortedItems, setRecords_eq]
  by_cases hkind : library.kind = .discs
  · simp only [hkind, if_true, true_and]
    by_cases hlen : 1 < (sharing data.videos setName).length
    · have hne : sharing data.videos setName ≠ [] := by
        intro hnil
        simp [hnil] at hlen
      obtain ⟨set, hentry, -⟩ := discSetEntry_isSome setName hne data.overrides active
      rw [if_pos hlen, if_pos hlen, hentry]
      rfl
    · rw [if_neg hlen, if_neg hlen]
      rfl
  · simp [hkind]

/-- Assembly loses and doubles nothing, for any records, subdirectories and picks. -/
theorem assembleEntries_assembled (library : Library) (relPath : String) (data : BrowseData)
    (active : Option ActiveDerivation) :
    ∃ items, Assembled library relPath data active
      (assembleEntries library relPath data active) items := by
  have hperm := List.perm_insertionSort (fun e e' : Entry => e.sortName ≤ e'.sortName)
    (unsortedItems library data active)
  -- the titles and the main title of an entry come from the records of its prefix
  have hset : ∀ set, .discSet set ∈ (unsortedItems library data active).insertionSort
      (fun e e' => e.sortName ≤ e'.sortName) →
      discSetEntry set.discSet (sharing data.videos set.discSet) data.overrides active =
        some (.discSet set) := by
    intro set hmem
    obtain ⟨hlen, hentry⟩ := mem_unsortedItems_discSet (hperm.mem_iff.mp hmem)
    rw [setRecords_eq] at hlen hentry
    split at hlen
    · rename_i hkind
      rwa [if_pos hkind] at hentry
    · simp at hlen
  refine ⟨_, ⟨rfl, ?_, ?_, ?_, ?_, ?_, ?_⟩⟩
  · intro e he
    exact not_directory_of_mem_unsortedItems (hperm.mem_iff.mp he)
  · exact List.pairwise_insertionSort (fun e e' : Entry => e.sortName ≤ e'.sortName) _
  · have hitems := (hperm.flatMap_right Entry.items).trans
      (flatMap_items_unsortedItems library data active)
    have hcomp := List.eq_map_comp_perm (VideoItem.fromRecord active)
    obtain ⟨records, hrecords, hvideos⟩ := (congrFun (congrFun hcomp _) data.videos).mpr hitems
    exact ⟨records, hvideos, hrecords⟩
  · intro setName
    rw [(hperm.filter _).length_eq, length_filter_isSet]
  · intro set hmem
    obtain ⟨main, -, heq⟩ := Option.map_eq_some_iff.mp (hset set hmem)
    refine ⟨(sharing data.videos set.discSet).insertionSort discOrder,
      List.perm_insertionSort _ _, List.pairwise_insertionSort _ _, ?_⟩
    exact (congrArg DiscSetEntry.titles (Entry.discSet.inj heq)).symm
  · intro set hmem
    exact isMain_of_discSetEntry (hset set hmem)

theorem titles_of_discSetEntry {setName : String} {records : List VideoRecord}
    {overrides : List (String × String)} {set : DiscSetEntry}
    (h : discSetEntry setName records overrides active = some (.discSet set)) :
    set.titles = discTitles records active := by
  obtain ⟨main, -, hset⟩ := Option.map_eq_some_iff.mp h
  cases hset
  rfl

end Assembly

/-- A set of a listing comes from the titles of its prefix. -/
theorem discSetEntry_of_mem_listing {index : Index} {library : Library} {path : String}
    {active : Option ActiveDerivation} {set : DiscSetEntry}
    (h : .discSet set ∈ listing index library path active) :
    discSetEntry set.discSet (titlesIn index library path set.discSet)
      (index.browseDirectory library.name path).overrides active = some (.discSet set) := by
  have hmem : Entry.discSet set ∈
      (listing index library path active).filter (Entry.isSet set.discSet) :=
    List.mem_filter.mpr ⟨h, beq_self_eq_true set.discSet⟩
  rw [filter_isSet_titlesIn] at hmem
  split at hmem
  · exact Option.mem_toList.mp hmem
  · cases hmem

end Loku
