import Loku.Config
import Loku.Index.FtsSyntax
import Loku.Index.ScanAll
import Mathlib.Algebra.GroupWithZero.Nat

/-!
# What search offers after a scan

A scan of the configured libraries leaves, in each of them, one row for each master it found
(`videoCount_scanAll`), and does not look at any other row. So the search offers only what is
configured, and the count over all libraries is that of their masters, exactly when no row of
another library was there before the scan (`offers_configured_iff`). A library that is renamed
or removed between two runs leaves such rows.
-/

namespace Loku

/-- The masters that a scan finds in a library. -/
def masterCount (disk : Disk) (library : Library) : Nat :=
  match disk.walk.canonicalize library.path with
  | none => 0
  | some root =>
    ((disk.walk.walkDir root).map fun dir => (masters (disk.collect dir) dir).length).sum

/-- Every item of an unfiltered search is of a configured library, which serves its file. -/
def OffersConfigured (engine : FullText) (libraries : List Library) (index : Index) : Prop :=
  ∀ ftsQuery limit offset results, index.search engine ftsQuery none limit offset = .ok results →
    ∀ item ∈ results.items,
    item.library ∈ libraries.map Library.name ∧ fileMount item.library ∈ fileMounts libraries

/-- The keys of a library's rows are those of the records collected in it. -/
def IndexedMasters (decoders : Decoders) (disk : Disk) (library : Library) (index : Index) :
    Prop :=
  ∃ root, disk.walk.canonicalize library.path = some root ∧
    ∀ k : RowKey, k.1 = library.name → ((∃ row, index.videos.find? k = some row) ↔
      ∃ record, Collected decoders disk.collect library root (disk.walk.walkDir root) record ∧
        record.key = k)

section Count
variable {decoders : Decoders} {disk : Disk} {library : Library} {index index' : Index}

theorem IndexedMasters.congr (h : IndexedMasters decoders disk library index)
    (hsame : ∀ k : RowKey, k.1 = library.name → index'.videos.find? k = index.videos.find? k) :
    IndexedMasters decoders disk library index' := by
  obtain ⟨root, hroot, hkeys⟩ := h
  refine ⟨root, hroot, fun k hk => ?_⟩
  rw [hsame k hk]
  exact hkeys k hk

/-- The collected keys of the directories of a walk, in order. -/
def collectedKeys (decoders : Decoders) (disk : Disk) (library : Library) (root : Path) :
    List RowKey :=
  (disk.walk.walkDir root).flatMap fun dir =>
    (collectDirectory decoders (disk.collect dir) library root dir).map VideoRecord.key

theorem mem_collectedKeys {root : Path} {k : RowKey} :
    k ∈ collectedKeys decoders disk library root ↔
      ∃ record, Collected decoders disk.collect library root (disk.walk.walkDir root) record ∧
        record.key = k := by
  simp only [collectedKeys, List.mem_flatMap, List.mem_map, Collected]
  constructor
  · rintro ⟨dir, hdir, record, hrecord, hk⟩
    exact ⟨record, ⟨dir, hdir, hrecord⟩, hk⟩
  · rintro ⟨record, ⟨dir, hdir, hrecord⟩, hk⟩
    exact ⟨dir, hdir, record, hrecord, hk⟩

theorem nodup_collectedKeys (root : Path) : (collectedKeys decoders disk library root).Nodup := by
  unfold collectedKeys
  rw [List.nodup_flatMap]
  constructor
  · intro dir hdir
    exact (directoryRecords_collectDirectory decoders _ library
      (FileTree.prefix_of_mem_walkDir hdir)).nodup
  · refine (disk.walk.nodup_walkDir root).imp_of_mem fun {dir dir'} hdir hdir' hne k hk hk' => ?_
    obtain ⟨record, hrecord, rfl⟩ := List.mem_map.mp hk
    obtain ⟨record', hrecord', hkey⟩ := List.mem_map.mp hk'
    exact hne (collect_key_inj (FileTree.prefix_of_mem_walkDir hdir)
      (FileTree.prefix_of_mem_walkDir hdir') hrecord hrecord' hkey.symm).1

theorem length_collectedKeys (root : Path) :
    (collectedKeys decoders disk library root).length =
      ((disk.walk.walkDir root).map fun dir => (masters (disk.collect dir) dir).length).sum := by
  simp only [collectedKeys, List.length_flatMap, List.length_map, length_collectDirectory]

/-- A library whose rows are its masters has as many videos. -/
theorem IndexedMasters.videoCount (h : IndexedMasters decoders disk library index) :
    index.videoCount (some library.name) = masterCount disk library := by
  obtain ⟨root, hroot, hkeys⟩ := h
  have hcount : masterCount disk library = (collectedKeys decoders disk library root).length := by
    unfold masterCount
    rw [hroot, length_collectedKeys]
  unfold Index.videoCount
  rw [hcount, List.countP_eq_length_filter, ← List.length_map Row.key]
  apply List.Perm.length_eq
  refine (List.perm_ext_iff_of_nodup
    (index.videos.nodup.sublist (List.filter_sublist.map Row.key))
    (nodup_collectedKeys root)).mpr fun k => ?_
  rw [mem_collectedKeys, List.mem_map]
  constructor
  · rintro ⟨row, hrow, rfl⟩
    rw [List.mem_filter] at hrow
    have hlib : row.record.library = library.name := by simpa using hrow.2
    exact (hkeys row.key hlib).mp ⟨row, Lib.Table.find?_key hrow.1⟩
  · rintro ⟨record, hrecord, rfl⟩
    have hlib := library_of_collected hrecord
    obtain ⟨row, hrow⟩ := (hkeys record.key hlib).mpr ⟨record, hrecord, rfl⟩
    obtain ⟨hmem, hkey⟩ := Lib.Table.find?_eq_some_iff.mp hrow
    refine ⟨row, List.mem_filter.mpr ⟨hmem, ?_⟩, hkey⟩
    have hsame : row.record.library = record.library := congrArg Prod.fst hkey
    simp [hsame, hlib]

/-- Rows of several libraries are counted library by library. -/
theorem countP_mem_eq_sum {names : List String} (hnames : names.Nodup) (index : Index) :
    (index.videos.rows.countP fun r => decide (r.record.library ∈ names)) =
      (names.map fun name => index.videoCount (some name)).sum := by
  induction names with
  | nil => simp
  | cons name names ih =>
    rw [List.nodup_cons] at hnames
    rw [List.map_cons, List.sum_cons, ← ih hnames.2]
    unfold Index.videoCount
    generalize index.videos.rows = rows
    induction rows with
    | nil => simp
    | cons r rows ihrows =>
      simp only [List.countP_cons, List.mem_cons, Option.all_some, beq_iff_eq] at ihrows ⊢
      by_cases hr : r.record.library = name
      · have hnot : r.record.library ∉ names := hr ▸ hnames.1
        simp only [hr, true_or, decide_true, if_true]
        simp only [hr] at hnot
        simp only [hnot, decide_false, Bool.false_eq_true, if_false]
        omega
      · simp only [hr, false_or, if_false]
        omega

end Count

/-! ## The scan -/

section Scan
variable {decoders : Decoders} {faults : Faults} {generation : Int}

theorem indexedMasters_scanLibrary {disk : Disk} {library : Library} {before after : Index}
    {stats : ScanStats} (hstamps : StampsPredate before library.name generation)
    (hscan : scanLibrary decoders faults disk library generation before = (after, .ok stats)) :
    IndexedMasters decoders disk library after := by
  obtain ⟨root, scanned, hroot, h, rfl⟩ := scanLibrary_scanned hscan
  refine ⟨root, hroot, fun k hk => ⟨?_, ?_⟩⟩
  · rintro ⟨row, hrow⟩
    exact collected_of_find?_removeUnseen h hstamps hrow hk
  · rintro ⟨record, hrecord, rfl⟩
    obtain ⟨row, -, hrow, -⟩ := fresh_removeUnseen h hrecord
    exact ⟨row, hrow⟩

theorem indexedMasters_scanLibraries {disk : Library → Disk} :
    ∀ (libraries : List Library) (before after : Index) (stats stats' : ScanStats),
      (libraries.map Library.name).Nodup →
      (∀ library ∈ libraries, StampsPredate before library.name generation) →
      scanLibraries decoders faults disk generation libraries before stats = (after, .ok stats') →
      ∀ library ∈ libraries, IndexedMasters decoders (disk library) library after
  | [], _, _, _, _, _, _, _, library, hlibrary => by cases hlibrary
  | first :: libraries, before, after, stats, stats', hnames, hstamps, hscan, library,
      hlibrary => by
    obtain ⟨scanned, libraryStats, restStats, hfirst, hlibraries, hrest, hother⟩ :=
      scanLibraries_cons_ok hnames hscan
    rw [List.map_cons, List.nodup_cons] at hnames
    rcases List.mem_cons.mp hlibrary with rfl | hlibrary
    · exact (indexedMasters_scanLibrary (hstamps library List.mem_cons_self) hfirst).congr hrest
    · refine indexedMasters_scanLibraries libraries scanned after _ _ hnames.2 ?_ hlibraries library
        hlibrary
      intro l hl k row hrow hk
      rw [hother l hl k hk] at hrow
      exact hstamps l (List.mem_cons_of_mem _ hl) k row hrow hk

variable {disk : Library → Disk} {libraries : List Library} {index scanned : Index}
  {stats : ScanStats}

/-- The scan leaves the rows of libraries that are not configured. -/
theorem find?_scanAll_other
    (hscan : scanAll decoders faults disk libraries index = (scanned, .ok stats)) {k : RowKey}
    (hk : k.1 ∉ libraries.map Library.name) :
    scanned.videos.find? k = index.videos.find? k := by
  obtain ⟨started, generation, hnext, hlibraries⟩ := scanAll_ok hscan
  obtain ⟨-, -, hvideos, -⟩ := Index.nextGeneration_spec hnext
  rw [← hvideos]
  refine scanLibraries_other libraries started scanned _ _ hlibraries fun l hl heq => hk ?_
  rw [heq]
  exact List.mem_map_of_mem hl

/-- After a scan a library has as many videos as masters were found in it. -/
theorem videoCount_scanAll (hstamps : index.StampsBelow) (hroom : index.HasRoom)
    (hnames : (libraries.map Library.name).Nodup)
    (hscan : scanAll decoders faults disk libraries index = (scanned, .ok stats)) :
    ∀ library ∈ libraries,
      scanned.videoCount (some library.name) = masterCount (disk library) library := by
  obtain ⟨started, generation, hnext, hlibraries⟩ := scanAll_ok hscan
  obtain ⟨-, -, hvideos, -⟩ := Index.nextGeneration_spec hnext
  have hgen := hroom.generation hnext
  have hpredate : ∀ library ∈ libraries, StampsPredate started library.name generation := by
    intro library _ k row hrow _
    rw [hvideos] at hrow
    have hle := hstamps row (Lib.Table.find?_eq_some_iff.mp hrow).1
    omega
  intro library hlibrary
  exact (indexedMasters_scanLibraries libraries started scanned _ _ hnames hpredate hlibraries
    library hlibrary).videoCount

/-- The rows are all of configured libraries after the scan if they were before. -/
theorem rows_configured_iff
    (hscan : scanAll decoders faults disk libraries index = (scanned, .ok stats)) :
    (∀ r ∈ scanned.videos, r.record.library ∈ libraries.map Library.name) ↔
      ∀ r ∈ index.videos, r.record.library ∈ libraries.map Library.name := by
  have hsame : ∀ k : RowKey, k.1 ∉ libraries.map Library.name →
      ((∃ r ∈ scanned.videos, r.key = k) ↔ ∃ r ∈ index.videos, r.key = k) := by
    intro k hk
    simp only [← Lib.Table.find?_eq_some_iff, find?_scanAll_other hscan hk]
  constructor
  · intro h r hr
    by_contra hnot
    obtain ⟨r', hr', hkey⟩ := (hsame r.key hnot).mpr ⟨r, hr, rfl⟩
    have hlib : r'.record.library = r.record.library := congrArg Prod.fst hkey
    exact hnot (hlib ▸ h r' hr')
  · intro h r hr
    by_contra hnot
    obtain ⟨r', hr', hkey⟩ := (hsame r.key hnot).mp ⟨r, hr, rfl⟩
    have hlib : r'.record.library = r.record.library := congrArg Prod.fst hkey
    exact hnot (hlib ▸ h r' hr')

end Scan

/-- After a scan of the configured libraries the search offers only what is configured, and the
count is that of the masters, exactly when no row of another library was in the index. -/
theorem offers_configured_iff {decoders : Decoders} {faults : Faults} {disk : Library → Disk}
    {t : FileTree} {cli : Option Path} {file : Option (List LibraryFileEntry)}
    {libraries : List Library} {index scanned : Index} {stats : ScanStats}
    (hreach : ReachableIndex decoders index)
    (hresolve : resolveLibraries t cli file = .ok libraries)
    (hscan : scanAll decoders faults disk libraries index = (scanned, .ok stats))
    (engine : FullText) :
    (OffersConfigured engine libraries scanned ∧ scanned.videoCount none =
        (libraries.map fun library => masterCount (disk library) library).sum) ↔
      ∀ r ∈ index.videos, r.record.library ∈ libraries.map Library.name := by
  have hnames := nodup_resolveLibraries hresolve
  have hcounts := videoCount_scanAll (stampsBelow_of_reachable hreach)
    (hasRoom_of_reachable hreach) hnames hscan
  have hsum : (scanned.videos.rows.countP fun r =>
      decide (r.record.library ∈ libraries.map Library.name)) =
      (libraries.map fun library => masterCount (disk library) library).sum := by
    rw [countP_mem_eq_sum hnames, List.map_map]
    exact congrArg List.sum (List.map_congr_left hcounts)
  have hall : scanned.videoCount none = scanned.videos.rows.length := by
    unfold Index.videoCount
    simp
  have hcount : scanned.videoCount none =
        (libraries.map fun library => masterCount (disk library) library).sum ↔
      ∀ r ∈ scanned.videos, r.record.library ∈ libraries.map Library.name := by
    rw [hall, ← hsum, eq_comm, List.countP_eq_length]
    simp only [decide_eq_true_iff]
    exact Iff.rfl
  rw [hcount, rows_configured_iff hscan]
  refine and_iff_right_of_imp fun h ftsQuery limit offset results hsearch item hitem => ?_
  obtain ⟨r, hr, -, -, rfl⟩ := Index.mem_search_items hsearch hitem
  have hmem := (rows_configured_iff hscan).mpr h r hr
  exact ⟨hmem, mem_fileMounts.mpr hmem⟩

/-! ## A library that is renamed between two runs -/

namespace Renamed
open OneVideo
open PlainLexer (everything reads_everything)

def entry (name : String) : LibraryFileEntry := ⟨name, [lib], .downloads⟩

def renamed : Library := ⟨"films", [lib], .downloads⟩

/-- The index after a run with one library. -/
def run (library : Library) (index : Index) : Index :=
  (scanAll OneVideo.decoders Faults.none (fun _ => .still tree) [library] index).1

def found : ScanStats := { directories := 1, videos := 1, removed := 0 }

theorem scan_again : scanAll OneVideo.decoders Faults.none (fun _ => .still tree) [library]
    (run library Index.openInMemory) =
      (run library (run library Index.openInMemory), .ok found) := by decide

theorem scan_renamed : scanAll OneVideo.decoders Faults.none (fun _ => .still tree) [renamed]
    (run library Index.openInMemory) =
      (run renamed (run library Index.openInMemory), .ok found) := by decide

theorem reachable_first : ReachableIndex OneVideo.decoders (run library Index.openInMemory) :=
  ReachableIndex.scanAll .refl (by decide : (1 : Int) < i64Max) (fun _ => .still tree) [library]

/-- The old name stays in the index, without a mount. -/
theorem old_name_still_offered :
    ¬ ∀ (decoders : Decoders) (faults : Faults) (disk : Library → Disk) (t : FileTree)
      (cli : Option Path) (file : Option (List LibraryFileEntry)) (libraries : List Library)
      (index scanned : Index) (stats : ScanStats) (engine : FullText),
      ReachableIndex decoders index → resolveLibraries t cli file = .ok libraries →
      scanAll decoders faults disk libraries index = (scanned, .ok stats) →
      OffersConfigured engine libraries scanned ∧ scanned.videoCount none =
        (libraries.map fun library => masterCount (disk library) library).sum := by
  intro h
  have hresolve : resolveLibraries tree none (some [entry "films"]) = .ok [renamed] := by decide
  have hoffers := (h _ _ _ _ _ _ _ _ _ _ everything reachable_first hresolve scan_renamed).1
  have hreads : everything.Reads "movie" := reads_everything (by decide)
  have hread : everything.syntaxError "\"movie\"*" = none := hreads _ (by decide)
  obtain ⟨results, hsearch⟩ : ∃ results, (run renamed (run library Index.openInMemory)).search
      everything "\"movie\"*" none 2 0 = .ok results := Index.search_ok_iff.mpr hread
  have hitems : "movies" ∈ results.items.map VideoRecord.library := by
    unfold Index.search at hsearch
    rw [hread] at hsearch
    rw [← Except.ok.inj hsearch]
    decide
  obtain ⟨item, hitem, hlib⟩ := List.mem_map.mp hitems
  have hmem := (hoffers _ 2 0 results hsearch item hitem).1
  rw [hlib] at hmem
  exact absurd hmem (by decide)

/-- With the name unchanged the search offers what is configured. -/
theorem offers_unchanged :
    (OffersConfigured everything [library] (run library (run library Index.openInMemory)) ∧
      (run library (run library Index.openInMemory)).videoCount none =
        ([library].map fun library => masterCount (.still tree) library).sum) ↔
      ∀ r ∈ (run library Index.openInMemory).videos,
        r.record.library ∈ [library].map Library.name :=
  have hresolve : resolveLibraries tree none (some [entry "movies"]) = .ok [library] := by decide
  offers_configured_iff reachable_first hresolve scan_again everything

end Renamed

end Loku
