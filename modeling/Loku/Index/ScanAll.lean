import Loku.Index.History

/-!
# The records that a full scan leaves

A row's parent column is the directory part of its path (`WellPlaced`), whatever happened to
the index before. So a full scan of files that do not change meanwhile leaves, for every master
of every library, the record written over the one that was there, and nothing else
(`recordAt_scanAll`).
-/

namespace Loku

/-! ## Parents -/

/-- The parent column is the directory part of the path. -/
def WellPlaced (r : VideoRecord) : Prop :=
  ∀ rel video, r.relPath = Path.relText (rel ++ [video]) → r.parent = Path.relText rel

theorem relativeOf_eq_relText {p root rel : Path}
    (h : relativeOf p root = rel.relText) : p = root ++ rel := by
  unfold relativeOf at h
  split at h
  · rename_i rel' hstrip
    rw [Path.stripPrefix_eq_some_iff.mp hstrip, Path.relText_inj.mp h]
  · -- an absolute text begins with a slash
    have hhead := Path.head?_relText rel
    rw [← h] at hhead
    unfold Path.absText at hhead
    rw [String.toList_append] at hhead
    exact absurd rfl hhead

theorem wellPlaced_of_mem_collect {decoders : Decoders} {t : FileTree} {library : Library}
    {root dir : Path} {record : VideoRecord}
    (h : record ∈ collectDirectory decoders t library root dir) : WellPlaced record := by
  obtain ⟨video', -, hbuild⟩ := mem_collectDirectory.mp h
  obtain ⟨hkey, hparent, -⟩ := buildRecord_columns hbuild
  intro rel video hrel
  have hpath : relativeOf (dir ++ [video']) root = Path.relText (rel ++ [video]) :=
    (congrArg Prod.snd hkey).symm.trans hrel
  have hdir := relativeOf_eq_relText hpath
  rw [← List.append_assoc] at hdir
  rw [hparent, (List.append_inj' hdir rfl).1, relativeOf_append]

theorem wellPlaced_rowProperty (decoders : Decoders) : RowProperty decoders WellPlaced where
  stored t library root dir record hrecord rel video h :=
    wellPlaced_of_mem_collect hrecord rel video h
  conflict t library root dir record hrecord old hkey _ := by
    have hrel : old.relPath = record.relPath := congrArg Prod.snd hkey
    intro rel video h
    exact wellPlaced_of_mem_collect hrecord rel video (hrel.symm.trans h)
  probe _ _ h := h
  compat _ _ h := h
  thumb _ _ h := h

/-- A well placed row has the parent of the record collected under its key. -/
theorem WellPlaced.parent_eq {decoders : Decoders} {t : FileTree} {library : Library}
    {root dir : Path} {r record : VideoRecord} (h : WellPlaced r) (hdir : root <+: dir)
    (hrecord : record ∈ collectDirectory decoders t library root dir)
    (hkey : r.key = record.key) : r.parent = record.parent := by
  obtain ⟨video, -, hbuild⟩ := mem_collectDirectory.mp hrecord
  obtain ⟨hrkey, hparent, -⟩ := buildRecord_columns hbuild
  obtain ⟨rel, rfl⟩ := hdir
  rw [List.append_assoc, relativeOf_append] at hrkey
  rw [hparent, relativeOf_append]
  exact h rel video (congrArg Prod.snd (hkey.trans hrkey))

/-! ## One library -/

/-- The record of a master in a directory that the library's walk reaches. -/
def MasterRecord (decoders : Decoders) (t : FileTree) (library : Library)
    (record : VideoRecord) : Prop :=
  ∃ root, t.canonicalize library.path = some root ∧
    ∃ dir, t.ReachableDir root dir ∧ record ∈ collectDirectory decoders t library root dir

theorem library_of_masterRecord {decoders : Decoders} {t : FileTree} {library : Library}
    {record : VideoRecord} (h : MasterRecord decoders t library record) :
    record.library = library.name := by
  obtain ⟨root, -, dir, -, hrecord⟩ := h
  exact library_of_mem_collect hrecord

/-- The rows of a library are well placed and older than a generation. -/
structure Sweepable (index : Index) (library : String) (generation : Int) : Prop where
  placed : ∀ k row, index.videos.find? k = some row → k.1 = library → WellPlaced row.record
  stamps : StampsPredate index library generation

theorem Sweepable.congr {index index' : Index} {library : String} {generation : Int}
    (h : Sweepable index library generation)
    (hsame : ∀ k : RowKey, k.1 = library → index'.videos.find? k = index.videos.find? k) :
    Sweepable index' library generation where
  placed k row hrow hk := h.placed k row ((hsame k hk).symm.trans hrow) hk
  stamps k row hrow hk := h.stamps k row ((hsame k hk).symm.trans hrow) hk

/-- The records under the keys of a library after its scan. -/
structure ScannedRecords (decoders : Decoders) (t : FileTree) (library : Library)
    (before after : Index) : Prop where
  master : ∀ record, MasterRecord decoders t library record →
    after.recordAt record.key = some (Index.written record (before.recordAt record.key))
  absent : ∀ k : RowKey, k.1 = library.name →
    (∀ record, MasterRecord decoders t library record → record.key ≠ k) →
    after.recordAt k = none

section Scan
variable {decoders : Decoders} {faults : Faults} {t : FileTree} {generation : Int}

theorem recordAt_congr {index index' : Index} {k : RowKey}
    (h : index'.videos.find? k = index.videos.find? k) : index'.recordAt k = index.recordAt k := by
  unfold Index.recordAt
  rw [h]

theorem scannedRecords_scanLibrary {library : Library} {before after : Index} {stats : ScanStats}
    (hbefore : Sweepable before library.name generation)
    (hscan : scanLibrary decoders faults (.still t) library generation before =
      (after, .ok stats)) :
    ScannedRecords decoders t library before after ∧ after.probeCache = before.probeCache := by
  obtain ⟨root, scanned, hroot, h, rfl⟩ := scanLibrary_scanned hscan
  have hplain := FileTree.plain_of_canonicalize hroot
  refine ⟨⟨?_, ?_⟩, h.cache⟩
  · rintro record ⟨root', hroot', dir, hdir, hrecord⟩
    cases hroot.symm.trans hroot'
    have hwalk := (FileTree.mem_walkDir_iff_reachable hplain).mpr hdir
    have hlib := library_of_masterRecord ⟨root, hroot, dir, hdir, hrecord⟩
    obtain ⟨row, old, hrow, hwritten, -, hexact⟩ := fresh_removeUnseen h ⟨dir, hwalk, hrecord⟩
    have hold : old = before.recordAt record.key := hexact fun row₀ hrow₀ =>
      (hbefore.placed _ row₀ hrow₀ hlib).parent_eq (FileTree.prefix_of_mem_walkDir hwalk) hrecord
        (Lib.Table.find?_eq_some_iff.mp hrow₀).2
    rw [Index.recordAt_of_find? hrow, hwritten, hold]
  · intro k hk hnone
    unfold Index.recordAt
    cases hrow : (scanned.removeUnseen library.name generation).1.videos.find? k with
    | none => rfl
    | some row =>
      obtain ⟨record, ⟨dir, hdir, hrecord⟩, hkey⟩ :=
        collected_of_find?_removeUnseen h hbefore.stamps hrow hk
      exact absurd hkey (hnone record
        ⟨root, hroot, dir, (FileTree.mem_walkDir_iff_reachable hplain).mp hdir, hrecord⟩)

/-! ## All libraries -/

theorem scannedRecords_scanLibraries :
    ∀ (libraries : List Library) (before after : Index) (stats stats' : ScanStats),
      (libraries.map Library.name).Nodup →
      (∀ library ∈ libraries, Sweepable before library.name generation) →
      scanLibraries decoders faults (fun _ => .still t) generation libraries before stats =
        (after, .ok stats') →
      (∀ library ∈ libraries, ScannedRecords decoders t library before after) ∧
        after.probeCache = before.probeCache
  | [], before, after, _, _, _, _, hscan => by
    obtain ⟨rfl, -⟩ := Prod.mk.inj hscan
    exact ⟨fun library hlibrary => (by cases hlibrary), rfl⟩
  | library :: libraries, before, after, stats, stats', hnames, hbefore, hscan => by
    obtain ⟨scanned, libraryStats, restStats, hlibrary, hlibraries, hrest, hother⟩ :=
      scanLibraries_cons_ok hnames hscan
    rw [List.map_cons, List.nodup_cons] at hnames
    obtain ⟨hhead, hheadCache⟩ :=
      scannedRecords_scanLibrary (hbefore library List.mem_cons_self) hlibrary
    obtain ⟨htail, htailCache⟩ := scannedRecords_scanLibraries libraries scanned after _ _
      hnames.2 (fun l hl => (hbefore l (List.mem_cons_of_mem _ hl)).congr (hother l hl)) hlibraries
    refine ⟨fun l hl => ?_, htailCache.trans hheadCache⟩
    rcases List.mem_cons.mp hl with rfl | hl
    · refine ⟨fun record hrecord => ?_, fun k hk hnone => ?_⟩
      · rw [recordAt_congr (hrest _ (library_of_masterRecord hrecord)),
          hhead.master record hrecord]
      · rw [recordAt_congr (hrest k hk), hhead.absent k hk hnone]
    · refine ⟨fun record hrecord => ?_, (htail l hl).absent⟩
      rw [(htail l hl).master record hrecord,
        recordAt_congr (hother l hl _ (library_of_masterRecord hrecord))]

/-- A full scan writes the record of every master and leaves no other row of a library. -/
theorem recordAt_scanAll {libraries : List Library} {index scanned : Index} {stats : ScanStats}
    (hnames : (libraries.map Library.name).Nodup) (hplaced : RowsSatisfy WellPlaced index)
    (hstamps : index.StampsBelow) (hroom : index.HasRoom)
    (hscan : scanAll decoders faults (fun _ => .still t) libraries index = (scanned, .ok stats)) :
    (∀ library ∈ libraries, ScannedRecords decoders t library index scanned) ∧
      scanned.probeCache = index.probeCache := by
  obtain ⟨started, generation, hnext, hlibraries⟩ := scanAll_ok hscan
  obtain ⟨-, -, hvideos, hcache, -⟩ := Index.nextGeneration_spec hnext
  have hgen := hroom.generation hnext
  have hstart : ∀ library ∈ libraries, Sweepable started library.name generation := by
    intro library _
    refine ⟨fun k row hrow _ => ?_, fun k row hrow _ => ?_⟩
    · rw [hvideos] at hrow
      exact hplaced row (Lib.Table.find?_eq_some_iff.mp hrow).1
    · rw [hvideos] at hrow
      have hle := hstamps row (Lib.Table.find?_eq_some_iff.mp hrow).1
      omega
  obtain ⟨hrecords, hsame⟩ :=
    scannedRecords_scanLibraries libraries started scanned {} stats hnames hstart hlibraries
  refine ⟨fun library hlibrary => ?_, hsame.trans hcache⟩
  have hrecordAt : ∀ k, started.recordAt k = index.recordAt k := fun k =>
    recordAt_congr (by rw [hvideos])
  refine ⟨fun record hrecord => ?_, (hrecords library hlibrary).absent⟩
  rw [(hrecords library hlibrary).master record hrecord, hrecordAt]

end Scan

end Loku
