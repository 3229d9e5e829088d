import Loku.Index.History

/-!
# A full scan makes a library's rows those of its masters

From any index that a history of the program reaches, a successful scan of a library whose
files do not change meanwhile leaves exactly one row for each master video in a directory that
is reached from the root without following a link, with the columns the scanner computes, and
leaves the other libraries alone. The sweep is exact because no stamp of an earlier history
reaches the new generation.
-/

namespace Loku

/-- A fresh generation lies above every stamp. -/
theorem lastSeen_lt_of_nextGeneration {index started : Index} {generation : Int}
    (hstamps : index.StampsBelow) (hroom : index.HasRoom)
    (hnext : index.nextGeneration = (started, generation))
    {k : RowKey} {row : Row} (hrow : started.videos.find? k = some row) :
    row.lastSeen < generation := by
  obtain ⟨-, -, hvideos, -⟩ := Index.nextGeneration_spec hnext
  have hgen := hroom.generation hnext
  rw [hvideos] at hrow
  have hle := hstamps row (Lib.Table.find?_eq_some_iff.mp hrow).1
  omega

theorem scanLibrary_rows {decoders : Decoders} {faults : Faults} {disk : Library → Disk}
    {t : FileTree} {library : Library} {earlier : List Library}
    {index started before after : Index} {generation : Int} {stats₀ stats : ScanStats}
    (hreach : ReachableIndex decoders index)
    (hnext : index.nextGeneration = (started, generation))
    (hearlier : scanLibraries decoders faults disk generation earlier started {} =
      (before, .ok stats₀))
    (hnames : ∀ l ∈ earlier, l.name ≠ library.name)
    (hscan : scanLibrary decoders faults (.still t) library generation before =
      (after, .ok stats)) :
    ∃ root, t.canonicalize library.path = some root ∧
      (∀ row ∈ after.videos, row.record.library = library.name →
        ∃ dir video, t.ReachableDir root dir ∧ video ∈ masters t dir ∧
          row.record.relPath = relativeOf (dir ++ [video]) root) ∧
      (∀ dir video, t.ReachableDir root dir → video ∈ masters t dir →
        ∃ row ∈ after.videos, ∃ record,
          row.key = (library.name, relativeOf (dir ++ [video]) root) ∧
          buildRecord decoders t library root dir video (folderNfoAllowed t dir) = some record ∧
          copied row.record = copied record ∧
          ∀ row' ∈ after.videos, row'.key = row.key → row' = row) ∧
      ∀ k, k.1 ≠ library.name → after.videos.find? k = before.videos.find? k := by
  have hstamps : StampsPredate before library.name generation := by
    intro k row hrow hk
    rw [scanLibraries_other earlier started before _ _ hearlier
      fun l hl heq => hnames l hl (heq.symm.trans hk)] at hrow
    exact lastSeen_lt_of_nextGeneration (stampsBelow_of_reachable hreach)
      (hasRoom_of_reachable hreach) hnext hrow
  obtain ⟨root, scanned, hroot, h, rfl⟩ := scanLibrary_scanned hscan
  have hplain := FileTree.plain_of_canonicalize hroot
  refine ⟨root, hroot, ?_, ?_, fun k hk => scanLibrary_other hscan hk⟩
  · intro row hrow hlib
    obtain ⟨record, ⟨dir, hdir, hrecord⟩, hkey⟩ :=
      collected_of_find?_removeUnseen h hstamps (Lib.Table.find?_key hrow) hlib
    obtain ⟨video, hvideo, hbuild⟩ := mem_collectDirectory.mp hrecord
    refine ⟨dir, video, (FileTree.mem_walkDir_iff_reachable hplain).mp hdir, hvideo, ?_⟩
    have hrel := congrArg Prod.snd (hkey.symm.trans (buildRecord_columns hbuild).1)
    exact hrel
  · intro dir video hdir hvideo
    obtain ⟨record, hrecord, hbuild⟩ := exists_collect_of_mem_masters decoders library
      root hvideo
    have hwalk := (FileTree.mem_walkDir_iff_reachable hplain).mpr hdir
    obtain ⟨row, old, hrow, hwritten, hold, -⟩ := fresh_removeUnseen h ⟨dir, hwalk, hrecord⟩
    obtain ⟨hmem, hkey⟩ := Lib.Table.find?_eq_some_iff.mp hrow
    refine ⟨row, hmem, record, hkey.trans (buildRecord_columns hbuild).1, hbuild, ?_, ?_⟩
    · rw [hwritten, copied_written hold]
    · intro row' hmem' hkey'
      exact Lib.Table.eq_of_key_eq _ hmem' hmem hkey'

/-! ## A library with one video -/

namespace OneVideo

def started : Index := { Index.openInMemory with scanGeneration := some "1" }

def scanned : Index := (scanLibrary decoders Faults.none (.still tree) library 1 started).1

theorem scanLibrary_rows_oneVideo :
    ∃ root, tree.canonicalize library.path = some root ∧
      (∀ row ∈ scanned.videos, row.record.library = library.name →
        ∃ dir video, tree.ReachableDir root dir ∧ video ∈ masters tree dir ∧
          row.record.relPath = relativeOf (dir ++ [video]) root) ∧
      (∀ dir video, tree.ReachableDir root dir → video ∈ masters tree dir →
        ∃ row ∈ scanned.videos, ∃ record,
          row.key = (library.name, relativeOf (dir ++ [video]) root) ∧
          buildRecord decoders tree library root dir video (folderNfoAllowed tree dir) =
            some record ∧
          copied row.record = copied record ∧
          ∀ row' ∈ scanned.videos, row'.key = row.key → row' = row) ∧
      ∀ k, k.1 ≠ library.name → scanned.videos.find? k = started.videos.find? k :=
  have hnext : Index.openInMemory.nextGeneration = (started, 1) := by decide
  have hearlier : scanLibraries decoders Faults.none (fun _ => .still tree) 1 [] started {} =
      (started, .ok {}) := rfl
  have hscan : scanLibrary decoders Faults.none (.still tree) library 1 started =
      (scanned, .ok { directories := 1, videos := 1, removed := 0 }) := by decide
  scanLibrary_rows Relation.ReflTransGen.refl hnext hearlier (by simp) hscan

end OneVideo

end Loku
