import Loku.Index.DirectoryView
import Mathlib.Data.Set.Basic

/-!
# The rows of one directory

`directoryRows` is what a library's rows say about one directory: for each row the columns that
a reconcile copies, and its stamp. There is one lemma for each statement of the store: a
reconcile of the directory puts its records in place of what was there, every other statement
leaves the set as it is under the condition that the lemma names. A directory is `InStep` when
its rows are those that a reconcile of its current files would leave.
-/

namespace Loku

/-- The rows of a directory: what a reconcile copies, and the stamp. -/
def directoryRows (index : Index) (library parent : String) : Set (VideoRecord × Int) :=
  {e | ∃ row ∈ index.videos, row.record.library = library ∧ row.record.parent = parent ∧
    (copied row.record, row.lastSeen) = e}

/-- The rows that records leave under a generation. -/
def stampedRows (records : List VideoRecord) (generation : Int) : Set (VideoRecord × Int) :=
  {e | ∃ record ∈ records, (copied record, generation) = e}

/-! ## Statements of the store -/

section Statements
variable {index index' : Index} {library parent : String}

theorem directoryRows_congr (h : index'.videos = index.videos) :
    directoryRows index' library parent = directoryRows index library parent := by
  unfold directoryRows
  rw [h]

theorem directoryRows_delete {p : Row → Bool} (h : index'.videos = index.videos.delete p)
    (hkept : ∀ row ∈ index.videos, row.record.library = library → row.record.parent = parent →
      p row = false) :
    directoryRows index' library parent = directoryRows index library parent := by
  ext e
  unfold directoryRows
  rw [h, Set.mem_ofPred_eq, Set.mem_ofPred_eq]
  constructor
  · rintro ⟨row, hrow, hrest⟩
    exact ⟨row, (Lib.Table.mem_delete.mp hrow).1, hrest⟩
  · rintro ⟨row, hrow, hlibrary, hparent, he⟩
    exact ⟨row, Lib.Table.mem_delete.mpr ⟨hrow, hkept row hrow hlibrary hparent⟩, hlibrary,
      hparent, he⟩

theorem directoryRows_removeTree {dirRel : String} (h : Index.inTree dirRel parent = false) :
    directoryRows (index.removeTree library dirRel).1 library parent =
      directoryRows index library parent := by
  refine directoryRows_delete rfl fun row _ _ hparent => ?_
  rw [hparent, h, Bool.and_false]

theorem directoryRows_removeUnseen {generation : Int}
    (h : ∀ e ∈ directoryRows index library parent, generation ≤ e.2) :
    directoryRows (index.removeUnseen library generation).1 library parent =
      directoryRows index library parent := by
  refine directoryRows_delete rfl fun row hrow hlibrary hparent => ?_
  have hstamp : generation ≤ row.lastSeen := h _ ⟨row, hrow, hlibrary, hparent, rfl⟩
  rw [decide_eq_false (by omega), Bool.and_false]

/-- An update of one row that keeps what a reconcile copies. -/
theorem directoryRows_updateRecord {k : RowKey} {f : VideoRecord → VideoRecord}
    (hf : ∀ r, (f r).key = r.key) (h : index'.videos = Index.updateRecord index.videos k f hf)
    (hparent : ∀ r, (f r).parent = r.parent)
    (hcopied : ∀ row ∈ index.videos, row.key = k → row.record.library = library →
      row.record.parent = parent → copied (f row.record) = copied row.record) :
    directoryRows index' library parent = directoryRows index library parent := by
  have hlibrary : ∀ r, (f r).library = r.library := fun r => congrArg Prod.fst (hf r)
  ext e
  unfold directoryRows
  rw [h, Set.mem_ofPred_eq, Set.mem_ofPred_eq]
  constructor
  · rintro ⟨row', hrow', hlib, hpar, he⟩
    obtain ⟨row, hrow, rfl⟩ := Lib.Table.mem_update.mp hrow'
    split at hlib
    · rename_i hkey
      rw [if_pos hkey] at hpar he
      have hlib' := (hlibrary row.record).symm.trans hlib
      have hpar' := (hparent row.record).symm.trans hpar
      refine ⟨row, hrow, hlib', hpar', ?_⟩
      rw [← he, hcopied row hrow (of_decide_eq_true hkey) hlib' hpar']
    · rename_i hkey
      rw [if_neg hkey] at hpar he
      exact ⟨row, hrow, hlib, hpar, he⟩
  · rintro ⟨row, hrow, hlib, hpar, he⟩
    refine ⟨_, Lib.Table.mem_update.mpr ⟨row, hrow, rfl⟩, ?_⟩
    split
    · rename_i hkey
      refine ⟨(hlibrary _).trans hlib, (hparent _).trans hpar, ?_⟩
      rw [← he, hcopied row hrow (of_decide_eq_true hkey) hlib hpar]
    · exact ⟨hlib, hpar, he⟩

theorem directoryRows_recordProbe {candidate : ProbeCandidate} {probe : ProbeResult} :
    directoryRows (index.recordProbe candidate probe) library parent =
      directoryRows index library parent :=
  directoryRows_updateRecord (f := Index.withProbe probe) (fun _ => rfl) rfl (fun _ => rfl)
    fun _ _ _ _ _ => rfl

end Statements

/-! ## Reconciling -/

section Reconcile
variable {index index' : Index} {library parent : String} {records : List VideoRecord}
  {generation : Int}

/-- A reconcile leaves what its records say. -/
theorem directoryRows_reconcile_self (hrecords : Index.DirectoryRecords library parent records)
    (h : index.reconcileDirectory library parent records generation = .ok index') :
    directoryRows index' library parent = stampedRows records generation := by
  ext e
  constructor
  · rintro ⟨row, hrow, hlibrary, hparent, rfl⟩
    rcases Index.row_of_reconcileDirectory hrecords h hrow with
      ⟨record, hrecord, hkey, hwritten, hstamp⟩ | ⟨-, helsewhere⟩
    · refine ⟨record, hrecord, ?_⟩
      rw [hwritten, hstamp, copied_written fun o ho => (Index.recordAt_key ho).trans hkey.symm]
    · -- what is not among the records is deleted
      exact absurd ⟨hlibrary, hparent⟩ helsewhere
  · rintro ⟨record, hrecord, rfl⟩
    obtain ⟨rowId, hwritten, -⟩ := Index.find?_reconcileDirectory_of_mem hrecords h hrecord
    obtain ⟨hrow, hkey⟩ := Lib.Table.find?_eq_some_iff.mp hwritten
    have hcopied : copied (Index.written record (index.recordAt record.key)) = copied record :=
      copied_written fun o ho => Index.recordAt_key ho
    have hparent := column_of_copied VideoRecord.parent (fun _ => rfl) hcopied
    refine ⟨_, hrow, ?_, hparent.trans (hrecords.parent_eq record hrecord), ?_⟩
    · exact (congrArg Prod.fst hkey).trans (hrecords.library_eq record hrecord)
    · rw [hcopied]

/-- A reconcile leaves the other directories alone, unless a record takes over one of their
rows. -/
theorem directoryRows_reconcile_other (hrecords : Index.DirectoryRecords library parent records)
    (h : index.reconcileDirectory library parent records generation = .ok index')
    {parent' : String} (hne : parent' ≠ parent)
    (hkeys : ∀ e ∈ directoryRows index library parent', ∀ record ∈ records, record.key ≠ e.1.key) :
    directoryRows index' library parent' = directoryRows index library parent' := by
  ext e
  constructor
  · rintro ⟨row, hrow, hlibrary, hparent, rfl⟩
    rcases Index.row_of_reconcileDirectory hrecords h hrow with
      ⟨record, hrecord, hkey, hwritten, -⟩ | ⟨hold, -⟩
    · have hcopied : copied row.record = copied record := by
        rw [hwritten, copied_written fun o ho => (Index.recordAt_key ho).trans hkey.symm]
      have hcolumn := column_of_copied VideoRecord.parent (fun _ => rfl) hcopied
      exact absurd (hparent.symm.trans (hcolumn.trans (hrecords.parent_eq record hrecord))) hne
    · exact ⟨row, hold, hlibrary, hparent, rfl⟩
  · rintro ⟨row, hrow, hlibrary, hparent, rfl⟩
    have hnot : ∀ record ∈ records, record.key ≠ row.key :=
      hkeys _ ⟨row, hrow, hlibrary, hparent, rfl⟩
    have hkept : index'.videos.find? row.key = some row := by
      rw [Index.find?_reconcileDirectory_of_parent_ne hrecords.library_eq h hnot]
      · exact Lib.Table.find?_key hrow
      · intro row' hrow' hparent'
        cases (Lib.Table.find?_key hrow).symm.trans hrow'
        exact hne (hparent.symm.trans hparent')
    exact ⟨row, (Lib.Table.find?_eq_some_iff.mp hkept).1, hlibrary, hparent, rfl⟩

end Reconcile

/-! ## Directories in step -/

/-- The rows of a directory are those that a reconcile of its current files would leave. -/
def InStep (decoders : Decoders) (t : FileTree) (library : Library) (root : Path)
    (generation : Int) (index : Index) (dir : Path) : Prop :=
  directoryRows index library.name (relativeOf dir root) =
    stampedRows (collectDirectory decoders t library root dir) generation

section InStep
variable {decoders : Decoders} {t t' : FileTree} {library : Library} {root dir : Path}
  {generation : Int} {index index' : Index}

theorem stampedRows_congr {records records' : List VideoRecord}
    (h : ∀ record, record ∈ records' ↔ record ∈ records) :
    stampedRows records' generation = stampedRows records generation := by
  unfold stampedRows
  simp only [h]

namespace InStep

/-- What leaves the rows of a directory alone. -/
theorem of_rows (h : InStep decoders t library root generation index dir)
    (hrows : directoryRows index' library.name (relativeOf dir root) =
      directoryRows index library.name (relativeOf dir root)) :
    InStep decoders t library root generation index' dir :=
  hrows.trans h

/-- What leaves the files of a directory alone. -/
theorem of_sameFiles (h : InStep decoders t library root generation index dir)
    (hsame : SameFiles t t' dir) (ht : PlainDir t dir) (ht' : PlainDir t' dir) :
    InStep decoders t' library root generation index dir :=
  h.trans (stampedRows_congr fun _ => mem_collectDirectory_congr hsame ht ht').symm

/-- The row of a directory in step has a record. -/
theorem exists_record (h : InStep decoders t library root generation index dir) {row : Row}
    (hrow : row ∈ index.videos) (hlibrary : row.record.library = library.name)
    (hparent : row.record.parent = relativeOf dir root) :
    ∃ record ∈ collectDirectory decoders t library root dir,
      copied row.record = copied record ∧ row.lastSeen = generation := by
  have hmem : (copied row.record, row.lastSeen) ∈
      directoryRows index library.name (relativeOf dir root) :=
    ⟨row, hrow, hlibrary, hparent, rfl⟩
  rw [h] at hmem
  obtain ⟨record, hrecord, heq⟩ := hmem
  exact ⟨record, hrecord, (congrArg Prod.fst heq).symm, (congrArg Prod.snd heq).symm⟩

theorem removeUnseen (h : InStep decoders t library root generation index dir) :
    InStep decoders t library root generation (index.removeUnseen library.name generation).1
      dir := by
  refine h.of_rows (directoryRows_removeUnseen fun e he => ?_)
  rw [h] at he
  obtain ⟨record, -, rfl⟩ := he
  exact le_rfl

/-- A reconcile of another directory. -/
theorem reconcile_other (h : InStep decoders t library root generation index dir) {dir' : Path}
    (hdir : root <+: dir) (hdir' : root <+: dir') (hne : dir ≠ dir') {generation' : Int}
    (hok : index.reconcileDirectory library.name (relativeOf dir' root)
      (collectDirectory decoders t' library root dir') generation' = .ok index') :
    InStep decoders t library root generation index' dir := by
  refine h.of_rows (directoryRows_reconcile_other
    (directoryRecords_collectDirectory _ _ _ hdir') hok
    (fun heq => hne ((relativeOf_inj hdir hdir').mp heq)) ?_)
  intro e he record hrecord hkey
  rw [h] at he
  obtain ⟨record', hrecord', rfl⟩ := he
  exact hne (collect_key_inj hdir' hdir hrecord hrecord' hkey).1.symm

/-- A reconcile with records that are still true. -/
theorem of_reconcile (hdir : root <+: dir)
    (hfresh : ∀ record, record ∈ collectDirectory decoders t' library root dir ↔
      record ∈ collectDirectory decoders t library root dir)
    (hok : index.reconcileDirectory library.name (relativeOf dir root)
      (collectDirectory decoders t' library root dir) generation = .ok index') :
    InStep decoders t library root generation index' dir :=
  (directoryRows_reconcile_self (directoryRecords_collectDirectory _ _ _ hdir) hok).trans
    (stampedRows_congr hfresh)

end InStep

end InStep

end Loku
