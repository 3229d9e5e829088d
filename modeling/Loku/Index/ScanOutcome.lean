import Loku.Index.ScanSpec
import Loku.Lib.Transaction

/-!
# When a scan goes through

The reconcile of a directory is one transaction: an upsert for each record, then one delete
whose parameters are the library, the directory and the paths of all records. SQLite refuses a
statement with more than 32766 parameters, so the transaction of a directory with more than
32764 videos is rolled back (`reconcileTransaction_ok_iff`), and the scan that has met it ends
there (`scanAll_completes_iff`). A transaction that fails for whatever reason changes nothing.
-/

namespace Loku

namespace Index

/-! ## The transaction of one directory -/

/-- The upsert of one record. -/
def upsertStatement (generation : Int) (record : VideoRecord) (working : Index) : Index :=
  { working with videos := upsertRecord generation working.videos record }

/-- The delete of what vanished from the directory. -/
def deleteStatement (library parent : String) (records : List VideoRecord) (working : Index) :
    Except SqlError Index :=
  let seen := records.map VideoRecord.relPath
  if seen.isEmpty then
    .ok { working with
      videos := working.videos.delete fun r =>
        r.record.library == library && r.record.parent == parent }
  else if seen.length + 2 ≤ maxVariables then
    .ok { working with
      videos := working.videos.delete fun r =>
        r.record.library == library && r.record.parent == parent &&
          !seen.contains r.record.relPath }
  else .error .tooManyVariables

/-- The statements between the start of the transaction and its end; the last one stands for
the commit itself. -/
def reconcileStatements (library parent : String) (records : List VideoRecord)
    (generation : Int) : List (Index → Except SqlError Index) :=
  records.map (fun record working => .ok (upsertStatement generation record working)) ++
    [deleteStatement library parent records, fun working => .ok working]

/-- `reconcile_directory`, where the database may refuse any statement. -/
def reconcileTransaction (index : Index) (refuses : Nat → Bool) (library parent : String)
    (records : List VideoRecord) (generation : Int) : Index × Except (Option SqlError) Unit :=
  Lib.transact refuses (reconcileStatements library parent records generation) index

theorem foldl_upsertStatement (generation : Int) :
    ∀ (records : List VideoRecord) (index : Index),
      records.foldl (fun working record => upsertStatement generation record working) index =
        { index with videos := records.foldl (upsertRecord generation) index.videos }
  | [], _ => rfl
  | record :: records, index => by
    rw [List.foldl_cons, foldl_upsertStatement generation records, List.foldl_cons]
    rfl

/-- Without refusals the transaction is the call as a whole. -/
theorem reconcileTransaction_eq (index : Index) (library parent : String)
    (records : List VideoRecord) (generation : Int) :
    index.reconcileTransaction (fun _ => false) library parent records generation =
      match index.reconcileDirectory library parent records generation with
      | .ok index' => (index', .ok ())
      | .error _ => (index, .error (some .tooManyVariables)) := by
  unfold reconcileTransaction reconcileStatements Lib.transact
  rw [Lib.runStatements_map_append, foldl_upsertStatement]
  simp only [Lib.runStatements, deleteStatement, reconcileDirectory, Bool.false_eq_true, if_false]
  by_cases hempty : (records.map VideoRecord.relPath).isEmpty = true
  · simp only [hempty, if_true]
  · by_cases hfits : (records.map VideoRecord.relPath).length + 2 ≤ maxVariables
    · simp only [hempty, hfits, if_true]
      rfl
    · simp only [hempty, hfits, if_false]
      rfl

/-- The rows of a directory are exactly the given records, each written over the one that was
there. -/
structure HoldsExactly (before after : Index) (library parent : String)
    (records : List VideoRecord) : Prop where
  rows : ∀ row ∈ after.videos, row.record.library = library → row.record.parent = parent →
    ∃ record ∈ records, record.key = row.key
  written : ∀ record ∈ records,
    after.recordAt record.key = some (written record (before.recordAt record.key))

theorem holdsExactly_reconcileDirectory {index index' : Index} {library parent : String}
    {records : List VideoRecord} {generation : Int}
    (hrecords : DirectoryRecords library parent records)
    (h : index.reconcileDirectory library parent records generation = .ok index') :
    HoldsExactly index index' library parent records where
  rows row hrow hlib hparent := by
    rcases row_of_reconcileDirectory hrecords h hrow with
      ⟨record, hrecord, hkey, -⟩ | ⟨-, helsewhere⟩
    · exact ⟨record, hrecord, hkey⟩
    · exact absurd ⟨hlib, hparent⟩ helsewhere
  written record hmem := by
    obtain ⟨id, hfind, -⟩ := find?_reconcileDirectory_of_mem hrecords h hmem
    exact recordAt_of_find? hfind

/-- The transaction commits exactly when the delete has not too many parameters, and then the
rows are the records. -/
theorem reconcileTransaction_ok_iff {library parent : String} {records : List VideoRecord}
    (hrecords : DirectoryRecords library parent records) (index : Index) (generation : Int) :
    ((index.reconcileTransaction (fun _ => false) library parent records generation).2 = .ok () ∧
      HoldsExactly index
        (index.reconcileTransaction (fun _ => false) library parent records generation).1
        library parent records) ↔ records.length + 2 ≤ maxVariables := by
  have hok : (∃ index', index.reconcileDirectory library parent records generation = .ok index') ↔
      records.length + 2 ≤ maxVariables := reconcileDirectory_isOk_iff
  rw [reconcileTransaction_eq, ← hok]
  cases h : index.reconcileDirectory library parent records generation with
  | ok index' => simp [holdsExactly_reconcileDirectory hrecords h]
  | error e => simp

end Index

/-! ## Scans -/

/-- The scan has gone through. -/
def Completes (outcome : Index × Except ScanError ScanStats) : Prop :=
  ∃ stats, outcome.2 = .ok stats

section Scans
variable {decoders : Decoders}

/-- No directory of a library has more videos than one delete can name. -/
def DirectoriesFit (decoders : Decoders) (disk : Disk) (library : Library) (root : Path) : Prop :=
  ∀ dir ∈ disk.walk.walkDir root,
    (collectDirectory decoders (disk.collect dir) library root dir).length + 2 ≤ Index.maxVariables

instance (disk : Disk) (library : Library) (root : Path) :
    Decidable (DirectoriesFit decoders disk library root) :=
  inferInstanceAs (Decidable (∀ dir ∈ _, _))

theorem scanDirectories_completes_iff {disk : Disk} {library : Library} {root : Path}
    {generation : Int} : ∀ (dirs : List Path) (index : Index) (stats : ScanStats),
      Completes (scanDirectories decoders .none disk library root generation dirs index stats) ↔
        ∀ dir ∈ dirs, (collectDirectory decoders (disk.collect dir) library root dir).length + 2 ≤
          Index.maxVariables
  | [], index, stats => by simp [scanDirectories, Completes]
  | dir :: dirs, index, stats => by
    have hok : (∃ index', index.reconcileDirectory library.name (relativeOf dir root)
        (collectDirectory decoders (disk.collect dir) library root dir) generation = .ok index') ↔
        (collectDirectory decoders (disk.collect dir) library root dir).length + 2 ≤
          Index.maxVariables := Index.reconcileDirectory_isOk_iff
    rw [List.forall_mem_cons, ← hok, scanDirectories]
    cases hcall : index.reconcileDirectory library.name (relativeOf dir root)
        (collectDirectory decoders (disk.collect dir) library root dir) generation with
    | ok index' =>
      have hindex : callIndex .none (.reconcileDirectory library.name (relativeOf dir root))
          (.ok index') = .ok index' := rfl
      simp only [hindex]
      rw [scanDirectories_completes_iff dirs]
      simp
    | error e =>
      simp [callIndex, Faults.none, Except.mapError, Completes]

theorem scanLibrary_completes_iff {disk : Disk} {library : Library} {root : Path}
    (hroot : disk.walk.canonicalize library.path = some root) (generation : Int) (index : Index) :
    Completes (scanLibrary decoders .none disk library generation index) ↔
      DirectoriesFit decoders disk library root := by
  have hdirs : Completes (scanDirectories decoders .none disk library root generation
      (disk.walk.walkDir root) index {}) ↔ DirectoriesFit decoders disk library root :=
    scanDirectories_completes_iff _ _ _
  rw [← hdirs]
  simp only [scanLibrary, hroot]
  cases scanDirectories decoders .none disk library root generation (disk.walk.walkDir root) index
      {} with
  | mk scanned outcome =>
    cases outcome with
    | ok stats => simp [Completes, Faults.none]
    | error e => simp [Completes]

theorem scanLibraries_completes_iff {disk : Library → Disk} {generation : Int} :
    ∀ (libraries : List Library) (index : Index) (stats : ScanStats),
      (∀ library ∈ libraries, ((disk library).walk.canonicalize library.path).isSome) →
      (Completes (scanLibraries decoders .none disk generation libraries index stats) ↔
        ∀ library ∈ libraries, ∀ root, (disk library).walk.canonicalize library.path = some root →
          DirectoriesFit decoders (disk library) library root)
  | [], index, stats, _ => by simp [scanLibraries, Completes]
  | library :: libraries, index, stats, hroots => by
    rw [List.forall_mem_cons] at hroots
    obtain ⟨hhead, htail⟩ := hroots
    obtain ⟨root, hroot⟩ := Option.isSome_iff_exists.mp hhead
    have hlibrary : Completes
        (scanLibrary decoders .none (disk library) library generation index) ↔
        DirectoriesFit decoders (disk library) library root :=
      scanLibrary_completes_iff hroot generation index
    have hfirst : (∀ root', (disk library).walk.canonicalize library.path = some root' →
        DirectoriesFit decoders (disk library) library root') ↔
        Completes (scanLibrary decoders .none (disk library) library generation index) := by
      rw [hlibrary]
      simp [hroot]
    rw [List.forall_mem_cons, hfirst, scanLibraries]
    cases scanLibrary decoders .none (disk library) library generation index with
    | mk scanned outcome =>
      cases outcome with
      | ok libraryStats =>
        simp only [scanLibraries_completes_iff libraries scanned _ htail]
        simp [Completes]
      | error e => simp [Completes]

/-- A scan of libraries that are there goes through exactly when every directory fits. -/
theorem scanAll_completes_iff {disk : Library → Disk} {libraries : List Library} {index : Index}
    (hroots : ∀ library ∈ libraries, ((disk library).walk.canonicalize library.path).isSome) :
    Completes (scanAll decoders .none disk libraries index) ↔
      ∀ library ∈ libraries, ∀ root, (disk library).walk.canonicalize library.path = some root →
        DirectoriesFit decoders (disk library) library root := by
  obtain ⟨started, generation, hnext⟩ : ∃ started generation,
      index.nextGeneration = (started, generation) := ⟨_, _, rfl⟩
  have hlibraries : Completes (scanLibraries decoders .none disk generation
      libraries started {}) ↔ ∀ library ∈ libraries, ∀ root,
        (disk library).walk.canonicalize library.path = some root →
        DirectoriesFit decoders (disk library) library root :=
    scanLibraries_completes_iff libraries started {} hroots
  rw [← hlibraries]
  have hscan : ∀ call, ¬ Faults.none call = true := fun _ h => Bool.false_ne_true h
  unfold scanAll
  rw [if_neg (hscan _)]
  simp only [hnext]
  cases scanLibraries decoders .none disk generation libraries started {} with
  | mk scanned outcome =>
    cases outcome with
    | ok stats => simp [Completes, hscan]
    | error e => simp [Completes]

end Scans

/-- The reconcile of a directory commits and leaves exactly its records, and a full scan goes
through, if and only if no directory has more than 32764 videos. What fails changes nothing. -/
theorem directorySize_iff (decoders : Decoders) :
    (∀ (index : Index) (library parent : String) (records : List VideoRecord) (generation : Int),
      Index.DirectoryRecords library parent records →
      ((index.reconcileTransaction (fun _ => false) library parent records generation).2 = .ok () ∧
        Index.HoldsExactly index
          (index.reconcileTransaction (fun _ => false) library parent records generation).1
          library parent records ↔ records.length + 2 ≤ Index.maxVariables)) ∧
    (∀ (disk : Library → Disk) (libraries : List Library) (index : Index),
      (∀ library ∈ libraries, ((disk library).walk.canonicalize library.path).isSome) →
      (Completes (scanAll decoders .none disk libraries index) ↔
        ∀ library ∈ libraries, ∀ root, (disk library).walk.canonicalize library.path = some root →
          DirectoriesFit decoders (disk library) library root)) ∧
    ∀ (refuses : Nat → Bool) (index : Index) (library parent : String)
      (records : List VideoRecord) (generation : Int) (e : Option SqlError),
      (index.reconcileTransaction refuses library parent records generation).2 = .error e →
      (index.reconcileTransaction refuses library parent records generation).1 = index := by
  refine ⟨?_, ?_, ?_⟩
  · intro index library parent records generation hrecords
    exact Index.reconcileTransaction_ok_iff hrecords index generation
  · intro disk libraries index hroots
    exact scanAll_completes_iff hroots
  · intro refuses index library parent records generation e h
    exact Lib.transact_of_error h

/-! ## A directory that fits and one that does not -/

/-- Three videos directly in one library. -/
def threeRecords : List VideoRecord :=
  ["A.mkv", "B.mkv", "C.mkv"].map fun name => .placed "movies" name "" name 3 5

/-- The index after an earlier scan found one of them and one that is gone. -/
def twoRows : Index :=
  { Index.openInMemory with
    videos := ["B.mkv", "Gone.mkv"].foldl
      (fun videos name => Index.upsertRecord 1 videos (.placed "movies" name "" name 3 5))
      .empty
    scanGeneration := some "1" }

theorem directorySize_threeRecords :
    ((twoRows.reconcileTransaction (fun _ => false) "movies" "" threeRecords 2).2 = .ok () ∧
      Index.HoldsExactly twoRows
        (twoRows.reconcileTransaction (fun _ => false) "movies" "" threeRecords 2).1
        "movies" "" threeRecords) ∧
    (Completes (scanAll OneVideo.decoders .none (fun _ => .still OneVideo.tree)
        [OneVideo.library] .openInMemory) ↔
      ∀ library ∈ [OneVideo.library], ∀ root,
        OneVideo.tree.canonicalize library.path = some root →
        DirectoriesFit OneVideo.decoders (.still OneVideo.tree) library root) ∧
    (twoRows.reconcileTransaction (fun n => n == 2) "movies" "" threeRecords 2).1 = twoRows :=
  ⟨((directorySize_iff OneVideo.decoders).1 twoRows "movies" "" threeRecords 2
      ⟨by decide, by decide, by decide⟩).mpr (by decide),
    (directorySize_iff OneVideo.decoders).2.1 (fun _ => .still OneVideo.tree) [OneVideo.library]
      .openInMemory (by decide),
    (directorySize_iff OneVideo.decoders).2.2 (fun n => n == 2) twoRows "movies" "" threeRecords 2
      none (by decide)⟩

/-- Videos `0.mkv`, `1.mkv` and so on, directly in one library. -/
def manyRecords : List VideoRecord :=
  (List.range 32765).map fun i =>
    .placed "movies" (toString i ++ ".mkv") "" (toString i ++ ".mkv") 3 5

theorem directoryRecords_manyRecords : Index.DirectoryRecords "movies" "" manyRecords where
  library_eq r hr := by
    obtain ⟨i, -, rfl⟩ := List.mem_map.mp hr
    rfl
  parent_eq r hr := by
    obtain ⟨i, -, rfl⟩ := List.mem_map.mp hr
    rfl
  nodup := by
    unfold manyRecords
    rw [List.map_map]
    apply List.Nodup.map _ List.nodup_range
    intro i j h
    have htext : toString i = toString j :=
      String.append_left_inj _ |>.mp (congrArg Prod.snd h)
    have hread := congrArg (fun s : String => Lib.readNat s.toList) htext
    change Lib.readNat i.repr.toList = Lib.readNat j.repr.toList at hread
    rw [Lib.readNat_repr, Lib.readNat_repr] at hread
    exact Option.some.inj hread

/-- The transaction of a directory with 32765 videos does not commit. -/
theorem manyRecords_not_committed :
    Index.DirectoryRecords "movies" "" manyRecords ∧
      (Index.openInMemory.reconcileTransaction (fun _ => false) "movies" "" manyRecords 1).2 ≠
        .ok () := by
  refine ⟨directoryRecords_manyRecords, ?_⟩
  intro hok
  have hmany : manyRecords.length = 32765 := by simp [manyRecords]
  rw [Index.reconcileTransaction_eq] at hok
  have hfits : (∃ index', Index.openInMemory.reconcileDirectory "movies" "" manyRecords 1 =
      .ok index') ↔ manyRecords.length + 2 ≤ Index.maxVariables :=
    Index.reconcileDirectory_isOk_iff
  cases h : Index.openInMemory.reconcileDirectory "movies" "" manyRecords 1 with
  | ok index' =>
    have hle := hfits.mp ⟨index', h⟩
    unfold Index.maxVariables at hle
    omega
  | error e =>
    simp [h] at hok

end Loku
