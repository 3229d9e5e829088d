import Loku.Index.FlushSpec
import Loku.Media.Probe
import Loku.Media.Worker
import Loku.Index.ScanSpec

/-!
# Histories of the index

A `MaintenanceWrite` is one committed call on the index as the scanner, the watcher and the
probe pass make them: a reconcile of what some tree holds in some directory, under a stamp that
is not above the counter, and the other statements with arbitrary arguments. A `WorkerWrite` is
one of the worker's. Every history of the program, whatever is interrupted, refused or
interleaved, is a sequence of writes from the empty database; the program's own operations are
such sequences (`rowWrites_scanAll`, `rowWrites_flush`, `writes_probePending`,
`writes_processNext`). `ReachableIndex` are the states of histories that draw fewer than
`2^63 - 1` generations: the next one drawn after those wraps around.

No write of such a history puts a stamp above the counter (`stampsBelow_of_reachable`).
-/

namespace Loku

/-- A call of the scanner or the watcher. -/
inductive ScanWrite (decoders : Decoders) : Index → Index → Prop
  | nextGeneration {index index' : Index} {generation : Int}
      (h : index.nextGeneration = (index', generation)) : ScanWrite decoders index index'
  | reconcileDirectory {index index' : Index} (t : FileTree) (library : Library)
      (root dir : Path) (generation : Int) (hstamp : generation ≤ index.currentGeneration)
      (h : index.reconcileDirectory library.name (relativeOf dir root)
        (collectDirectory decoders t library root dir) generation = .ok index') :
      ScanWrite decoders index index'
  | removeUnseen (index : Index) (library : String) (generation : Int) :
      ScanWrite decoders index (index.removeUnseen library generation).1
  | removeTree (index : Index) (library dirRel : String) :
      ScanWrite decoders index (index.removeTree library dirRel).1

inductive MaintenanceWrite (decoders : Decoders) : Index → Index → Prop
  | scan {index index' : Index} (h : ScanWrite decoders index index') :
      MaintenanceWrite decoders index index'
  | recordProbe (index : Index) (candidate : ProbeCandidate) (probe : ProbeResult) :
      MaintenanceWrite decoders index (index.recordProbe candidate probe)

inductive WorkerWrite : Index → Index → Prop
  | setCompat (index : Index) (library relPath compat : String) :
      WorkerWrite index (index.setCompat library relPath compat)
  | setThumb (index : Index) (library relPath thumb : String) :
      WorkerWrite index (index.setThumb library relPath thumb)
  | recordDerivationFailure (index : Index) (library relPath : String) (size mtime : Int)
      (error : String) :
      WorkerWrite index (index.recordDerivationFailure library relPath size mtime error)

abbrev ScanWrites (decoders : Decoders) : Index → Index → Prop :=
  Relation.ReflTransGen (ScanWrite decoders)

/-- Any number of maintenance writes. -/
abbrev Writes (decoders : Decoders) : Index → Index → Prop :=
  Relation.ReflTransGen (MaintenanceWrite decoders)

def Write (decoders : Decoders) (index index' : Index) : Prop :=
  MaintenanceWrite decoders index index' ∨ WorkerWrite index index'

/-- The states of the index after any history in which the counter stays below the largest
`i64`. -/
def ReachableIndex (decoders : Decoders) (index : Index) : Prop :=
  Relation.ReflTransGen (fun before after => Write decoders before after ∧ after.HasRoom)
    Index.openInMemory index

theorem hasRoom_of_reachable {decoders : Decoders} {index : Index}
    (h : ReachableIndex decoders index) : index.HasRoom := by
  rcases Relation.ReflTransGen.cases_tail h with rfl | ⟨_, _, _, hroom⟩
  · exact Index.hasRoom_openInMemory
  · exact hroom

/-! ## The program's operations are writes -/

theorem ScanWrites.writes {decoders : Decoders} {index index' : Index}
    (h : ScanWrites decoders index index') : Writes decoders index index' :=
  Relation.ReflTransGen.mono (fun _ _ => .scan) _ _ h

/-- Calls under one generation: any number of them that leave the counter. -/
def RowWrites (decoders : Decoders) : Index → Index → Prop :=
  Relation.ReflTransGen fun before after =>
    ScanWrite decoders before after ∧ after.scanGeneration = before.scanGeneration

namespace RowWrites
variable {decoders : Decoders} {index index' index'' : Index}

theorem refl (index : Index) : RowWrites decoders index index := Relation.ReflTransGen.refl

theorem trans (h : RowWrites decoders index index') (h' : RowWrites decoders index' index'') :
    RowWrites decoders index index'' := Relation.ReflTransGen.trans h h'

theorem single (h : ScanWrite decoders index index')
    (hcounter : index'.scanGeneration = index.scanGeneration) : RowWrites decoders index index' :=
  Relation.ReflTransGen.single ⟨h, hcounter⟩

theorem scanWrites (h : RowWrites decoders index index') : ScanWrites decoders index index' :=
  Relation.ReflTransGen.mono (fun _ _ hw => hw.1) _ _ h

theorem currentGeneration_eq (h : RowWrites decoders index index') :
    index'.currentGeneration = index.currentGeneration := by
  unfold RowWrites at h
  induction h with
  | refl => rfl
  | tail _ hw ih => exact (Index.currentGeneration_congr hw.2).trans ih

theorem reachable (h : RowWrites decoders index index') (hreach : ReachableIndex decoders index) :
    ReachableIndex decoders index' := by
  unfold RowWrites at h
  induction h with
  | refl => exact hreach
  | tail _ hw ih =>
    have hroom := hasRoom_of_reachable ih
    unfold Index.HasRoom at hroom
    rw [← Index.currentGeneration_congr hw.2] at hroom
    exact ih.tail ⟨.inl (.scan hw.1), hroom⟩

end RowWrites

section Operations
variable (decoders : Decoders) (faults : Faults)

theorem rowWrites_scanDirectories (disk : Disk) (library : Library) (root : Path)
    {generation : Int} :
    ∀ (dirs : List Path) (index : Index) (stats : ScanStats),
      generation ≤ index.currentGeneration →
      RowWrites decoders index
        (scanDirectories decoders faults disk library root generation dirs index stats).1
  | [], index, stats, _ => .refl index
  | dir :: dirs, index, stats, hstamp => by
    unfold scanDirectories
    dsimp only
    split
    · exact .refl index
    · rename_i index' hcall
      have hreconcile := (callIndex_ok_iff.mp hcall).2
      have hcounter := (Index.reconcileDirectory_frame hreconcile).2.2.2
      have hcurrent := Index.currentGeneration_congr hcounter
      have hrest := rowWrites_scanDirectories disk library root dirs index'
        (stats.merged
          { directories := 1
            videos := (collectDirectory decoders (disk.collect dir) library root dir).length })
        (hcurrent ▸ hstamp)
      exact .trans (.single (.reconcileDirectory (disk.collect dir) library root dir generation
        hstamp hreconcile) hcounter) hrest

theorem rowWrites_scanLibrary (disk : Disk) (library : Library) {generation : Int} {index : Index}
    (hstamp : generation ≤ index.currentGeneration) :
    RowWrites decoders index (scanLibrary decoders faults disk library generation index).1 := by
  unfold scanLibrary
  split
  · exact .refl index
  · rename_i root _
    have h := rowWrites_scanDirectories decoders faults disk library root (disk.walk.walkDir root)
      index {} hstamp
    split
    · rename_i scanned _ hdirs
      rw [hdirs] at h
      exact h
    · rename_i scanned _ hdirs
      rw [hdirs] at h
      split
      · exact h
      · exact h.trans (.single (.removeUnseen scanned library.name generation) rfl)

theorem rowWrites_scanLibraries (disk : Library → Disk) {generation : Int} :
    ∀ (libraries : List Library) (index : Index) (stats : ScanStats),
      generation ≤ index.currentGeneration →
      RowWrites decoders index
        (scanLibraries decoders faults disk generation libraries index stats).1
  | [], index, stats, _ => .refl index
  | library :: libraries, index, stats, hstamp => by
    have h := rowWrites_scanLibrary decoders faults (disk library) library hstamp
    unfold scanLibraries
    split
    · rename_i scanned _ hscan
      rw [hscan] at h
      exact h
    · rename_i scanned libraryStats hscan
      rw [hscan] at h
      have hcurrent := h.currentGeneration_eq
      exact h.trans (rowWrites_scanLibraries disk libraries scanned (stats.merged libraryStats)
        (hcurrent ▸ hstamp))

variable {decoders}

/-- A scan of all libraries, complete or cut short, changes nothing or draws a generation and
writes under it. -/
theorem rowWrites_scanAll (disk : Library → Disk) (libraries : List Library) (index : Index) :
    (scanAll decoders faults disk libraries index).1 = index ∨
      RowWrites decoders index.nextGeneration.1
        (scanAll decoders faults disk libraries index).1 := by
  unfold scanAll
  split
  · exact Or.inl rfl
  · obtain ⟨started, generation, hnext⟩ : ∃ started generation,
        index.nextGeneration = (started, generation) := ⟨_, _, rfl⟩
    rw [hnext]
    dsimp only
    have hcurrent := (Index.nextGeneration_spec hnext).2.1
    have h := rowWrites_scanLibraries decoders faults disk libraries started {} hcurrent.ge
    right
    split
    · rename_i scanned _ hscan
      rw [hscan] at h
      exact h
    · rename_i scanned _ hscan
      rw [hscan] at h
      split <;> exact h

variable {faults}

theorem scanWrites_scanAll (disk : Library → Disk) (libraries : List Library) (index : Index) :
    ScanWrites decoders index (scanAll decoders faults disk libraries index).1 := by
  rcases rowWrites_scanAll faults disk libraries index with heq | h
  · rw [heq]
  · exact .head (.nextGeneration rfl) h.scanWrites

/-- Where the counter can still be advanced after a scan, the scan leads to a state of a
history again. -/
theorem ReachableIndex.scanAll {index : Index} (h : ReachableIndex decoders index)
    (hroom : index.nextGeneration.1.HasRoom) (disk : Library → Disk) (libraries : List Library) :
    ReachableIndex decoders (scanAll decoders faults disk libraries index).1 := by
  rcases rowWrites_scanAll faults disk libraries index with heq | hrows
  · rwa [heq]
  · exact hrows.reachable (h.tail ⟨.inl (.scan (.nextGeneration rfl)), hroom⟩)

theorem rowWrites_reconcileOrSkip {disk : Disk} {library : Library} {generation : Int}
    {index : Index} (dir : Path) (hstamp : generation ≤ index.currentGeneration) :
    RowWrites decoders index
      (reconcileOrSkip decoders faults disk library generation index dir) := by
  unfold reconcileOrSkip reconcileDirectory
  split
  · rename_i index' hreconcile
    split at hreconcile
    · cases hreconcile
    · rename_i root _
      have hok := (callIndex_ok_iff.mp hreconcile).2
      exact .single (.reconcileDirectory (disk.collect dir) library root dir generation hstamp hok)
        (Index.reconcileDirectory_frame hok).2.2.2
  · exact .refl index

/-- A fold whose every step is a sequence of writes under a stamp that stays valid. -/
theorem rowWrites_foldl {α : Type} {generation : Int} {step : Index → α → Index}
    (hstep : ∀ index a, generation ≤ index.currentGeneration →
      RowWrites decoders index (step index a)) :
    ∀ (as : List α) (index : Index), generation ≤ index.currentGeneration →
      RowWrites decoders index (as.foldl step index)
  | [], index, _ => .refl index
  | a :: as, index, hstamp => by
    have hfirst := hstep index a hstamp
    exact hfirst.trans (rowWrites_foldl hstep as (step index a)
      (hfirst.currentGeneration_eq ▸ hstamp))

/-- A flush, with any of its calls refused. -/
theorem rowWrites_flush (disk : Disk) (roots : List (Library × Path)) (dirty : List Dirty)
    (index : Index) : RowWrites decoders index (flush decoders faults disk roots dirty index) := by
  unfold flush
  split
  · exact .refl index
  · dsimp only
    have hremove : ∀ index' d, index.currentGeneration ≤ index'.currentGeneration →
        RowWrites decoders index' (removeVanished faults roots index' d) := by
      intro index' d _
      unfold removeVanished
      split
      · exact .refl index'
      · dsimp only
        split
        · exact .refl index'
        · exact .single (.removeTree index' _ _) rfl
    have hremoved := rowWrites_foldl hremove
      (pruneNested (dirty.filter fun d => !disk.walk.isDir d.2)) index le_rfl
    refine hremoved.trans (rowWrites_foldl ?_ _ _ hremoved.currentGeneration_eq.ge)
    intro index' d hstamp
    unfold reconcileLive
    split
    · exact .refl index'
    · exact rowWrites_foldl (fun i dir h => rowWrites_reconcileOrSkip dir h) _ _ hstamp

theorem writes_recorded (candidate : ProbeCandidate) (probe : ProbeResult) (index : Index) :
    Writes decoders index (recorded faults candidate probe index).1 := by
  unfold recorded
  split
  · exact .refl
  · exact .single (.recordProbe index candidate probe)

theorem writes_probeCandidate (runner : ProbeRunner) (libraries : List Library) (index : Index)
    (candidate : ProbeCandidate) :
    Writes decoders index (probeCandidate faults runner libraries index candidate).1 := by
  unfold probeCandidate
  split
  · exact .refl
  · split
    · exact .refl
    · split
      · exact writes_recorded ..
      · split
        · exact writes_recorded ..
        · split
          · exact writes_recorded ..
          · exact .refl

/-- A probe pass. -/
theorem writes_probePending (runner : ProbeRunner) (libraries : List Library) (index : Index) :
    Writes decoders index (probePending faults runner libraries index).1 := by
  unfold probePending
  split
  · exact .refl
  · generalize index.videosNeedingProbe = candidates
    have hfold : ∀ acc : Index × Nat, Writes decoders acc.1
        (candidates.foldl (probeStep faults runner libraries) acc).1 := by
      induction candidates with
      | nil => exact fun acc => .refl
      | cons c candidates ih =>
        intro acc
        exact (writes_probeCandidate runner libraries acc.1 c).trans
          (ih (probeStep faults runner libraries acc c))
    exact hfold (index, 0)

theorem workerWrites_recordJobFailure (refused : Refusals) (index : Index) (record : VideoRecord)
    (error : JobError) :
    Relation.ReflTransGen WorkerWrite index (recordJobFailure refused index record error) := by
  unfold recordJobFailure
  split
  · exact .refl
  · exact .single (.recordDerivationFailure index _ _ _ _ _)

theorem workerWrites_thumbnailStep (refused : Refusals) (outcome : JobOutcome) (index : Index)
    (job : Job) :
    Relation.ReflTransGen WorkerWrite index (thumbnailStep refused outcome index job) := by
  unfold thumbnailStep
  split
  · split
    · split
      · exact .refl
      · exact .single (.setThumb index _ _ _)
    · exact workerWrites_recordJobFailure ..
  · exact .refl

/-- One step of the worker. -/
theorem writes_processNext (libraries : List Library) (refused : Refusals) (outcome : JobOutcome)
    (index : Index) :
    Relation.ReflTransGen WorkerWrite index (processNext libraries refused outcome index).1 := by
  unfold processNext
  split
  · exact .refl
  · rename_i job _
    unfold runJob
    split
    · exact workerWrites_thumbnailStep ..
    · split
      · refine .trans ?_ (workerWrites_thumbnailStep ..)
        unfold recordCompat
        split
        · exact .refl
        · exact .single (.setCompat index _ _ _)
      · exact workerWrites_recordJobFailure ..

end Operations

/-- A scan leaves the probe cache. -/
theorem probeCache_of_scanWrite {decoders : Decoders} {index index' : Index}
    (h : ScanWrite decoders index index') : index'.probeCache = index.probeCache := by
  cases h with
  | nextGeneration hnext => exact (Index.nextGeneration_spec hnext).2.2.2.1
  | reconcileDirectory t library root dir generation hstamp hok =>
    exact (Index.reconcileDirectory_frame hok).1
  | removeUnseen library generation => rfl
  | removeTree library dirRel => rfl

/-- Maintenance leaves the recorded failures alone. -/
theorem derivationFailures_of_writes {decoders : Decoders} {index index' : Index}
    (h : Writes decoders index index') : index'.derivationFailures = index.derivationFailures := by
  induction h with
  | refl => rfl
  | tail _ hw ih =>
    refine .trans ?_ ih
    cases hw with
    | scan hw =>
      cases hw with
      | nextGeneration hnext => exact (Index.nextGeneration_spec hnext).2.2.2.2
      | reconcileDirectory t library root dir generation hstamp hok =>
        exact (Index.reconcileDirectory_frame hok).2.1
      | removeUnseen library generation => rfl
      | removeTree library dirRel => rfl
    | recordProbe candidate probe => rfl

/-! ## Stamps -/

theorem lastSeen_of_mem_upsertRecord {videos : Lib.Table Row.key} {record : VideoRecord}
    {generation : Int} {r : Row} (h : r ∈ Index.upsertRecord generation videos record) :
    r ∈ videos ∨ r.lastSeen = generation := by
  rcases Lib.Table.mem_upsert.mp h with ⟨hr, -⟩ | rfl
  · exact Or.inl hr
  · right
    unfold Lib.Table.upserted
    cases videos.find? _ <;> rfl

theorem lastSeen_of_mem_foldl {generation : Int} {r : Row} :
    ∀ (records : List VideoRecord) (videos : Lib.Table Row.key),
      r ∈ records.foldl (Index.upsertRecord generation) videos →
      r ∈ videos ∨ r.lastSeen = generation
  | [], _, h => Or.inl h
  | record :: records, videos, h => by
    rcases lastSeen_of_mem_foldl records _ h with h | h
    · exact lastSeen_of_mem_upsertRecord h
    · exact Or.inr h

theorem lastSeen_of_mem_updateRecord {videos : Lib.Table Row.key} {k : RowKey}
    {f : VideoRecord → VideoRecord} (hf : ∀ r, (f r).key = r.key) {r : Row}
    (h : r ∈ Index.updateRecord videos k f hf) : ∃ r₀ ∈ videos, r.lastSeen = r₀.lastSeen := by
  obtain ⟨r₀, hr₀, rfl⟩ := Lib.Table.mem_update.mp h
  refine ⟨r₀, hr₀, ?_⟩
  split <;> rfl

theorem ScanWrite.stampsBelow {decoders : Decoders} {index index' : Index}
    (h : index.StampsBelow) (hroom : index.HasRoom) (hw : ScanWrite decoders index index') :
    index'.StampsBelow := by
  cases hw with
  | nextGeneration hnext =>
    obtain ⟨-, hcur, hvideos, -⟩ := Index.nextGeneration_spec hnext
    have hgen := hroom.generation hnext
    intro r hr
    rw [hvideos] at hr
    have := h r hr
    omega
  | reconcileDirectory t library root dir generation hstamp hok =>
    have hcounter := (Index.reconcileDirectory_frame hok).2.2.2
    intro r hr
    rw [Index.currentGeneration_congr hcounter]
    rw [Index.reconcileDirectory_videos hok] at hr
    rcases lastSeen_of_mem_foldl _ _ (Lib.Table.mem_delete.mp hr).1 with hr | hr
    · exact h r hr
    · rw [hr]
      exact hstamp
  | removeUnseen library generation => exact fun r hr => h r (Lib.Table.mem_delete.mp hr).1
  | removeTree library dirRel => exact fun r hr => h r (Lib.Table.mem_delete.mp hr).1

theorem MaintenanceWrite.stampsBelow {decoders : Decoders} {index index' : Index}
    (h : index.StampsBelow) (hroom : index.HasRoom)
    (hw : MaintenanceWrite decoders index index') : index'.StampsBelow := by
  cases hw with
  | scan hw => exact hw.stampsBelow h hroom
  | recordProbe candidate probe =>
    intro r hr
    obtain ⟨r₀, hr₀, heq⟩ := lastSeen_of_mem_updateRecord
      (f := Index.withProbe probe) (fun _ => rfl) hr
    exact heq ▸ h r₀ hr₀

theorem WorkerWrite.stampsBelow {index index' : Index} (h : index.StampsBelow)
    (hw : WorkerWrite index index') : index'.StampsBelow := by
  cases hw with
  | setCompat library relPath compat =>
    intro r hr
    obtain ⟨r₀, hr₀, heq⟩ := lastSeen_of_mem_updateRecord
      (f := Index.withCompat compat) (fun _ => rfl) hr
    exact heq ▸ h r₀ hr₀
  | setThumb library relPath thumb =>
    intro r hr
    obtain ⟨r₀, hr₀, heq⟩ := lastSeen_of_mem_updateRecord
      (f := Index.withThumb thumb) (fun _ => rfl) hr
    exact heq ▸ h r₀ hr₀
  | recordDerivationFailure library relPath size mtime error => exact h

/-- No stamp lies above the counter, after any such history. -/
theorem stampsBelow_of_reachable {decoders : Decoders} {index : Index}
    (h : ReachableIndex decoders index) : index.StampsBelow := by
  unfold ReachableIndex at h
  induction h with
  | refl => exact Index.stampsBelow_openInMemory
  | tail hbefore hw ih =>
    rcases hw.1 with hw | hw
    · exact hw.stampsBelow ih (hasRoom_of_reachable hbefore)
    · exact hw.stampsBelow ih


/-! ## What holds of every row -/

/-- A property of records that all rows have. -/
def RowsSatisfy (P : VideoRecord → Prop) (index : Index) : Prop := ∀ r ∈ index.videos, P r.record

/-- A property that every collected record has and that the updates of a row keep. -/
structure RowProperty (decoders : Decoders) (P : VideoRecord → Prop) : Prop where
  stored : ∀ (t : FileTree) (library : Library) (root dir : Path), ∀ record ∈
    collectDirectory decoders t library root dir, P (Index.stored record)
  conflict : ∀ (t : FileTree) (library : Library) (root dir : Path), ∀ record ∈
    collectDirectory decoders t library root dir, ∀ old : VideoRecord, old.key = record.key →
      P old → P (Index.conflictUpdate (Index.stored record) old)
  probe : ∀ probe record, P record → P (Index.withProbe probe record)
  compat : ∀ compat record, P record → P (Index.withCompat compat record)
  thumb : ∀ thumb record, P record → P (Index.withThumb thumb record)

section RowsSatisfy
variable {decoders : Decoders} {P : VideoRecord → Prop}

theorem forall_mem_foldl {generation : Int} :
    ∀ (records : List VideoRecord) (videos : Lib.Table Row.key),
      (∀ record ∈ records, P (Index.stored record)) →
      (∀ record ∈ records, ∀ old : VideoRecord, old.key = record.key → P old →
        P (Index.conflictUpdate (Index.stored record) old)) →
      (∀ r ∈ videos, P r.record) →
      ∀ r ∈ records.foldl (Index.upsertRecord generation) videos, P r.record
  | [], _, _, _, h => h
  | record :: records, videos, hstored, hconflict, h => by
    refine forall_mem_foldl records _ (fun r hr => hstored r (List.mem_cons_of_mem _ hr))
      (fun r hr => hconflict r (List.mem_cons_of_mem _ hr)) ?_
    intro r hr
    rcases Lib.Table.mem_upsert.mp hr with ⟨hr, -⟩ | rfl
    · exact h r hr
    · unfold Lib.Table.upserted
      have hkey : Row.key ⟨Index.nextId videos, Index.stored record, generation⟩ = record.key := rfl
      rw [hkey]
      cases hold : videos.find? record.key with
      | none => exact hstored record List.mem_cons_self
      | some old =>
        obtain ⟨hmem, hk⟩ := Lib.Table.find?_eq_some_iff.mp hold
        exact hconflict record List.mem_cons_self old.record hk (h old hmem)

theorem forall_mem_updateRecord {videos : Lib.Table Row.key} {k : RowKey}
    {f : VideoRecord → VideoRecord} (hf : ∀ r, (f r).key = r.key)
    (hP : ∀ record, P record → P (f record)) (h : ∀ r ∈ videos, P r.record) :
    ∀ r ∈ Index.updateRecord videos k f hf, P r.record := by
  intro r hr
  obtain ⟨r₀, hr₀, rfl⟩ := Lib.Table.mem_update.mp hr
  split
  · exact hP _ (h r₀ hr₀)
  · exact h r₀ hr₀

/-- The records collected from a directory have the property, new and over an old row. -/
structure CollectKeeps (decoders : Decoders) (P : VideoRecord → Prop) (t : FileTree)
    (library : Library) (root dir : Path) : Prop where
  stored : ∀ record ∈ collectDirectory decoders t library root dir, P (Index.stored record)
  conflict : ∀ record ∈ collectDirectory decoders t library root dir, ∀ old : VideoRecord,
    old.key = record.key → P old → P (Index.conflictUpdate (Index.stored record) old)

theorem RowsSatisfy.reconcileDirectory {index index' : Index} {t : FileTree} {library : Library}
    {root dir : Path} {generation : Int} (h : RowsSatisfy P index)
    (hkeeps : CollectKeeps decoders P t library root dir)
    (hok : index.reconcileDirectory library.name (relativeOf dir root)
      (collectDirectory decoders t library root dir) generation = .ok index') :
    RowsSatisfy P index' := by
  intro r hr
  rw [Index.reconcileDirectory_videos hok] at hr
  exact forall_mem_foldl _ _ hkeeps.stored hkeeps.conflict h r (Lib.Table.mem_delete.mp hr).1

theorem RowsSatisfy.nextGeneration {index index' : Index} {generation : Int}
    (h : RowsSatisfy P index) (hnext : index.nextGeneration = (index', generation)) :
    RowsSatisfy P index' := by
  obtain ⟨-, -, hvideos, -⟩ := Index.nextGeneration_spec hnext
  intro r hr
  rw [hvideos] at hr
  exact h r hr

/-- A property of every collected record that the conflict clause keeps. -/
theorem RowsSatisfy.scanWrite {index index' : Index} (h : RowsSatisfy P index)
    (hstored : ∀ (t : FileTree) (library : Library) (root dir : Path), ∀ record ∈
      collectDirectory decoders t library root dir, P (Index.stored record))
    (hconflict : ∀ (t : FileTree) (library : Library) (root dir : Path), ∀ record ∈
      collectDirectory decoders t library root dir, ∀ old : VideoRecord, old.key = record.key →
      P old → P (Index.conflictUpdate (Index.stored record) old))
    (hw : ScanWrite decoders index index') : RowsSatisfy P index' := by
  cases hw with
  | nextGeneration hnext => exact h.nextGeneration hnext
  | reconcileDirectory t library root dir generation hstamp hok =>
    exact h.reconcileDirectory ⟨hstored t library root dir, hconflict t library root dir⟩ hok
  | removeUnseen library generation => exact fun r hr => h r (Lib.Table.mem_delete.mp hr).1
  | removeTree library dirRel => exact fun r hr => h r (Lib.Table.mem_delete.mp hr).1

theorem RowsSatisfy.maintenanceWrite (hP : RowProperty decoders P) {index index' : Index}
    (h : RowsSatisfy P index) (hw : MaintenanceWrite decoders index index') :
    RowsSatisfy P index' := by
  cases hw with
  | scan hw => exact h.scanWrite hP.stored hP.conflict hw
  | recordProbe candidate probe =>
    exact forall_mem_updateRecord (f := Index.withProbe probe) (fun _ => rfl) (hP.probe probe) h

theorem RowsSatisfy.workerWrite (hP : RowProperty decoders P) {index index' : Index}
    (h : RowsSatisfy P index) (hw : WorkerWrite index index') : RowsSatisfy P index' := by
  cases hw with
  | setCompat library relPath compat =>
    exact forall_mem_updateRecord (f := Index.withCompat compat) (fun _ => rfl) (hP.compat compat) h
  | setThumb library relPath thumb =>
    exact forall_mem_updateRecord (f := Index.withThumb thumb) (fun _ => rfl) (hP.thumb thumb) h
  | recordDerivationFailure library relPath size mtime error => exact h

theorem RowsSatisfy.writes (hP : RowProperty decoders P) {index index' : Index}
    (h : RowsSatisfy P index) (hw : Writes decoders index index') : RowsSatisfy P index' := by
  induction hw with
  | refl => exact h
  | tail _ hw ih => exact ih.maintenanceWrite hP hw

theorem RowsSatisfy.workerWrites (hP : RowProperty decoders P) {index index' : Index}
    (h : RowsSatisfy P index) (hw : Relation.ReflTransGen WorkerWrite index index') :
    RowsSatisfy P index' := by
  induction hw with
  | refl => exact h
  | tail _ hw ih => exact ih.workerWrite hP hw

/-! ### Directory by directory -/

variable {faults : Faults}

theorem RowsSatisfy.scanDirectories {disk : Disk} {library : Library} {root : Path}
    {generation : Int} :
    ∀ (dirs : List Path) (index : Index) (stats : ScanStats),
      (∀ dir ∈ dirs, CollectKeeps decoders P (disk.collect dir) library root dir) →
      RowsSatisfy P index →
      RowsSatisfy P
        (scanDirectories decoders faults disk library root generation dirs index stats).1
  | [], _, _, _, h => h
  | dir :: dirs, index, stats, hkeeps, h => by
    unfold Loku.scanDirectories
    dsimp only
    split
    · exact h
    · rename_i index' hcall
      have hok := (callIndex_ok_iff.mp hcall).2
      exact RowsSatisfy.scanDirectories dirs _ _
        (fun dir' hdir' => hkeeps dir' (List.mem_cons_of_mem _ hdir'))
        (h.reconcileDirectory (hkeeps dir List.mem_cons_self) hok)

theorem RowsSatisfy.scanLibrary {disk : Disk} {library : Library} {generation : Int}
    {index : Index} (h : RowsSatisfy P index)
    (hkeeps : ∀ root, disk.walk.canonicalize library.path = some root →
      ∀ dir ∈ disk.walk.walkDir root,
        CollectKeeps decoders P (disk.collect dir) library root dir) :
    RowsSatisfy P (scanLibrary decoders faults disk library generation index).1 := by
  unfold Loku.scanLibrary
  split
  · exact h
  · rename_i root hroot
    have hdirs : RowsSatisfy P (Loku.scanDirectories decoders faults disk library root generation
        (disk.walk.walkDir root) index {}).1 :=
      RowsSatisfy.scanDirectories _ _ _ (hkeeps root hroot) h
    split
    · rename_i hscan
      rwa [hscan] at hdirs
    · rename_i hscan
      rw [hscan] at hdirs
      split
      · exact hdirs
      · exact fun r hr => hdirs r (Lib.Table.mem_delete.mp hr).1

theorem RowsSatisfy.scanLibraries {disk : Library → Disk} {generation : Int} :
    ∀ (libraries : List Library) (index : Index) (stats : ScanStats),
      (∀ library ∈ libraries, ∀ root, (disk library).walk.canonicalize library.path = some root →
        ∀ dir ∈ (disk library).walk.walkDir root,
          CollectKeeps decoders P ((disk library).collect dir) library root dir) →
      RowsSatisfy P index →
      RowsSatisfy P (scanLibraries decoders faults disk generation libraries index stats).1
  | [], _, _, _, h => h
  | library :: libraries, index, stats, hkeeps, h => by
    have hlibrary : RowsSatisfy P
        (Loku.scanLibrary decoders faults (disk library) library generation index).1 :=
      h.scanLibrary (hkeeps library List.mem_cons_self)
    unfold Loku.scanLibraries
    split
    · rename_i hscan
      rwa [hscan] at hlibrary
    · rename_i hscan
      rw [hscan] at hlibrary
      exact RowsSatisfy.scanLibraries libraries _ _
        (fun library' hlibrary' => hkeeps library' (List.mem_cons_of_mem _ hlibrary')) hlibrary

/-- A scan, complete or cut short, keeps a property that the records of every directory it walks
have. -/
theorem RowsSatisfy.scanAll {disk : Library → Disk} {libraries : List Library} {index : Index}
    (h : RowsSatisfy P index)
    (hkeeps : ∀ library ∈ libraries, ∀ root,
      (disk library).walk.canonicalize library.path = some root →
      ∀ dir ∈ (disk library).walk.walkDir root,
        CollectKeeps decoders P ((disk library).collect dir) library root dir) :
    RowsSatisfy P (scanAll decoders faults disk libraries index).1 := by
  unfold Loku.scanAll
  split
  · exact h
  · obtain ⟨started, generation, hnext⟩ : ∃ started generation,
        index.nextGeneration = (started, generation) := ⟨_, _, rfl⟩
    rw [hnext]
    dsimp only
    have hscan : RowsSatisfy P
        (Loku.scanLibraries decoders faults disk generation libraries started {}).1 :=
      RowsSatisfy.scanLibraries _ _ _ hkeeps (h.nextGeneration hnext)
    split
    · rename_i hlibraries
      rwa [hlibraries] at hscan
    · rename_i hlibraries
      rw [hlibraries] at hscan
      split <;> exact hscan

/-- So does a flush, for the directories beneath its candidates. -/
theorem RowsSatisfy.flush {disk : Disk} {roots : List (Library × Path)} {dirty : List Dirty}
    {index : Index} (h : RowsSatisfy P index)
    (hkeeps : ∀ d ∈ dirty, ∀ library watched, roots[d.1]? = some (library, watched) →
      ∀ root, disk.walk.canonicalize library.path = some root →
      ∀ dir ∈ disk.walk.walkDir d.2,
        CollectKeeps decoders P (disk.collect dir) library root dir) :
    RowsSatisfy P (flush decoders faults disk roots dirty index) := by
  unfold Loku.flush
  split
  · exact h
  · dsimp only
    refine List.foldlRecOn _ _ (motive := RowsSatisfy P) ?_ ?_
    · refine List.foldlRecOn _ _ (motive := RowsSatisfy P) h ?_
      intro index' hindex' d _
      unfold removeVanished
      split
      · exact hindex'
      · dsimp only
        split
        · exact hindex'
        · exact fun r hr => hindex' r (Lib.Table.mem_delete.mp hr).1
    · intro index' hindex' d hd
      have hdirty : d ∈ dirty := (List.mem_filter.mp (mem_of_mem_pruneNested hd)).1
      unfold reconcileLive
      split
      · exact hindex'
      · rename_i library watched hroots
        refine List.foldlRecOn _ _ (motive := RowsSatisfy P) hindex' ?_
        intro index'' hindex'' dir hdir
        unfold reconcileOrSkip Loku.reconcileDirectory
        split
        · rename_i hreconcile
          split at hreconcile
          · cases hreconcile
          · rename_i root hroot
            have hok := (callIndex_ok_iff.mp hreconcile).2
            exact hindex''.reconcileDirectory
              (hkeeps d hdirty library watched hroots root hroot dir hdir) hok
        · exact hindex''

end RowsSatisfy

end Loku
