import Loku.Index.History
import Loku.Media.Drain
import Loku.Lib.Run

/-!
# Finished compat copies and the index

The maintenance task and the worker share the index. Maintenance collects a directory from
disk and only later writes the records it collected; the worker picks a job from the index,
derives into a `.part`, renames it into place and then points the row at the copy. Either can
be interrupted by a crash, which leaves the files and the index.

The worker starts a compat derivation for a master whose copy is already there exactly because
some row does not know of the copy. Three kinds of steps bring such a row about: reconciling
records that were collected before the copy was put in place, a crash between the rename and the
update of the row, and a change of the files with which a copy appears that is not that of the row
being derived from, be it the worker's own (a copy that serves two rows, a link to the staging
file) or someone else's. In a run without these steps every row knows of its copy
(`CompatKnown`), apart from the one that the worker is about to update, and no finished work is
started again (`never_repeats`).
-/

namespace Loku

/-! ## The system -/

/-- Records of one directory that maintenance has collected and not yet written. -/
structure Snapshot where
  library : Library
  parent : String
  records : List VideoRecord
  valid : Index.DirectoryRecords library.name parent records

/-- What a directory holds now. -/
def Snapshot.collect (decoders : Decoders) (t : FileTree) (library : Library) {root dir : Path}
    (hdir : root <+: dir) : Snapshot where
  library := library
  parent := relativeOf dir root
  records := collectDirectory decoders t library root dir
  valid := directoryRecords_collectDirectory decoders t library hdir

/-- Where the worker is in its job. -/
inductive WorkerPhase
  | idle
  | chosen (job : Job)
  | running (job : Job)
  | staged (job : Job)
  | placed (job : Job)
  | thumbnail (job : Job)

/-- The row that the worker is about to point at a copy it has put in place. -/
def WorkerPhase.Updates (phase : WorkerPhase) (k : RowKey) : Prop :=
  ∃ job, phase = .placed job ∧ k = job.record.key

theorem updates_of_placed {job : Job} {k : RowKey}
    (h : (WorkerPhase.placed job).Updates k) : k = job.record.key := by
  obtain ⟨_, heq, hk⟩ := h
  cases heq
  exact hk

theorem not_updates {phase : WorkerPhase} (h : ∀ job, phase ≠ .placed job) (k : RowKey) :
    ¬ phase.Updates k := by
  rintro ⟨job, heq, -⟩
  exact h job heq

structure DerivationSystem where
  tree : FileTree
  index : Index
  snapshot : Option Snapshot
  worker : WorkerPhase

/-- The names of the steps. -/
inductive DerivationAction
  | files
  | collect
  | reconcile
  | dropSnapshot
  | maintain
  | list
  | start
  | onlyThumbnail
  | write
  | runnerOk
  | runnerFails
  | renameOk
  | renameDir
  | renameFails
  | setCompat
  | thumbnail
  | crash
deriving DecidableEq

/-- The staging path and the final path of the compat copy of a row. -/
def compatPaths (library : Library) (relPath : String) : Path × Path :=
  siblingPaths (library.path.join relPath) compatSuffix

/-- A path with the name of a compat copy. -/
def IsCompatPath (p : Path) : Prop := ∃ n ∈ p.getLast?, compatSuffix.text.toList <:+ n.text.toList

inductive DerivationStep (decoders : Decoders) (libraries : List Library) :
    DerivationSystem → DerivationAction → DerivationSystem → Prop
  /-- Anything at all happens to the files. -/
  | files {s : DerivationSystem} (t : FileTree) :
      DerivationStep decoders libraries s .files { s with tree := t }
  | collect {s : DerivationSystem} {library : Library} (hlibrary : library ∈ libraries)
      {root dir : Path} (hroot : s.tree.canonicalize library.path = some root)
      (hdir : root <+: dir) :
      DerivationStep decoders libraries s .collect
        { s with snapshot := some (.collect decoders s.tree library hdir) }
  | reconcile {s : DerivationSystem} {snapshot : Snapshot} {generation : Int} {index : Index}
      (hsnapshot : s.snapshot = some snapshot)
      (hok : s.index.reconcileDirectory snapshot.library.name snapshot.parent snapshot.records
        generation = .ok index) :
      DerivationStep decoders libraries s .reconcile { s with index := index, snapshot := none }
  /-- A reconcile that fails. -/
  | dropSnapshot {s : DerivationSystem} :
      DerivationStep decoders libraries s .dropSnapshot { s with snapshot := none }
  | nextGeneration {s : DerivationSystem} {index : Index} {generation : Int}
      (hok : s.index.nextGeneration = (index, generation)) :
      DerivationStep decoders libraries s .maintain { s with index := index }
  | removeUnseen {s : DerivationSystem} (library : String) (generation : Int) :
      DerivationStep decoders libraries s .maintain
        { s with index := (s.index.removeUnseen library generation).1 }
  | removeTree {s : DerivationSystem} (library dirRel : String) :
      DerivationStep decoders libraries s .maintain
        { s with index := (s.index.removeTree library dirRel).1 }
  | recordProbe {s : DerivationSystem} (candidate : ProbeCandidate) (probe : ProbeResult) :
      DerivationStep decoders libraries s .maintain
        { s with index := s.index.recordProbe candidate probe }
  | list {s : DerivationSystem} {job : Job} (hworker : s.worker = .idle)
      (hjob : nextJob libraries s.index = some job) :
      DerivationStep decoders libraries s .list { s with worker := .chosen job }
  /-- `derive_compat` is started. -/
  | start {s : DerivationSystem} {job : Job} {plan : CompatPlan}
      (hworker : s.worker = .chosen job) (hplan : job.plan = some plan) :
      DerivationStep decoders libraries s .start { s with worker := .running job }
  | onlyThumbnail {s : DerivationSystem} {job : Job} (hworker : s.worker = .chosen job)
      (hplan : job.plan = none) :
      DerivationStep decoders libraries s .onlyThumbnail { s with worker := .thumbnail job }
  | write {s : DerivationSystem} {job : Job} {q : Path} {data : FileData} {t : FileTree}
      (hworker : s.worker = .running job)
      (hopen : s.tree.Opens (compatPaths job.library job.record.relPath).1 q)
      (hwrite : s.tree.writeFile q data = some t) :
      DerivationStep decoders libraries s .write { s with tree := t }
  | runnerOk {s : DerivationSystem} {job : Job} (hworker : s.worker = .running job) :
      DerivationStep decoders libraries s .runnerOk { s with worker := .staged job }
  | runnerFails {s : DerivationSystem} {job : Job} (error : DeriveError)
      (hworker : s.worker = .running job) :
      DerivationStep decoders libraries s .runnerFails
        { s with
          index := recordJobFailure {} s.index job.record (.derive error), worker := .idle }
  | renameOk {s : DerivationSystem} {job : Job} {src dst : Path} {t : FileTree}
      (hworker : s.worker = .staged job)
      (hsrc : s.tree.locate (compatPaths job.library job.record.relPath).1 = some src)
      (hdst : s.tree.locate (compatPaths job.library job.record.relPath).2 = some dst)
      (hdir : s.tree.node src ≠ some .dir) (hrename : s.tree.rename src dst = some t) :
      DerivationStep decoders libraries s .renameOk { s with tree := t, worker := .placed job }
  /-- A directory is renamed, with everything beneath it. -/
  | renameDir {s : DerivationSystem} {job : Job} {src dst : Path} {t : FileTree}
      (hworker : s.worker = .staged job)
      (hsrc : s.tree.locate (compatPaths job.library job.record.relPath).1 = some src)
      (hdst : s.tree.locate (compatPaths job.library job.record.relPath).2 = some dst)
      (hdir : s.tree.node src = some .dir) (hrename : s.tree.rename src dst = some t) :
      DerivationStep decoders libraries s .renameDir { s with tree := t, worker := .placed job }
  | renameFails {s : DerivationSystem} {job : Job} (path source : String)
      (hworker : s.worker = .staged job) :
      DerivationStep decoders libraries s .renameFails
        { s with
          index := recordJobFailure {} s.index job.record (.finalizeRename path source)
          worker := .idle }
  | setCompat {s : DerivationSystem} {job : Job} (hworker : s.worker = .placed job) :
      DerivationStep decoders libraries s .setCompat
        { s with index := recordCompat {} s.index job, worker := .thumbnail job }
  | thumbnail {s : DerivationSystem} {job : Job} (outcome : JobOutcome)
      (hworker : s.worker = .thumbnail job) :
      DerivationStep decoders libraries s .thumbnail
        { s with index := thumbnailStep {} outcome s.index job, worker := .idle }
  /-- The process dies and is started again. -/
  | crash {s : DerivationSystem} :
      DerivationStep decoders libraries s .crash { s with snapshot := none, worker := .idle }

/-- A fresh database on some files. -/
def derivationStart (t : FileTree) : DerivationSystem := ⟨t, .openInMemory, none, .idle⟩

/-- The worker is not about to start a compat derivation whose copy is on disk. -/
def NeverRepeats (s : DerivationSystem) : Prop :=
  ∀ job plan, s.worker = .chosen job → job.plan = some plan →
    s.tree.pathExists (compatPaths job.library job.record.relPath).2 = false

/-- A record without a compat copy has none on disk, unless its row is about to be updated. -/
def KnowsCompat (libraries : List Library) (s : DerivationSystem) (record : VideoRecord) : Prop :=
  ∀ library ∈ libraries, record.library = library.name → record.compatRelPath = none →
    s.tree.pathExists (compatPaths library record.relPath).2 = false ∨
      s.worker.Updates record.key

/-- With the files as in `t`, a record without a compat copy has one on disk that was not there. -/
def CopyAppears (libraries : List Library) (s : DerivationSystem) (t : FileTree)
    (record : VideoRecord) : Prop :=
  record.compatRelPath = none ∧ ∃ library ∈ libraries, record.library = library.name ∧
    s.tree.pathExists (compatPaths library record.relPath).2 = false ∧
      t.pathExists (compatPaths library record.relPath).2 = true

/-- The step, which leaves the files as in `t`, brings no row about that does not know of its
compat copy. -/
def KeepsCompatKnown (libraries : List Library) (s : DerivationSystem) (a : DerivationAction)
    (t : FileTree) : Prop :=
  match a with
  | .files => (∀ r ∈ s.index.videos, ¬ CopyAppears libraries s t r.record) ∧
      ∀ job plan, s.worker = .chosen job → job.plan = some plan →
        t.pathExists (compatPaths job.library job.record.relPath).2 = true →
          s.tree.pathExists (compatPaths job.library job.record.relPath).2 = true
  | .write => ∀ r ∈ s.index.videos, ¬ CopyAppears libraries s t r.record
  | .renameOk | .renameDir => ∀ job, s.worker = .staged job → ∀ r ∈ s.index.videos,
      CopyAppears libraries s t r.record → r.key = job.record.key
  | .reconcile => ∀ snapshot, s.snapshot = some snapshot → ∀ record ∈ snapshot.records,
      KnowsCompat libraries s record
  | .crash => ∀ r ∈ s.index.videos, s.worker.Updates r.key → r.record.compatRelPath ≠ none
  | _ => True

/-- A step that brings no row about that does not know of its compat copy. -/
def KnownStep (decoders : Decoders) (libraries : List Library) (s : DerivationSystem)
    (a : DerivationAction) (s' : DerivationSystem) : Prop :=
  DerivationStep decoders libraries s a s' ∧ KeepsCompatKnown libraries s a s'.tree

/-! ## What the rows know -/

def CompatKnown (libraries : List Library) (s : DerivationSystem) : Prop :=
  ∀ r ∈ s.index.videos, KnowsCompat libraries s r.record

/-- The rows of one index come from those of another with the same compat copies. -/
def CompatKept (index index' : Index) : Prop :=
  ∀ r' ∈ index'.videos, ∃ r ∈ index.videos, r.key = r'.key ∧
    r.record.compatRelPath = r'.record.compatRelPath

theorem CompatKept.refl (index : Index) : CompatKept index index :=
  fun r' hr' => ⟨r', hr', rfl, rfl⟩

theorem compatKept_of_subset {index index' : Index} (h : ∀ r ∈ index'.videos, r ∈ index.videos) :
    CompatKept index index' :=
  fun r' hr' => ⟨r', h r' hr', rfl, rfl⟩

theorem compatKept_updateRecord {index index' : Index} {k : RowKey}
    {f : VideoRecord → VideoRecord} (hf : ∀ r, (f r).key = r.key)
    (hvideos : index'.videos = Index.updateRecord index.videos k f hf)
    (hcompat : ∀ r, (f r).compatRelPath = r.compatRelPath) : CompatKept index index' := by
  intro r' hr'
  rw [hvideos] at hr'
  obtain ⟨r, hr, rfl⟩ := Lib.Table.mem_update.mp hr'
  refine ⟨r, hr, ?_, ?_⟩
  · split
    · exact (hf r.record).symm
    · rfl
  · split
    · exact (hcompat r.record).symm
    · rfl

theorem compatKept_recordJobFailure (index : Index) (record : VideoRecord) (error : JobError) :
    CompatKept index (recordJobFailure {} index record error) :=
  CompatKept.refl index

theorem compatKept_thumbnailStep (outcome : JobOutcome) (index : Index) (job : Job) :
    CompatKept index (thumbnailStep {} outcome index job) := by
  unfold thumbnailStep
  split
  · split
    · exact compatKept_updateRecord (f := Index.withThumb _) (fun _ => rfl) rfl fun _ => rfl
    · exact compatKept_recordJobFailure index job.record _
  · exact CompatKept.refl index

theorem KnowsCompat.congr {libraries : List Library} {s s' : DerivationSystem}
    {record record' : VideoRecord} (h : KnowsCompat libraries s record)
    (hkey : record.key = record'.key) (hcompat : record.compatRelPath = record'.compatRelPath)
    (htree : s'.tree = s.tree)
    (hworker : s.worker.Updates record.key → s'.worker.Updates record.key) :
    KnowsCompat libraries s' record' := by
  intro library hlibrary hname hnone
  have hrel : record.relPath = record'.relPath := congrArg Prod.snd hkey
  have hlib : record.library = record'.library := congrArg Prod.fst hkey
  rcases h library hlibrary (hlib.trans hname) (hcompat.trans hnone) with habsent | hupdates
  · exact Or.inl (by rwa [htree, ← hrel])
  · exact Or.inr (hkey ▸ hworker hupdates)

theorem CompatKnown.of_kept {libraries : List Library} {s s' : DerivationSystem}
    (h : CompatKnown libraries s) (hkept : CompatKept s.index s'.index)
    (htree : s'.tree = s.tree)
    (hworker : ∀ k, s.worker.Updates k → s'.worker.Updates k) : CompatKnown libraries s' := by
  intro r' hr'
  obtain ⟨r, hr, hkey, hcompat⟩ := hkept r' hr'
  exact (h r hr).congr hkey hcompat htree (hworker _)

/-- A step that the worker takes without having placed a copy. -/
theorem CompatKnown.of_phase {libraries : List Library} {s s' : DerivationSystem}
    (h : CompatKnown libraries s) (hphase : ∀ job, s.worker ≠ .placed job)
    (hkept : CompatKept s.index s'.index) (htree : s'.tree = s.tree) : CompatKnown libraries s' :=
  h.of_kept hkept htree fun k hk => absurd hk (not_updates hphase k)

/-- A change of the files with which a copy appears at most for the row being updated. -/
theorem CompatKnown.of_files {libraries : List Library} {s : DerivationSystem}
    (h : CompatKnown libraries s) {t : FileTree} {worker : WorkerPhase}
    (happears : ∀ r ∈ s.index.videos, CopyAppears libraries s t r.record → worker.Updates r.key)
    (hworker : ∀ k, s.worker.Updates k → worker.Updates k) :
    CompatKnown libraries { s with tree := t, worker := worker } := by
  intro r hr library hlibrary hname hnone
  rcases h r hr library hlibrary hname hnone with habsent | hupdates
  · rcases Bool.eq_false_or_eq_true (t.pathExists (compatPaths library r.record.relPath).2) with
      hnow | hnow
    · exact Or.inr (happears r hr ⟨hnone, library, hlibrary, hname, habsent, hnow⟩)
    · exact Or.inl hnow
  · exact Or.inr (hworker _ hupdates)

/-! ## The paths of a compat copy -/

theorem isCompatPath_compatPaths (library : Library) (relPath : String) :
    IsCompatPath (compatPaths library relPath).2 :=
  ⟨siblingName (library.path.join relPath) compatSuffix, List.getLast?_concat,
    suffix_siblingName _ compatSuffix⟩

/-- A staging path is no compat path. -/
theorem not_isCompatPath_staging (library : Library) (relPath : String) :
    ¬ IsCompatPath (compatPaths library relPath).1 := by
  rintro ⟨n, hn, hsuffix⟩
  unfold compatPaths siblingPaths at hn
  rw [List.getLast?_concat] at hn
  cases hn
  exact not_suffix_staging (by decide) (by decide) _ compatSuffix hsuffix

/-! ## The invariant -/

structure DerivationInvariant (libraries : List Library) (s : DerivationSystem) : Prop where
  known : CompatKnown libraries s
  never : NeverRepeats s

section Invariant
variable {decoders : Decoders} {libraries : List Library} {s s' : DerivationSystem}

/-- A reconcile whose records know of their copies. -/
theorem CompatKnown.reconcile {snapshot : Snapshot} {generation : Int} {index : Index}
    (h : CompatKnown libraries s)
    (hok : s.index.reconcileDirectory snapshot.library.name snapshot.parent snapshot.records
      generation = .ok index)
    (hrecords : ∀ record ∈ snapshot.records, KnowsCompat libraries s record) :
    CompatKnown libraries { s with index := index, snapshot := none } := by
  intro r' hr'
  rcases Index.row_of_reconcileDirectory snapshot.valid hok hr' with
    ⟨record, hrecord, hkey, hrow, -⟩ | ⟨hold, -⟩
  · -- written from its record, the copy included
    refine (hrecords record hrecord).congr hkey ?_ rfl id
    rw [hrow]
    cases s.index.recordAt r'.key <;> rfl
  · exact h r' hold

/-- Once the row of a placed copy is updated, it needs no exception. -/
theorem CompatKnown.setCompat {job : Job} (h : CompatKnown libraries s)
    (hworker : s.worker = .placed job) :
    CompatKnown libraries
      { s with index := recordCompat {} s.index job, worker := .thumbnail job } := by
  intro r' hr' library hlibrary hname hnone
  have hmem : r' ∈ (s.index.setCompat job.record.library job.record.relPath
      (siblingRel job.record.relPath
        (siblingName (sourcePath job.library job.record) compatSuffix))).videos := hr'
  have hfind := Lib.Table.find?_key hmem
  rw [Index.find?_setCompat] at hfind
  obtain ⟨r, hr, hrow⟩ := Option.map_eq_some_iff.mp hfind
  split at hrow
  · rw [← hrow] at hnone
    cases hnone
  · rename_i hne
    subst hrow
    rcases h r (Lib.Table.find?_eq_some_iff.mp hr).1 library hlibrary hname hnone with
      habsent | hupdates
    · exact Or.inl habsent
    · rw [hworker] at hupdates
      exact absurd (updates_of_placed hupdates) hne

/-- Listing finds no row whose copy is on disk. -/
theorem CompatKnown.pathExists_of_nextJob {job : Job} (h : CompatKnown libraries s)
    (hworker : s.worker = .idle) (hjob : nextJob libraries s.index = some job) :
    s.tree.pathExists (compatPaths job.library job.record.relPath).2 = false := by
  obtain ⟨r, hfind, heligible, hrecord, hlibrary, hname, -⟩ := nextJob_eq_some hjob
  have hnone : r.record.compatRelPath = none := by
    by_contra hsome
    rw [not_isEligible_of_compat hsome] at heligible
    cases heligible
  have hrel : job.record.relPath = r.record.relPath := by
    rw [hrecord]
    rfl
  rcases h r (Lib.Table.find?_eq_some_iff.mp hfind).1 job.library hlibrary hname.symm hnone with
    habsent | hupdates
  · rwa [hrel]
  · rw [hworker] at hupdates
    exact absurd hupdates (not_updates (by simp) _)

theorem neverRepeats_of_ne {s : DerivationSystem} (h : ∀ job, s.worker ≠ .chosen job) :
    NeverRepeats s := fun job _ hworker => absurd hworker (h job)

/-- What is renamed into place is a copy of the row that is updated next, and of no other row that
does not know of one. -/
theorem DerivationInvariant.placed (h : DerivationInvariant libraries s) {job : Job}
    (hworker : s.worker = .staged job) {t : FileTree}
    (hok : ∀ job, s.worker = .staged job → ∀ r ∈ s.index.videos,
      CopyAppears libraries s t r.record → r.key = job.record.key) :
    DerivationInvariant libraries { s with tree := t, worker := .placed job } where
  known := by
    refine h.known.of_files (fun r hr happears => ⟨job, rfl, hok job hworker r hr happears⟩) ?_
    intro k hk
    rw [hworker] at hk
    exact absurd hk (not_updates (by simp) _)
  never := neverRepeats_of_ne (by simp)

theorem DerivationInvariant.step {a : DerivationAction} (h : DerivationInvariant libraries s)
    (hstep : KnownStep decoders libraries s a s') : DerivationInvariant libraries s' := by
  obtain ⟨hstep, hok⟩ := hstep
  cases hstep with
  | files t =>
    refine ⟨h.known.of_files (fun r hr happears => absurd happears (hok.1 r hr)) fun _ => id, ?_⟩
    intro job plan hworker hplan
    rw [← Bool.not_eq_true]
    intro hnow
    have hbefore := hok.2 job plan hworker hplan hnow
    rw [h.never job plan hworker hplan] at hbefore
    cases hbefore
  | collect hlibrary hroot hdir =>
    exact ⟨h.known.of_kept (CompatKept.refl _) rfl fun _ => id, h.never⟩
  | reconcile hsnapshot hreconcile =>
    exact ⟨h.known.reconcile hreconcile (hok _ hsnapshot), h.never⟩
  | dropSnapshot => exact ⟨h.known.of_kept (CompatKept.refl _) rfl fun _ => id, h.never⟩
  | nextGeneration hnext =>
    obtain ⟨-, -, hvideos, -⟩ := Index.nextGeneration_spec hnext
    have hkept := compatKept_of_subset fun r hr => hvideos ▸ hr
    exact ⟨h.known.of_kept hkept rfl fun _ => id, h.never⟩
  | removeUnseen library generation =>
    have hkept : CompatKept s.index (s.index.removeUnseen library generation).1 :=
      compatKept_of_subset fun r hr => (Lib.Table.mem_delete.mp hr).1
    exact ⟨h.known.of_kept hkept rfl fun _ => id, h.never⟩
  | removeTree library dirRel =>
    have hkept : CompatKept s.index (s.index.removeTree library dirRel).1 :=
      compatKept_of_subset fun r hr => (Lib.Table.mem_delete.mp hr).1
    exact ⟨h.known.of_kept hkept rfl fun _ => id, h.never⟩
  | recordProbe candidate probe =>
    have hkept : CompatKept s.index (s.index.recordProbe candidate probe) :=
      compatKept_updateRecord (f := Index.withProbe probe) (fun _ => rfl) rfl fun _ => rfl
    exact ⟨h.known.of_kept hkept rfl fun _ => id, h.never⟩
  | list hworker hjob =>
    refine ⟨h.known.of_phase (by simp [hworker]) (CompatKept.refl _) rfl, ?_⟩
    intro _ _ hchosen _
    cases hchosen
    exact h.known.pathExists_of_nextJob hworker hjob
  | start hworker _ =>
    exact ⟨h.known.of_phase (by simp [hworker]) (CompatKept.refl _) rfl,
      neverRepeats_of_ne (by simp)⟩
  | onlyThumbnail hworker _ =>
    exact ⟨h.known.of_phase (by simp [hworker]) (CompatKept.refl _) rfl,
      neverRepeats_of_ne (by simp)⟩
  | write hworker _ _ =>
    exact ⟨h.known.of_files (fun r hr happears => absurd happears (hok r hr)) fun _ => id,
      neverRepeats_of_ne (by simp [hworker])⟩
  | runnerOk hworker =>
    exact ⟨h.known.of_phase (by simp [hworker]) (CompatKept.refl _) rfl,
      neverRepeats_of_ne (by simp)⟩
  | runnerFails error hworker =>
    exact ⟨h.known.of_phase (by simp [hworker]) (compatKept_recordJobFailure _ _ _) rfl,
      neverRepeats_of_ne (by simp)⟩
  | renameOk hworker _ _ _ _ => exact h.placed hworker hok
  | renameDir hworker _ _ _ _ => exact h.placed hworker hok
  | renameFails path source hworker =>
    exact ⟨h.known.of_phase (by simp [hworker]) (compatKept_recordJobFailure _ _ _) rfl,
      neverRepeats_of_ne (by simp)⟩
  | setCompat hworker => exact ⟨h.known.setCompat hworker, neverRepeats_of_ne (by simp)⟩
  | thumbnail outcome hworker =>
    exact ⟨h.known.of_phase (by simp [hworker]) (compatKept_thumbnailStep _ _ _) rfl,
      neverRepeats_of_ne (by simp)⟩
  | crash =>
    refine ⟨?_, neverRepeats_of_ne (by simp)⟩
    intro r hr library hlibrary hname hnone
    rcases h.known r hr library hlibrary hname hnone with habsent | hupdates
    · exact Or.inl habsent
    · exact absurd hnone (hok r hr hupdates)

end Invariant

namespace StaleSnapshot

open OneVideo (lib tree library decoders)

/-- The records of the library's directory, before any derivation. -/
def snapshot : Snapshot := .collect decoders tree library (List.prefix_refl [lib])

def record : VideoRecord := snapshot.records.head (by decide)

def candidate : ProbeCandidate := ⟨record.library, record.relPath, record.size, record.mtime⟩

def scanned (generation : Int) (index : Index) : Index :=
  { index with
    videos := (snapshot.records.foldl (Index.upsertRecord generation) index.videos).delete fun r =>
      r.record.library == library.name && r.record.parent == snapshot.parent &&
        !(snapshot.records.map VideoRecord.relPath).contains r.record.relPath }

def probe : ProbeResult := { vcodec := some "mpeg2video", acodec := some "ac3" }

def probed : Index := (scanned 1 .openInMemory).recordProbe candidate probe

def job : Job := (nextJob [library] probed).get (by decide)

def part : FileTree :=
  (tree.writeFile (compatPaths library job.record.relPath).1 ⟨[4], 9⟩).get (by decide)

def placed : FileTree :=
  (part.renameFile (compatPaths library job.record.relPath).1
    (compatPaths library job.record.relPath).2).get (by decide)

theorem opens_part : tree.Opens (compatPaths library job.record.relPath).1
    (compatPaths library job.record.relPath).1 :=
  ⟨_, by decide, Or.inr rfl⟩

theorem rename_part : part.rename (compatPaths library job.record.relPath).1
    (compatPaths library job.record.relPath).2 = some placed := by
  rw [FileTree.rename_of_file (show _ = some (Node.file ⟨[4], 9⟩) by decide)]
  exact (Option.some_get _).symm

def outcome : JobOutcome := ⟨.ok (), .ok ()⟩

def derived : Index := thumbnailStep {} outcome (recordCompat {} probed job) job

theorem library_mem : library ∈ [library] := List.mem_singleton_self library

theorem canonicalize_library : tree.canonicalize library.path = some [lib] := by decide

end StaleSnapshot

end Loku
