import Loku.Media.Worker
import Loku.Routes.Types
import Loku.Index.Rows
import Mathlib.Data.List.Perm.Subperm

/-!
# The worker drains

A row is eligible when `processNext` would take it on: it is a candidate of the store's query,
its library is configured, and the planner finds something to do. Every attempt, however its
derivations end, removes exactly its own row from the eligible ones
(`mem_eligibleKeys_processNext`): a compat copy that was made shows in the row, a thumbnail
that was made leaves nothing to do, and a failure is recorded for the row's current content. So
the worker stops after at most as many attempts as there were eligible rows, takes on no row
twice, and leaves no configured row with codec facts pending.
-/

namespace Loku

/-! ## Eligible rows -/

/-- Whether the planner finds something to do for a record. -/
def hasWork (record : VideoRecord) : Bool :=
  match decideDerivation (.ofRecord record record.compatRelPath.isSome) with
  | .produce _ => true
  | .notNeeded => record.thumbRelPath.isNone
  | .unplannable => false

/-- Whether a library of that name is configured. -/
def configured (libraries : List Library) (name : String) : Bool :=
  libraries.any fun l => l.name == name

def isEligible (libraries : List Library) (index : Index) (r : Row) : Bool :=
  index.isCandidate r && configured libraries r.record.library && hasWork r.record

def eligibleKeys (libraries : List Library) (index : Index) : List RowKey :=
  (index.videos.rows.filter (isEligible libraries index)).map Row.key

section Eligible
variable {libraries : List Library} {index : Index}

theorem configured_iff {name : String} :
    configured libraries name = true ↔ ∃ l ∈ libraries, l.name = name := by
  simp [configured]

theorem jobFor_isSome (library : Library) (record : VideoRecord) :
    (jobFor library record).isSome = hasWork record := by
  unfold jobFor hasWork
  cases decideDerivation (.ofRecord record record.compatRelPath.isSome) with
  | produce plan => rfl
  | notNeeded => cases record.thumbRelPath <;> rfl
  | unplannable => rfl

theorem jobFor_eq_some {library : Library} {record : VideoRecord} {job : Job}
    (h : jobFor library record = some job) :
    job.library = library ∧ job.record = record ∧
      (job.plan = none → record.thumbRelPath = none ∧
        decideDerivation (.ofRecord record record.compatRelPath.isSome) = .notNeeded) ∧
      ∀ plan, job.plan = some plan →
        decideDerivation (.ofRecord record record.compatRelPath.isSome) = .produce plan := by
  unfold jobFor at h
  split at h
  · rename_i plan hdecide
    cases h
    refine ⟨rfl, rfl, fun hnone => ?_, fun p hp => ?_⟩
    · cases hnone
    · cases hp
      exact hdecide
  · rename_i hdecide
    split at h
    · rename_i hthumb
      cases h
      refine ⟨rfl, rfl, fun _ => ⟨Option.isNone_iff_eq_none.mp hthumb, hdecide⟩, fun p hp => ?_⟩
      cases hp
    · cases h
  · cases h

theorem mem_eligibleKeys {k : RowKey} :
    k ∈ eligibleKeys libraries index ↔
      ∃ r, index.videos.find? k = some r ∧ isEligible libraries index r = true := by
  unfold eligibleKeys
  simp only [List.mem_map, List.mem_filter, Lib.Table.find?_eq_some_iff, Lib.Table.mem_def]
  constructor
  · rintro ⟨r, ⟨hr, heligible⟩, hkey⟩
    exact ⟨r, ⟨hr, hkey⟩, heligible⟩
  · rintro ⟨r, ⟨hr, hkey⟩, heligible⟩
    exact ⟨r, ⟨hr, heligible⟩, hkey⟩

theorem nodup_eligibleKeys (libraries : List Library) (index : Index) :
    (eligibleKeys libraries index).Nodup :=
  index.videos.nodup.sublist (List.filter_sublist.map Row.key)

theorem mem_derivationCandidates {record : VideoRecord} :
    record ∈ index.derivationCandidates ↔
      ∃ r ∈ index.videos, index.isCandidate r = true ∧ index.recordFromRow r = record := by
  unfold Index.derivationCandidates
  simp only [List.mem_map, List.mem_insertionSort, List.mem_filter, Lib.Table.mem_def, and_assoc]

theorem hasWork_recordFromRow (index : Index) (r : Row) :
    hasWork (index.recordFromRow r) = hasWork r.record := rfl

theorem mem_orderedLibraries {l : Library} : l ∈ orderedLibraries libraries ↔ l ∈ libraries := by
  unfold orderedLibraries
  simp only [List.mem_append, List.mem_filter]
  cases l.kind <;> simp

theorem isEligible_iff {r : Row} : isEligible libraries index r = true ↔
    index.isCandidate r = true ∧ (∃ l ∈ libraries, l.name = r.record.library) ∧
      hasWork r.record = true := by
  unfold isEligible
  rw [Bool.and_eq_true, Bool.and_eq_true, configured_iff, and_assoc]

theorem isCandidate_iff {r : Row} : index.isCandidate r = true ↔
    r.record.compatRelPath = none ∧ r.record.codecSource ≠ none ∧
      index.failureOf r.record = none := by
  unfold Index.isCandidate
  rw [Bool.and_eq_true, Bool.and_eq_true, Option.isNone_iff_eq_none, Option.isNone_iff_eq_none,
    Option.isSome_iff_ne_none, and_assoc]

/-- What the worker goes through: the candidates of each library. -/
theorem mem_candidates {l : Library} {record : VideoRecord} :
    (l, record) ∈ ((orderedLibraries libraries).flatMap fun library =>
      (index.derivationCandidates.filter fun record => record.library == library.name).map
        fun record => (library, record)) ↔
      l ∈ libraries ∧ ∃ r ∈ index.videos, index.isCandidate r = true ∧
        r.record.library = l.name ∧ index.recordFromRow r = record := by
  simp only [List.mem_flatMap, List.mem_map, List.mem_filter, beq_iff_eq, mem_orderedLibraries,
    mem_derivationCandidates]
  constructor
  · rintro ⟨l', hl, record', ⟨⟨r, hr, hcandidate, rfl⟩, hname⟩, heq⟩
    obtain ⟨rfl, rfl⟩ := Prod.mk.inj heq
    exact ⟨hl, r, hr, hcandidate, hname, rfl⟩
  · rintro ⟨hl, r, hr, hcandidate, hname, rfl⟩
    exact ⟨l, hl, _, ⟨⟨r, hr, hcandidate, rfl⟩, hname⟩, rfl⟩

theorem nextJob_eq_none_iff :
    nextJob libraries index = none ↔ eligibleKeys libraries index = [] := by
  have hnone : ∀ (l : Library) (r : Row),
      jobFor l (index.recordFromRow r) = none ↔ ¬ hasWork r.record = true := by
    intro l r
    rw [← Option.isNone_iff_eq_none, ← Option.not_isSome, jobFor_isSome, hasWork_recordFromRow,
      Bool.not_eq_true', Bool.not_eq_true]
  unfold nextJob chooseJob
  rw [List.findSome?_eq_none_iff, List.eq_nil_iff_forall_not_mem]
  constructor
  · intro h k hk
    obtain ⟨r, hr, heligible⟩ := mem_eligibleKeys.mp hk
    obtain ⟨hcandidate, ⟨l, hl, hname⟩, hwork⟩ := isEligible_iff.mp heligible
    have hmem := (Lib.Table.find?_eq_some_iff.mp hr).1
    refine (hnone l r).mp (h (l, index.recordFromRow r) ?_) hwork
    exact mem_candidates.mpr ⟨hl, r, hmem, hcandidate, hname.symm, rfl⟩
  · rintro h ⟨l, record⟩ hmem
    obtain ⟨hl, r, hr, hcandidate, hname, rfl⟩ := mem_candidates.mp hmem
    refine (hnone l r).mpr fun hwork => ?_
    refine h r.key (mem_eligibleKeys.mpr ⟨r, Lib.Table.find?_key hr, ?_⟩)
    exact isEligible_iff.mpr ⟨hcandidate, ⟨l, hl, hname.symm⟩, hwork⟩

/-- When no job is left, the planner finds nothing to do for a row that nothing excludes. -/
theorem not_hasWork_of_nextJob_eq_none {r : Row} (hnone : nextJob libraries index = none)
    (hr : r ∈ index.videos) (hconfigured : configured libraries r.record.library = true)
    (hcandidate : index.isCandidate r = true) : ¬ hasWork r.record = true := by
  intro hwork
  have heligible : isEligible libraries index r = true :=
    isEligible_iff.mpr ⟨hcandidate, configured_iff.mp hconfigured, hwork⟩
  have hmem := mem_eligibleKeys.mpr ⟨r, Lib.Table.find?_key hr, heligible⟩
  rw [nextJob_eq_none_iff.mp hnone] at hmem
  cases hmem

/-- The job taken on is that of an eligible row of one of the libraries. -/
theorem nextJob_eq_some {job : Job} (h : nextJob libraries index = some job) :
    ∃ r, index.videos.find? r.key = some r ∧ isEligible libraries index r = true ∧
      job.record = index.recordFromRow r ∧ job.library ∈ libraries ∧
      job.library.name = r.record.library ∧ jobFor job.library job.record = some job := by
  unfold nextJob chooseJob at h
  obtain ⟨⟨l, record⟩, hmem, hjob⟩ := List.exists_of_findSome?_eq_some h
  obtain ⟨hl, r, hr, hcandidate, hname, rfl⟩ := mem_candidates.mp hmem
  obtain ⟨hlibrary, hrecord, -⟩ := jobFor_eq_some hjob
  have hwork : hasWork r.record = true := by
    rw [← hasWork_recordFromRow index, ← jobFor_isSome l, hjob]
    rfl
  refine ⟨r, Lib.Table.find?_key hr, ?_, hrecord, hlibrary ▸ hl, ?_, ?_⟩
  · exact isEligible_iff.mpr ⟨hcandidate, ⟨l, hl, hname.symm⟩, hwork⟩
  · rw [hlibrary]
    exact hname.symm
  · rw [hlibrary, hrecord]
    exact hjob

end Eligible

/-! ## What one attempt does -/

section Attempt
variable {refused : Refusals} {outcome : JobOutcome} {index : Index} {job : Job}

/-- Two indexes agree on the row and on the failure of a key. -/
def AgreeAt (index index' : Index) (k : RowKey) : Prop :=
  index'.videos.find? k = index.videos.find? k ∧
    index'.derivationFailures.find? k = index.derivationFailures.find? k

theorem agreeAt_recordJobFailure {record : VideoRecord} {error : JobError} {k : RowKey}
    (hk : k ≠ record.key) : AgreeAt index (recordJobFailure refused index record error) k := by
  unfold recordJobFailure
  split
  · exact ⟨rfl, rfl⟩
  · exact ⟨rfl, Index.find?_recordDerivationFailure_of_ne index _ _ _ hk⟩

theorem agreeAt_thumbnailStep {k : RowKey} (hk : k ≠ job.record.key) :
    AgreeAt index (thumbnailStep refused outcome index job) k := by
  unfold thumbnailStep
  split
  · split
    · split
      · exact ⟨rfl, rfl⟩
      · exact ⟨Index.find?_setThumb_of_ne hk, rfl⟩
    · exact agreeAt_recordJobFailure hk
  · exact ⟨rfl, rfl⟩

theorem agreeAt_recordCompat {k : RowKey} (hk : k ≠ job.record.key) :
    AgreeAt index (recordCompat refused index job) k := by
  unfold recordCompat
  split
  · exact ⟨rfl, rfl⟩
  · exact ⟨Index.find?_setCompat_of_ne hk, rfl⟩

/-- A job touches no row but its own. -/
theorem agreeAt_runJob {k : RowKey} (hk : k ≠ job.record.key) :
    AgreeAt index (runJob refused outcome index job) k := by
  unfold runJob
  split
  · exact agreeAt_thumbnailStep hk
  · split
    · have hcompat : AgreeAt index (recordCompat refused index job) k := agreeAt_recordCompat hk
      have hthumb : AgreeAt (recordCompat refused index job)
          (thumbnailStep refused outcome (recordCompat refused index job) job) k :=
        agreeAt_thumbnailStep hk
      exact ⟨hthumb.1.trans hcompat.1, hthumb.2.trans hcompat.2⟩
    · exact agreeAt_recordJobFailure hk

theorem failureOf_congr {index' : Index} {r : VideoRecord} (h : AgreeAt index index' r.key) :
    index'.failureOf r = index.failureOf r := by
  unfold Index.failureOf
  rw [h.2]

theorem isEligible_congr {libraries : List Library} {index' : Index} {r : Row}
    (h : AgreeAt index index' r.key) :
    isEligible libraries index' r = isEligible libraries index r := by
  unfold isEligible Index.isCandidate
  rw [failureOf_congr h]

/-- A recorded failure of the row's content makes it ineligible. -/
theorem failureOf_recordJobFailure (index : Index) (record : VideoRecord) (error : JobError) :
    (recordJobFailure {} index record error).failureOf record ≠ none := by
  unfold recordJobFailure Index.failureOf
  rw [if_neg (by decide)]
  have hkey : record.key = (record.library, record.relPath) := rfl
  rw [hkey, Index.find?_recordDerivationFailure_self, Option.filter_some, if_pos (by simp)]
  exact Option.some_ne_none _

theorem not_isEligible_of_compat {libraries : List Library} {r : Row}
    (h : r.record.compatRelPath ≠ none) : isEligible libraries index r = false := by
  rw [Bool.eq_false_iff]
  exact fun heligible => h (isCandidate_iff.mp (isEligible_iff.mp heligible).1).1

theorem not_isEligible_of_failure {libraries : List Library} {r : Row}
    (h : index.failureOf r.record ≠ none) : isEligible libraries index r = false := by
  rw [Bool.eq_false_iff]
  exact fun heligible => h (isCandidate_iff.mp (isEligible_iff.mp heligible).1).2.2

/-- A row whose content the record of a failed job has seen. -/
theorem not_isEligible_recordJobFailure {libraries : List Library} {record : VideoRecord}
    {error : JobError} {r : Row} (hkey : r.record.key = record.key)
    (hsize : r.record.size = record.size) (hmtime : r.record.mtime = record.mtime) :
    isEligible libraries (recordJobFailure {} index record error) r = false := by
  apply not_isEligible_of_failure
  have hfailure := failureOf_recordJobFailure index record error
  unfold Index.failureOf at hfailure ⊢
  rwa [hkey, hsize, hmtime]

/-- The thumbnail step leaves a row its compat copy. -/
theorem compatRelPath_thumbnailStep {r' : Row} {k : RowKey}
    (hr' : (thumbnailStep {} outcome index job).videos.find? k = some r') :
    ∃ r, index.videos.find? k = some r ∧ r'.record.compatRelPath = r.record.compatRelPath := by
  rcases thumbnailStep_cases {} outcome index job with ⟨-, hstep⟩ | ⟨-, -, hstep⟩ |
    ⟨-, -, -, hstep⟩ | ⟨error, -, -, hstep⟩
  · exact ⟨r', hstep ▸ hr', rfl⟩
  · exact ⟨r', hstep ▸ hr', rfl⟩
  · rw [hstep, Index.find?_setThumb] at hr'
    obtain ⟨r, hr, rfl⟩ := Option.map_eq_some_iff.mp hr'
    refine ⟨r, hr, ?_⟩
    split <;> rfl
  · rw [hstep] at hr'
    exact ⟨r', hr', rfl⟩

/-- The planner has nothing to do once the thumbnail is there. -/
theorem hasWork_withThumb {record : VideoRecord} (thumb : String)
    (hdecide : decideDerivation (.ofRecord record record.compatRelPath.isSome) = .notNeeded) :
    hasWork (Index.withThumb thumb record) = false := by
  have hinputs : CompatInputs.ofRecord (Index.withThumb thumb record)
      (Index.withThumb thumb record).compatRelPath.isSome =
      .ofRecord record record.compatRelPath.isSome := rfl
  unfold hasWork
  rw [hinputs, hdecide]
  rfl

/-- After its job, a row is not eligible: its compat copy or its thumbnail is there, or its
failure is recorded. -/
theorem not_isEligible_runJob {libraries : List Library} {r r' : Row}
    (hr : index.videos.find? r.key = some r) (hrecord : job.record = index.recordFromRow r)
    (hjob : jobFor job.library job.record = some job)
    (hr' : (runJob {} outcome index job).videos.find? r.key = some r') :
    isEligible libraries (runJob {} outcome index job) r' = false := by
  have hkey : r.key = (job.record.library, job.record.relPath) := by
    rw [hrecord]
    rfl
  -- the row itself has the content that the job saw
  have hfail : ∀ error : JobError,
      isEligible libraries (recordJobFailure {} index job.record error) r = false := by
    intro error
    apply not_isEligible_recordJobFailure
    · rw [hrecord]
      rfl
    · rw [hrecord]
      rfl
    · rw [hrecord]
      rfl
  rcases runJob_cases {} outcome index job with ⟨hplan, hrun⟩ | ⟨plan, -, -, hrun⟩ |
    ⟨plan, error, -, -, hrun⟩
  · obtain ⟨hthumb, hdecide⟩ := (jobFor_eq_some hjob).2.2.1 hplan
    rw [hrun] at hr' ⊢
    rcases thumbnailStep_cases {} outcome index job with ⟨hsome, -⟩ | ⟨-, hrefused, -⟩ |
      ⟨-, -, -, hstep⟩ | ⟨error, -, -, hstep⟩
    · exact absurd hthumb hsome
    · cases hrefused
    · rw [hstep, Index.find?_setThumb, hr, Option.map_some, if_pos hkey] at hr'
      cases hr'
      have hrow : decideDerivation (.ofRecord r.record r.record.compatRelPath.isSome) =
          .notNeeded := by
        rw [hrecord] at hdecide
        exact hdecide
      unfold isEligible
      dsimp only
      rw [hasWork_withThumb _ hrow, Bool.and_false]
    · rw [hstep] at hr' ⊢
      cases hr.symm.trans hr'
      exact hfail error
  · rw [hrun] at hr' ⊢
    apply not_isEligible_of_compat
    obtain ⟨r'', hr'', hcompat⟩ := compatRelPath_thumbnailStep hr'
    unfold recordCompat at hr''
    rw [if_neg (by decide), Index.find?_setCompat, hr, Option.map_some, if_pos hkey] at hr''
    cases hr''
    rw [hcompat]
    exact Option.some_ne_none _
  · rw [hrun] at hr' ⊢
    cases hr.symm.trans hr'
    exact hfail error

end Attempt

/-! ## The loop -/

section Loop
variable {libraries : List Library} {index : Index}

/-- An attempt removes its own row from the eligible ones and no other. -/
theorem mem_eligibleKeys_processNext {outcome : JobOutcome} {job : Job}
    (h : nextJob libraries index = some job) {k : RowKey} :
    k ∈ eligibleKeys libraries (processNext libraries {} outcome index).1 ↔
      k ∈ eligibleKeys libraries index ∧ k ≠ job.record.key := by
  obtain ⟨r, hr, -, hrecord, -, -, hjob⟩ := nextJob_eq_some h
  have hkey : job.record.key = r.key := by
    rw [hrecord]
    rfl
  have hnext : (processNext libraries {} outcome index).1 = runJob {} outcome index job := by
    unfold processNext
    rw [h]
  rw [hnext, mem_eligibleKeys, mem_eligibleKeys]
  by_cases hk : k = job.record.key
  · simp only [hk, ne_eq, not_true, and_false, iff_false]
    rintro ⟨r', hr', heligible⟩
    rw [hkey] at hr'
    rw [not_isEligible_runJob hr hrecord hjob hr'] at heligible
    cases heligible
  · have hagree : AgreeAt index (runJob {} outcome index job) k := agreeAt_runJob hk
    simp only [ne_eq, hk, not_false_eq_true, and_true, hagree.1]
    apply exists_congr
    intro r'
    apply and_congr_right
    intro hr'
    rw [isEligible_congr ((Lib.Table.find?_eq_some_iff.mp hr').2 ▸ hagree)]

theorem key_mem_eligibleKeys {job : Job} (h : nextJob libraries index = some job) :
    job.record.key ∈ eligibleKeys libraries index := by
  obtain ⟨r, hr, heligible, hrecord, -⟩ := nextJob_eq_some h
  rw [hrecord]
  exact mem_eligibleKeys.mpr ⟨r, hr, heligible⟩

/-- The index after `n` attempts, whose derivations end as `outcomes` says. -/
def workerState (libraries : List Library) (outcomes : Nat → JobOutcome) (index : Index) :
    Nat → Index
  | 0 => index
  | n + 1 => (processNext libraries {} (outcomes n) (workerState libraries outcomes index n)).1

variable {outcomes : Nat → JobOutcome}

/-- Eligible keys only ever go. -/
theorem eligibleKeys_workerState_subset {m n : Nat} (hmn : m ≤ n) :
    eligibleKeys libraries (workerState libraries outcomes index n) ⊆
      eligibleKeys libraries (workerState libraries outcomes index m) := by
  induction hmn with
  | refl => exact List.Subset.refl _
  | @step n hmn ih =>
    intro k hk
    apply ih
    cases hjob : nextJob libraries (workerState libraries outcomes index n) with
    | none =>
      have hsame : workerState libraries outcomes index (n + 1) =
          workerState libraries outcomes index n := by
        change (processNext libraries {} (outcomes n) _).1 = _
        unfold processNext
        rw [hjob]
      rwa [hsame] at hk
    | some job => exact ((mem_eligibleKeys_processNext hjob).mp hk).1

theorem length_eligibleKeys_workerState {n : Nat} {job : Job}
    (h : nextJob libraries (workerState libraries outcomes index n) = some job) :
    (eligibleKeys libraries (workerState libraries outcomes index (n + 1))).length <
      (eligibleKeys libraries (workerState libraries outcomes index n)).length := by
  have hsub : job.record.key ::
      eligibleKeys libraries (workerState libraries outcomes index (n + 1)) ⊆
      eligibleKeys libraries (workerState libraries outcomes index n) := by
    intro k hk
    rcases List.mem_cons.mp hk with rfl | hk
    · exact key_mem_eligibleKeys h
    · exact ((mem_eligibleKeys_processNext h).mp hk).1
  have hnodup : (job.record.key ::
      eligibleKeys libraries (workerState libraries outcomes index (n + 1))).Nodup := by
    rw [List.nodup_cons]
    exact ⟨fun hmem => ((mem_eligibleKeys_processNext h).mp hmem).2 rfl, nodup_eligibleKeys _ _⟩
  have hlen := (hnodup.subperm hsub).length_le
  rw [List.length_cons] at hlen
  omega

/-- While the worker finds jobs, the number of eligible rows falls with every attempt. -/
theorem length_eligibleKeys_add_le (n : Nat)
    (h : ∀ m < n, nextJob libraries (workerState libraries outcomes index m) ≠ none) :
    (eligibleKeys libraries (workerState libraries outcomes index n)).length + n ≤
      (eligibleKeys libraries index).length := by
  induction n with
  | zero => exact le_rfl
  | succ n ih =>
    obtain ⟨job, hjob⟩ := Option.ne_none_iff_exists'.mp (h n (Nat.lt_succ_self n))
    have hlt := length_eligibleKeys_workerState hjob
    have hle := ih fun m hm => h m (Nat.lt_succ_of_lt hm)
    omega

/-- Some attempt within the number of eligible rows finds no job. -/
theorem exists_nextJob_none (libraries : List Library) (outcomes : Nat → JobOutcome)
    (index : Index) : ∃ n ≤ (eligibleKeys libraries index).length,
      nextJob libraries (workerState libraries outcomes index n) = none ∧
        ∀ m < n, nextJob libraries (workerState libraries outcomes index m) ≠ none := by
  have hstop : ∃ n, nextJob libraries (workerState libraries outcomes index n) = none := by
    by_contra hall
    have hle := length_eligibleKeys_add_le ((eligibleKeys libraries index).length + 1)
      fun m _ hnone => hall ⟨m, hnone⟩
    omega
  classical
  refine ⟨Nat.find hstop, ?_, Nat.find_spec hstop, fun m hm => Nat.find_min hstop hm⟩
  have hle := length_eligibleKeys_add_le (Nat.find hstop) fun m hm => Nat.find_min hstop hm
  omega

/-- No row is taken on twice. -/
theorem key_ne_of_lt {m n : Nat} (hmn : m < n) {job job' : Job}
    (h : nextJob libraries (workerState libraries outcomes index m) = some job)
    (h' : nextJob libraries (workerState libraries outcomes index n) = some job') :
    job.record.key ≠ job'.record.key := by
  intro heq
  have hmem := eligibleKeys_workerState_subset (Nat.succ_le_of_lt hmn) (key_mem_eligibleKeys h')
  exact ((mem_eligibleKeys_processNext h).mp hmem).2 heq.symm

/-- A row that is pending is eligible. -/
theorem derivationState_ne_pending {r : Row} (hr : r ∈ index.videos)
    (hnone : nextJob libraries index = none)
    (hconfigured : configured libraries r.record.library = true)
    (hfacts : r.record.codecSource ≠ none) :
    (derivationStatus (index.recordFromRow r) none).state ∈
      [DerivationState.notNeeded, .done, .failed, .unknown] := by
  change derivationState (index.recordFromRow r) none ∈ _
  unfold derivationState
  rw [Option.any_none, if_neg (by decide)]
  split
  · decide
  · rename_i hcompat
    have hcompat' : r.record.compatRelPath = none := by
      rwa [Option.not_isSome_iff_eq_none] at hcompat
    rw [if_neg]
    · split
      · decide
      · decide
      · rename_i plan hdecide
        split
        · decide
        · -- nothing excludes the row from the candidates
          rename_i herror
          exfalso
          have hfailure : index.failureOf r.record = none := by
            rw [Option.not_isSome_iff_eq_none] at herror
            exact Option.map_eq_none_iff.mp herror
          have hwork : hasWork r.record = true := by
            unfold hasWork
            have hinputs : CompatInputs.ofRecord r.record r.record.compatRelPath.isSome =
                CompatInputs.ofRecord (index.recordFromRow r) false := by
              rw [hcompat']
              rfl
            rw [hinputs, hdecide]
          exact not_hasWork_of_nextJob_eq_none hnone hr hconfigured
            (isCandidate_iff.mpr ⟨hcompat', hfacts, hfailure⟩) hwork
    · rw [Option.isNone_iff_eq_none]
      exact hfacts

/-- With no other writer and every index write succeeding, the worker makes at most as many
attempts as there are eligible rows, none of them twice on one row, and then every configured
row with codec facts has a settled status. -/
theorem worker_drains (libraries : List Library) (outcomes : Nat → JobOutcome) (index : Index) :
    ∃ n ≤ (eligibleKeys libraries index).length,
      (∀ m < n, (processNext libraries {} (outcomes m)
        (workerState libraries outcomes index m)).2 = true) ∧
      (∀ m ≥ n, (processNext libraries {} (outcomes m)
        (workerState libraries outcomes index m)).2 = false) ∧
      (∀ i j job job', i ≠ j →
        nextJob libraries (workerState libraries outcomes index i) = some job →
        nextJob libraries (workerState libraries outcomes index j) = some job' →
        job.record.key ≠ job'.record.key) ∧
      ∀ r ∈ (workerState libraries outcomes index n).videos,
        configured libraries r.record.library = true → r.record.codecSource ≠ none →
        (derivationStatus ((workerState libraries outcomes index n).recordFromRow r) none).state ∈
          [DerivationState.notNeeded, .done, .failed, .unknown] := by
  obtain ⟨n, hle, hstop, hbusy⟩ := exists_nextJob_none libraries outcomes index
  refine ⟨n, hle, ?_, ?_, ?_, fun r hr => derivationState_ne_pending hr hstop⟩
  · intro m hm
    obtain ⟨job, hjob⟩ := Option.ne_none_iff_exists'.mp (hbusy m hm)
    unfold processNext
    rw [hjob]
  · intro m hm
    have hnone : nextJob libraries (workerState libraries outcomes index m) = none := by
      rw [nextJob_eq_none_iff, List.eq_nil_iff_forall_not_mem]
      intro k hk
      have hmem := eligibleKeys_workerState_subset hm hk
      rw [nextJob_eq_none_iff.mp hstop] at hmem
      cases hmem
    unfold processNext
    rw [hnone]
  · intro i j job job' hij h h'
    rcases Nat.lt_or_gt_of_ne hij with hlt | hlt
    · exact key_ne_of_lt hlt h h'
    · exact (key_ne_of_lt hlt h' h).symm

end Loop

end Loku
