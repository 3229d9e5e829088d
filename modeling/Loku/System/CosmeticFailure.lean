import Loku.Index.History
import Loku.Media.Drain
import Loku.Lib.Run

/-!
# Failures of thumbnails and failures of compat copies

One table of failures, keyed by path and content, serves both kinds of derivation. A system
here is the index together with a log of the compat derivations that were attempted and
failed; it runs through scans, flushes, probe passes and worker jobs in any order, each on
whatever files are there at that moment, so that sidecars and compat copies may be edited or
deleted between any two of them.

A row that needs a compat copy is kept from the candidates by nothing but a failed compat
derivation of its content, as long as no failed thumbnail extraction is recorded in the run
(`blocked_only_by_compat_failure`). A failed thumbnail is recorded in the same table, and
outlives the compat copy that was made with it.
-/

namespace Loku

/-- The index, and the compat derivations that were attempted and failed: the key of the row,
its size and its modification time. -/
structure LoggedIndex where
  index : Index
  failedCompats : List (RowKey × Int × Int)

/-- What the program does next, with the files it finds and how its children end. -/
inductive Activity
  | scan (faults : Faults) (disk : Library → Disk)
  | flush (faults : Faults) (disk : Disk) (dirty : List Dirty)
  | probe (faults : Faults) (runner : ProbeRunner)
  | job (refused : Refusals) (outcome : JobOutcome)

section System
variable (decoders : Decoders) (libraries : List Library) (roots : List (Library × Path))

/-- The log entry of a job whose compat derivation fails. -/
def failedCompat (index : Index) (outcome : JobOutcome) : List (RowKey × Int × Int) :=
  match nextJob libraries index with
  | some ⟨_, record, some _⟩ =>
    match outcome.compat with
    | .error _ => [(record.key, record.size, record.mtime)]
    | .ok () => []
  | _ => []

def Activity.run (s : LoggedIndex) : Activity → LoggedIndex
  | .scan faults disk => { s with index := (scanAll decoders faults disk libraries s.index).1 }
  | .flush faults disk dirty =>
    { s with index := Loku.flush decoders faults disk roots dirty s.index }
  | .probe faults runner => { s with index := (probePending faults runner libraries s.index).1 }
  | .job refused outcome =>
    { index := (processNext libraries refused outcome s.index).1
      failedCompats := failedCompat libraries s.index outcome ++ s.failedCompats }

def activityStep (s : LoggedIndex) (a : Activity) (s' : LoggedIndex) : Prop :=
  s' = a.run decoders libraries roots s

/-- The activity is not a job that records a failed thumbnail extraction. -/
def NoThumbnailFailure (s : LoggedIndex) : Activity → Prop
  | .job refused outcome => ∀ job, nextJob libraries s.index = some job →
      job.record.thumbRelPath = none → (∀ plan, job.plan = some plan → outcome.compat = .ok ()) →
      outcome.thumb = .ok () ∨ refused.recordFailure = true
  | _ => True

/-- A configured row that needs a compat copy is kept from the candidates, and shown as failed,
only if a compat derivation of its content failed. -/
def BlockedOnlyByCompatFailure (s : LoggedIndex) : Prop :=
  ∀ r ∈ s.index.videos, configured libraries r.record.library = true →
    r.record.compatRelPath = none →
    (∃ plan, decideDerivation (.ofRecord r.record false) = .produce plan) →
    s.index.recordFromRow r ∉ s.index.derivationCandidates ∨
      (derivationStatus (s.index.recordFromRow r) none).state = .failed →
    (r.key, r.record.size, r.record.mtime) ∈ s.failedCompats

def emptyLog : LoggedIndex := ⟨Index.openInMemory, []⟩

end System

/-! ## Codec facts have a source -/

def FactsHaveSource (r : VideoRecord) : Prop := r.codecSource = none → r.vcodec = none

theorem factsHaveSource_collect {decoders : Decoders} {t : FileTree} {library : Library}
    {root dir : Path} {record : VideoRecord}
    (h : record ∈ collectDirectory decoders t library root dir) : FactsHaveSource record := by
  obtain ⟨video, -, hbuild⟩ := mem_collectDirectory.mp h
  unfold buildRecord at hbuild
  obtain ⟨metadata, -, rfl⟩ := Option.map_eq_some_iff.mp hbuild
  intro hsource
  dsimp only at hsource ⊢
  split at hsource
  · cases hsource
  · rename_i hnone
    rw [Bool.or_eq_true, not_or, Option.not_isSome_iff_eq_none] at hnone
    exact hnone.1

theorem factsHaveSource_rowProperty (decoders : Decoders) :
    RowProperty decoders FactsHaveSource where
  stored t library root dir record hrecord := by
    have hfacts : FactsHaveSource record := factsHaveSource_collect hrecord
    exact hfacts
  conflict t library root dir record hrecord old _ hold := by
    have hfacts := factsHaveSource_collect hrecord
    unfold FactsHaveSource Index.conflictUpdate Index.keepCodec at *
    dsimp only at *
    cases hsource : record.codecSource with
    | some source =>
      have hstored : (Index.stored record).codecSource = some source := hsource
      rw [hstored]
      intro h
      cases h
    | none =>
      have hstored : (Index.stored record).codecSource = none := hsource
      rw [hstored]
      simp only [Option.isSome_none, Bool.false_eq_true, if_false]
      split
      · exact hold
      · exact fun _ => rfl
  probe probe record _ h := by cases h
  compat _ _ h := h
  thumb _ _ h := h

/-! ## Every failure is logged -/

section Invariant
variable {decoders : Decoders} {libraries : List Library} {roots : List (Library × Path)}

/-- Every recorded failure is that of a compat derivation, and rows have facts only with a
source. -/
structure FailuresLogged (s : LoggedIndex) : Prop where
  logged : ∀ f ∈ s.index.derivationFailures, (f.key, f.size, f.mtime) ∈ s.failedCompats
  facts : RowsSatisfy FactsHaveSource s.index

theorem failuresLogged_emptyLog : FailuresLogged emptyLog where
  logged f hf := absurd hf (Lib.Table.not_mem_empty f)
  facts r hr := absurd hr (Lib.Table.not_mem_empty r)

theorem FailuresLogged.writes {s : LoggedIndex} {index' : Index} (h : FailuresLogged s)
    (hw : Writes decoders s.index index') : FailuresLogged { s with index := index' } where
  logged f hf := h.logged f ((derivationFailures_of_writes hw) ▸ hf)
  facts := h.facts.writes (factsHaveSource_rowProperty decoders) hw

theorem mem_failures_recordJobFailure {refused : Refusals} {index : Index} {record : VideoRecord}
    {error : JobError} {f : Failure}
    (hf : f ∈ (recordJobFailure refused index record error).derivationFailures) :
    f ∈ index.derivationFailures ∨
      (f.key, f.size, f.mtime) = (record.key, record.size, record.mtime) := by
  unfold recordJobFailure at hf
  split at hf
  · exact Or.inl hf
  · have hself := Index.find?_recordDerivationFailure_self index record.library record.relPath
      record.size record.mtime error.text
    rcases Lib.Table.mem_upsert.mp hf with ⟨hold, -⟩ | hnew
    · exact Or.inl hold
    · right
      have hkey : f.key = record.key := by
        rw [hnew]
        exact Lib.Table.key_upserted fun _ => rfl
      have hfind := Lib.Table.find?_key hf
      rw [hkey] at hfind
      have heq := hfind.symm.trans hself
      cases heq
      rfl

/-- The failures after a job that records no failed thumbnail extraction. -/
theorem mem_failures_processNext {refused : Refusals} {outcome : JobOutcome} {s : LoggedIndex}
    (hok : NoThumbnailFailure libraries s (.job refused outcome)) {f : Failure}
    (hf : f ∈ (processNext libraries refused outcome s.index).1.derivationFailures) :
    f ∈ s.index.derivationFailures ∨
      (f.key, f.size, f.mtime) ∈ failedCompat libraries s.index outcome := by
  unfold processNext at hf
  unfold failedCompat
  cases hjob : nextJob libraries s.index with
  | none =>
    rw [hjob] at hf
    exact Or.inl hf
  | some job =>
    rw [hjob] at hf
    dsimp only at hf
    -- the thumbnail step records nothing
    have hthumb : ∀ index : Index,
        (∀ plan, job.plan = some plan → outcome.compat = .ok ()) →
        f ∈ (thumbnailStep refused outcome index job).derivationFailures →
        f ∈ index.derivationFailures := by
      intro index hcompat hmem
      rcases thumbnailStep_cases refused outcome index job with ⟨-, hstep⟩ | ⟨-, -, hstep⟩ |
        ⟨-, -, -, hstep⟩ | ⟨error, hnone, herror, hstep⟩
      · rwa [hstep] at hmem
      · rwa [hstep] at hmem
      · rw [hstep] at hmem
        exact hmem
      · rcases hok job hjob hnone hcompat with hmade | hrefused
        · cases hmade.symm.trans herror
        · rw [hstep] at hmem
          unfold recordJobFailure at hmem
          rwa [if_pos hrefused] at hmem
    rcases runJob_cases refused outcome s.index job with ⟨hplan, hrun⟩ |
      ⟨plan, hplan, hcompat, hrun⟩ | ⟨plan, error, hplan, hcompat, hrun⟩
    · rw [hrun] at hf
      refine Or.inl (hthumb s.index (fun p hp => ?_) hf)
      cases hplan.symm.trans hp
    · rw [hrun] at hf
      left
      have hmem := hthumb _ (fun _ _ => hcompat) hf
      unfold recordCompat at hmem
      split at hmem
      · exact hmem
      · exact hmem
    · rw [hrun] at hf
      rcases mem_failures_recordJobFailure hf with hold | hnew
      · exact Or.inl hold
      · right
        obtain ⟨library, record, _⟩ := job
        cases hplan
        dsimp only
        rw [hnew, hcompat]
        exact List.mem_cons_self

theorem FailuresLogged.step {s s' : LoggedIndex} {a : Activity} (h : FailuresLogged s)
    (hstep : activityStep decoders libraries roots s a s')
    (hok : NoThumbnailFailure libraries s a) : FailuresLogged s' := by
  unfold activityStep at hstep
  subst hstep
  cases a with
  | scan faults disk => exact h.writes (scanWrites_scanAll disk libraries s.index).writes
  | flush faults disk dirty =>
    exact h.writes (rowWrites_flush disk roots dirty s.index).scanWrites.writes
  | probe faults runner =>
    have hwrites : Writes decoders s.index (probePending faults runner libraries s.index).1 :=
      writes_probePending runner libraries s.index
    exact h.writes hwrites
  | job refused outcome =>
    refine ⟨?_, ?_⟩
    · intro f hf
      rcases mem_failures_processNext hok hf with hold | hnew
      · exact List.mem_append_right _ (h.logged f hold)
      · exact List.mem_append_left _ hnew
    · exact h.facts.workerWrites (factsHaveSource_rowProperty decoders)
        (writes_processNext libraries refused outcome s.index)

theorem FailuresLogged.blocked {s : LoggedIndex} (h : FailuresLogged s) :
    BlockedOnlyByCompatFailure libraries s := by
  intro r hr _ hcompat ⟨plan, hplan⟩ hblocked
  -- a row that can be planned has codec facts, so only a failure keeps it from the candidates
  have hsource : r.record.codecSource ≠ none := by
    intro hnone
    have hvcodec := h.facts r hr hnone
    unfold decideDerivation CompatInputs.ofRecord at hplan
    dsimp only at hplan
    rw [hvcodec] at hplan
    cases hplan
  have hfailure : s.index.failureOf r.record ≠ none := by
    intro hnone
    rcases hblocked with hnot | hfailed
    · refine hnot (mem_derivationCandidates.mpr ⟨r, hr, ?_, rfl⟩)
      unfold Index.isCandidate
      rw [hcompat, hnone, Option.isSome_iff_ne_none.mpr hsource]
      rfl
    · refine derivationError_of_failed hfailed ?_
      change (s.index.failureOf r.record).map Failure.error = none
      rw [hnone]
      rfl
  obtain ⟨f, hf⟩ := Option.ne_none_iff_exists'.mp hfailure
  unfold Index.failureOf at hf
  rw [Option.filter_eq_some_iff] at hf
  obtain ⟨hfind, hcontent⟩ := hf
  obtain ⟨hmem, hkey⟩ := Lib.Table.find?_eq_some_iff.mp hfind
  rw [Bool.and_eq_true, beq_iff_eq, beq_iff_eq] at hcontent
  have hlogged := h.logged f hmem
  rw [hkey, hcontent.1, hcontent.2] at hlogged
  exact hlogged

end Invariant

/-- In every run of scans, flushes, probe passes and jobs in which no failed thumbnail
extraction is recorded, only a failed compat derivation of its content keeps a row from getting
its compat copy. -/
theorem blocked_only_by_compat_failure {decoders : Decoders} {libraries : List Library}
    {roots : List (Library × Path)} {activities : List Activity} {s : LoggedIndex}
    (hrun : Lib.Run (Lib.guarded (activityStep decoders libraries roots)
      (NoThumbnailFailure libraries)) emptyLog activities s) :
    BlockedOnlyByCompatFailure libraries s :=
  (hrun.invariant (I := FailuresLogged) (fun _ _ _ hs h => hs.step h.1 h.2)
    failuresLogged_emptyLog).blocked

/-! ## A thumbnail failure that outlives its compat copy -/

namespace DeletedCompat

open OneVideo (tree library decoders)

def libraries : List Library := [library]

def runner : ProbeRunner := fun _ => .ok { vcodec := some "mpeg2video", acodec := some "ac3" }

/-- The compat derivation goes well, the thumbnail extraction does not. -/
def outcome : JobOutcome :=
  ⟨.ok (), .error (.derive (.ffmpegTimeout "/lib/Movie.mkv" 60))⟩

/-- Scan, probe and derive; then the operator deletes the compat copy and the library is scanned
again. -/
def activities : List Activity :=
  [.scan Faults.none fun _ => .still tree, .probe Faults.none runner, .job {} outcome,
    .scan Faults.none fun _ => .still tree]

def final : LoggedIndex := activities.foldl (Activity.run decoders libraries []) emptyLog

theorem run_of_foldl (decoders : Decoders) (libraries : List Library)
    (roots : List (Library × Path)) (activities : List Activity) (s : LoggedIndex) :
    Lib.Run (activityStep decoders libraries roots) s activities
      (activities.foldl (Activity.run decoders libraries roots) s) := by
  induction activities generalizing s with
  | nil => exact .nil s
  | cons a activities ih => exact .cons rfl (ih _)

theorem blocked_by_thumbnail_failure :
    ¬ ∀ (decoders : Decoders) (libraries : List Library) (roots : List (Library × Path))
      (activities : List Activity) (s : LoggedIndex),
      Lib.Run (activityStep decoders libraries roots) emptyLog activities s →
      BlockedOnlyByCompatFailure libraries s := by
  intro h
  have hfinal := h decoders libraries [] activities final (run_of_foldl ..)
  have hrow : ∃ r ∈ final.index.videos.rows,
      configured libraries r.record.library = true ∧ r.record.compatRelPath = none ∧
        decideDerivation (.ofRecord r.record false) =
          .produce ⟨.transcode false, .transcode⟩ ∧
        final.index.recordFromRow r ∉ final.index.derivationCandidates ∧
        (r.key, r.record.size, r.record.mtime) ∉ final.failedCompats := by
    decide
  obtain ⟨r, hr, hconfigured, hcompat, hplan, hnot, hlog⟩ := hrow
  exact hlog (hfinal r hr hconfigured hcompat ⟨_, hplan⟩ (Or.inl hnot))

/-- The same run with a thumbnail that is made. -/
def goodActivities : List Activity :=
  [.scan Faults.none fun _ => .still tree, .probe Faults.none runner,
    .job {} ⟨.ok (), .ok ()⟩, .scan Faults.none fun _ => .still tree]

theorem blocked_only_by_compat_failure_deletedCompat :
    BlockedOnlyByCompatFailure libraries
      (goodActivities.foldl (Activity.run decoders libraries []) emptyLog) := by
  refine @blocked_only_by_compat_failure decoders libraries [] goodActivities _ ?_
  refine .cons ⟨rfl, trivial⟩ (.cons ⟨rfl, trivial⟩ (.cons ⟨rfl, ?_⟩ (.cons ⟨rfl, trivial⟩
    (.nil _))))
  exact fun _ _ _ _ => Or.inl rfl

end DeletedCompat

end Loku
