import Loku.Index.History
import Loku.Media.Drain
import Loku.Lib.Run
import Mathlib.Data.Finset.Card

/-!
# Waking the worker

The maintenance task works in rounds: the first scan, and later each flush, with the probe pass
after it. A round ends by notifying the worker. The worker lists the candidates, announces the
job it picks, runs it and lists again; when it finds nothing it waits to be notified. Between
any two of its steps the maintenance task may write to the index, and the other way round.

A notification that finds nobody waiting is kept for the next wait, so none is lost: when the
worker waits, no notification is kept and no round is under way, no job is left and every item
with codec facts has a settled status (`no_lost_wakeup`). An item is reported as processing
exactly while the worker has announced it (`processing_iff_announced`), and once the maintenance
task waits the worker comes to rest after a bounded number of steps (`worker_comes_to_rest`).
-/

namespace Loku

/-! ## The system -/

/-- What is relied on of a notification with one waiter: what is given while nobody waits is kept,
and at most one is. -/
structure Notify where
  State : Type
  new : State
  notifyOne : State → State
  /-- The end of a wait, if a notification is kept. -/
  notified : State → Option State
  new_empty : notified new = none
  notifyOne_kept : ∀ s, notified (notifyOne s) ≠ none
  notified_once : ∀ s s', notified s = some s' → notified s' = none

/-- One stored permit. -/
def Notify.permit : Notify where
  State := Bool
  new := false
  notifyOne _ := true
  notified kept := if kept then some false else none
  new_empty := rfl
  notifyOne_kept _ := by simp
  notified_once s s' h := by cases s <;> cases h; rfl

inductive MaintenanceTask
  | round
  | waiting
deriving DecidableEq

/-- Where the worker is in its loop; a wait follows a listing that found nothing, or one that
failed. -/
inductive WorkerTask
  | listing
  | picked (job : Job)
  | running (job : Job)
  | thumbnail (job : Job)
  | finished (job : Job)
  | waiting (listed : Bool)

def Job.active (job : Job) : ActiveDerivation := ⟨job.record.library, job.record.relPath⟩

/-- What the worker has announced. -/
def WorkerTask.announced : WorkerTask → Option ActiveDerivation
  | .running job | .thumbnail job | .finished job => some job.active
  | _ => none

structure Server (notify : Notify) where
  libraries : List Library
  index : Index
  maintenance : MaintenanceTask
  worker : WorkerTask
  wake : notify.State
  /-- The status channel. -/
  active : Option ActiveDerivation

/-- A process that has opened the index. -/
def Server.start (notify : Notify) (libraries : List Library) (index : Index) : Server notify :=
  ⟨libraries, index, .round, .listing, notify.new, none⟩

/-- The compat part of `run_job`, and where it leads. -/
def compatStep (refused : Refusals) (outcome : JobOutcome) (index : Index) (job : Job) :
    Index × WorkerTask :=
  match job.plan with
  | none => (index, .thumbnail job)
  | some _ =>
    match outcome.compat with
    | .ok () => (recordCompat refused index job, .thumbnail job)
    | .error error => (recordJobFailure refused index job.record error, .finished job)

inductive ServerAction
  | write
  | notify
  | beginRound
  | list (failed : Bool)
  | announce
  | compat (refused : Refusals) (outcome : JobOutcome)
  | thumbnail (refused : Refusals) (outcome : JobOutcome)
  | clear
  | wake
  | pick
  | restart

/-- The worker's own steps, with its calls on the index accepted. -/
def ServerAction.OfWorker : ServerAction → Prop
  | .list _ | .announce | .clear | .wake => True
  | .compat refused _ | .thumbnail refused _ => refused = {}
  | _ => False

inductive ServerStep (decoders : Decoders) {notify : Notify} :
    Server notify → ServerAction → Server notify → Prop
  /-- A call of the scan, of a flush or of the probe pass. -/
  | write {s : Server notify} {index : Index} (hround : s.maintenance = .round)
      (hwrite : MaintenanceWrite decoders s.index index) :
      ServerStep decoders s .write { s with index := index }
  | notify {s : Server notify} (hround : s.maintenance = .round) :
      ServerStep decoders s .notify
        { s with maintenance := .waiting, wake := notify.notifyOne s.wake }
  /-- The deadline of the debounce has passed. -/
  | beginRound {s : Server notify} (hwaiting : s.maintenance = .waiting) :
      ServerStep decoders s .beginRound { s with maintenance := .round }
  | list {s : Server notify} (hworker : s.worker = .listing) :
      ServerStep decoders s (.list false)
        { s with
          worker :=
            match nextJob s.libraries s.index with
            | some job => .picked job
            | none => .waiting true }
  | listFails {s : Server notify} (hworker : s.worker = .listing) :
      ServerStep decoders s (.list true) { s with worker := .waiting false }
  | announce {s : Server notify} {job : Job} (hworker : s.worker = .picked job) :
      ServerStep decoders s .announce { s with worker := .running job, active := some job.active }
  | compat {s : Server notify} {job : Job} (refused : Refusals) (outcome : JobOutcome)
      (hworker : s.worker = .running job) :
      ServerStep decoders s (.compat refused outcome)
        { s with
          index := (compatStep refused outcome s.index job).1
          worker := (compatStep refused outcome s.index job).2 }
  | thumbnail {s : Server notify} {job : Job} (refused : Refusals) (outcome : JobOutcome)
      (hworker : s.worker = .thumbnail job) :
      ServerStep decoders s (.thumbnail refused outcome)
        { s with index := thumbnailStep refused outcome s.index job, worker := .finished job }
  | clear {s : Server notify} {job : Job} (hworker : s.worker = .finished job) :
      ServerStep decoders s .clear { s with worker := .listing, active := none }
  | wake {s : Server notify} {listed : Bool} {wake : notify.State}
      (hworker : s.worker = .waiting listed) (hwake : notify.notified s.wake = some wake) :
      ServerStep decoders s .wake { s with worker := .listing, wake := wake }
  /-- A main title is picked through the API. -/
  | pick {s : Server notify} (library discSet mainRelPath : String) :
      ServerStep decoders s .pick
        { s with index := s.index.setMainTitle library discSet mainRelPath }
  /-- The process ends, at any point, and another one opens the index. -/
  | restart {s : Server notify} (libraries : List Library) :
      ServerStep decoders s .restart (.start notify libraries s.index)

/-- The states of a server that starts on any index. -/
def Server.Reachable (decoders : Decoders) {notify : Notify} (s : Server notify) : Prop :=
  Lib.Reachable (ServerStep decoders)
    (fun s => ∃ libraries index, s = .start notify libraries index) s

/-- No round is under way, the worker waits after a listing that found nothing, and no notification
is kept. -/
structure Server.AtRest {notify : Notify} (s : Server notify) : Prop where
  maintenance : s.maintenance = .waiting
  worker : s.worker = .waiting true
  wake : notify.notified s.wake = none

/-- Every item of a configured library that has codec facts has a settled status. -/
def Server.Settled {notify : Notify} (s : Server notify) : Prop :=
  ∀ r ∈ s.index.videos, configured s.libraries r.record.library = true →
    r.record.codecSource ≠ none →
      (derivationStatus (s.index.recordFromRow r) s.active).state ∈
        [DerivationState.notNeeded, .done, .failed, .unknown]

/-! ## What every step keeps -/

/-- The worker overlooks no job: where it waits without a notification and no round is under way,
there is none. The status channel says what the worker has announced. -/
structure Server.Inv {notify : Notify} (s : Server notify) : Prop where
  overlooked : s.AtRest → nextJob s.libraries s.index = none
  active : s.active = s.worker.announced

section Steps
variable {decoders : Decoders} {notify : Notify} {s s' : Server notify} {a : ServerAction}

theorem nextJob_setMainTitle (libraries : List Library) (index : Index)
    (library discSet mainRelPath : String) :
    nextJob libraries (index.setMainTitle library discSet mainRelPath) =
      nextJob libraries index := rfl

theorem announced_compatStep (refused : Refusals) (outcome : JobOutcome) (index : Index)
    (job : Job) : (compatStep refused outcome index job).2.announced = some job.active := by
  unfold compatStep
  split
  · rfl
  · split <;> rfl

/-- A video is processing exactly when the status channel names it. -/
theorem derivationState_eq_processing_iff {record : VideoRecord}
    {active : Option ActiveDerivation} :
    derivationState record active = .processing ↔
      active = some ⟨record.library, record.relPath⟩ := by
  have hnamed : (active.any fun a => a.library == record.library && a.relPath == record.relPath) =
      true ↔ active = some ⟨record.library, record.relPath⟩ := by
    cases active with
    | none => simp
    | some a =>
      obtain ⟨library, relPath⟩ := a
      simp
  rw [← hnamed]
  unfold derivationState
  split
  · simp [*]
  · rename_i hany
    simp only [hany]
    split
    · decide
    · split
      · decide
      · split
        · decide
        · decide
        · split <;> decide

theorem Server.inv_start (libraries : List Library) (index : Index) :
    (Server.start notify libraries index).Inv where
  overlooked h := by cases h.maintenance
  active := rfl

theorem Server.Inv.step (h : s.Inv) (hstep : ServerStep decoders s a s') : s'.Inv := by
  obtain ⟨hover, hactive⟩ := h
  cases hstep with
  | write hround hwrite =>
    refine ⟨fun hrest => ?_, hactive⟩
    cases hround.symm.trans hrest.maintenance
  | notify hround =>
    refine ⟨fun hrest => ?_, hactive⟩
    exact absurd hrest.wake (notify.notifyOne_kept s.wake)
  | beginRound hwaiting =>
    refine ⟨fun hrest => ?_, hactive⟩
    cases hrest.maintenance
  | list hworker =>
    rw [hworker] at hactive
    refine ⟨fun hrest => ?_, ?_⟩
    · have hwaiting := hrest.worker
      dsimp only at hwaiting
      split at hwaiting
      · cases hwaiting
      · assumption
    · dsimp only
      split
      · exact hactive
      · exact hactive
  | listFails hworker =>
    rw [hworker] at hactive
    refine ⟨fun hrest => ?_, hactive⟩
    cases hrest.worker
  | announce hworker =>
    refine ⟨fun hrest => ?_, rfl⟩
    cases hrest.worker
  | compat refused outcome hworker =>
    rw [hworker] at hactive
    refine ⟨fun hrest => ?_, hactive.trans (announced_compatStep ..).symm⟩
    have hannounced := announced_compatStep refused outcome s.index ‹Job›
    rw [show (compatStep refused outcome s.index _).2 = _ from hrest.worker] at hannounced
    cases hannounced
  | thumbnail refused outcome hworker =>
    rw [hworker] at hactive
    refine ⟨fun hrest => ?_, hactive⟩
    cases hrest.worker
  | clear hworker =>
    refine ⟨fun hrest => ?_, rfl⟩
    cases hrest.worker
  | wake hworker hwake =>
    rw [hworker] at hactive
    refine ⟨fun hrest => ?_, hactive⟩
    cases hrest.worker
  | pick library discSet mainRelPath =>
    refine ⟨fun hrest => ?_, hactive⟩
    rw [nextJob_setMainTitle]
    exact hover ⟨hrest.maintenance, hrest.worker, hrest.wake⟩
  | restart libraries => exact Server.inv_start libraries s.index

theorem Server.Reachable.inv (h : s.Reachable decoders) : s.Inv := by
  apply Lib.Reachable.invariant _ _ h
  · rintro _ ⟨libraries, index, rfl⟩
    exact Server.inv_start libraries index
  · exact fun _ _ _ h hstep => h.step hstep

/-- With no job left, every status is settled. -/
theorem Server.Inv.settled (h : s.Inv) (hrest : s.AtRest) : s.Settled := by
  intro r hr hconfigured hfacts
  have hactive : s.active = none := by
    rw [h.active, hrest.worker]
    rfl
  rw [hactive]
  exact derivationState_ne_pending hr (h.overlooked hrest) hconfigured hfacts

/-- The worker's steps leave the maintenance task and the libraries. -/
theorem frame_ofWorker (hstep : ServerStep decoders s a s') (hworker : a.OfWorker) :
    s'.maintenance = s.maintenance ∧ s'.libraries = s.libraries := by
  cases hstep with
  | write | notify | beginRound | pick | restart => cases hworker
  | list | listFails | announce | compat | thumbnail | clear | wake => exact ⟨rfl, rfl⟩

end Steps

/-! ## The steps of one job -/

section Job
variable {refused : Refusals} {outcome : JobOutcome} {index : Index} {job : Job}

/-- After its compat part a job is at its thumbnail, or it has failed. -/
theorem compatStep_cases (refused : Refusals) (outcome : JobOutcome) (index : Index) (job : Job) :
    ((compatStep refused outcome index job).2 = .thumbnail job ∧
      ∀ outcome', outcome'.compat = outcome.compat → runJob refused outcome' index job =
        thumbnailStep refused outcome' (compatStep refused outcome index job).1 job) ∨
    ((compatStep refused outcome index job).2 = .finished job ∧
      runJob refused outcome index job = (compatStep refused outcome index job).1) := by
  unfold compatStep runJob
  cases hplan : job.plan with
  | none => exact Or.inl ⟨rfl, fun _ _ => rfl⟩
  | some plan =>
    cases houtcome : outcome.compat with
    | ok =>
      refine Or.inl ⟨rfl, fun outcome' h => ?_⟩
      rw [h]
    | error error => exact Or.inr ⟨rfl, rfl⟩

theorem agreeAt_compatStep {k : RowKey} (hk : k ≠ job.record.key) :
    AgreeAt index (compatStep refused outcome index job).1 k := by
  unfold compatStep
  split
  · exact ⟨rfl, rfl⟩
  · split
    · exact agreeAt_recordCompat hk
    · exact agreeAt_recordJobFailure hk

theorem length_rows_updateRecord (videos : Lib.Table Row.key) (k : RowKey)
    (f : VideoRecord → VideoRecord) (hf : ∀ r, (f r).key = r.key) :
    (Index.updateRecord videos k f hf).rows.length = videos.rows.length :=
  List.length_map _

theorem length_rows_recordJobFailure (record : VideoRecord) (error : JobError) :
    (recordJobFailure refused index record error).videos.rows.length =
      index.videos.rows.length := by
  unfold recordJobFailure
  split <;> rfl

theorem length_rows_compatStep :
    (compatStep refused outcome index job).1.videos.rows.length = index.videos.rows.length := by
  unfold compatStep
  split
  · rfl
  · split
    · unfold recordCompat
      split
      · rfl
      · exact length_rows_updateRecord index.videos _ (Index.withCompat _) fun _ => rfl
    · exact length_rows_recordJobFailure ..

theorem length_rows_thumbnailStep :
    (thumbnailStep refused outcome index job).videos.rows.length = index.videos.rows.length := by
  unfold thumbnailStep
  split
  · split
    · split
      · rfl
      · exact length_rows_updateRecord index.videos _ (Index.withThumb _) fun _ => rfl
    · exact length_rows_recordJobFailure ..
  · rfl

/-- A listing that finds a job and the steps that follow, up to the next listing, are one
`processNext`. -/
theorem run_processNext {decoders : Decoders} {notify : Notify} {s : Server notify}
    (hlisting : s.worker = .listing) (hjob : nextJob s.libraries s.index = some job)
    (refused : Refusals) (outcome : JobOutcome) :
    ∃ as, Lib.Run (ServerStep decoders) s as
      { s with
        index := (processNext s.libraries refused outcome s.index).1
        worker := .listing
        active := none } := by
  have hnext : (processNext s.libraries refused outcome s.index).1 =
      runJob refused outcome s.index job := by
    unfold processNext
    rw [hjob]
  have hlist : ServerStep decoders s (.list false) _ := .list hlisting
  rw [hjob] at hlist
  have hcompat : ServerStep decoders
      { s with worker := .running job, active := some job.active } (.compat refused outcome) _ :=
    .compat refused outcome rfl
  rw [hnext]
  rcases compatStep_cases refused outcome s.index job with ⟨hworker, hrun⟩ | ⟨hworker, hrun⟩
  · rw [hrun outcome rfl]
    dsimp only at hcompat
    rw [hworker] at hcompat
    exact ⟨_, .cons hlist (.cons (.announce rfl) (.cons hcompat
      (.cons (.thumbnail refused outcome rfl) (.single (.clear rfl)))))⟩
  · rw [hrun]
    dsimp only at hcompat
    rw [hworker] at hcompat
    exact ⟨_, .cons hlist (.cons (.announce rfl) (.cons hcompat (.single (.clear rfl))))⟩

end Job

/-! ## Coming to rest -/

/-- The rows the worker would take on. -/
def eligible (libraries : List Library) (index : Index) : Finset RowKey :=
  (eligibleKeys libraries index).toFinset

/-- What is left of the worker's job makes its row ineligible, however it ends. -/
def WorkerTask.Settles (libraries : List Library) (index : Index) : WorkerTask → Prop
  | .picked job | .running job =>
    ∀ outcome, job.record.key ∉ eligible libraries (runJob {} outcome index job)
  | .thumbnail job =>
    ∀ outcome, job.record.key ∉ eligible libraries (thumbnailStep {} outcome index job)
  | .finished job => job.record.key ∉ eligible libraries index
  | _ => True

open Classical in
/-- The eligible rows that a job leaves; for a job whose row has changed since it was picked, all
the rows there are. -/
noncomputable def Server.left {notify : Notify} (s : Server notify) (job : Job) : Nat :=
  if s.worker.Settles s.libraries s.index then
    ((eligible s.libraries s.index).erase job.record.key).card
  else s.index.videos.rows.length

open Classical in
/-- Whether a notification is kept. -/
noncomputable def Server.kept {notify : Notify} (s : Server notify) : Nat :=
  if notify.notified s.wake = none then 0 else 1

/-- How many steps the worker can take, at most, with nobody else about. -/
noncomputable def Server.rank {notify : Notify} (s : Server notify) : Nat :=
  match s.worker with
  | .listing => 5 * (eligible s.libraries s.index).card + 1 + 2 * s.kept
  | .picked job => 5 * s.left job + 5 + 2 * s.kept
  | .running job => 5 * s.left job + 4 + 2 * s.kept
  | .thumbnail job => 5 * s.left job + 3 + 2 * s.kept
  | .finished job => 5 * s.left job + 2 + 2 * s.kept
  | .waiting _ => (5 * (eligible s.libraries s.index).card + 2) * s.kept

section Rest
variable {libraries : List Library} {index index' : Index} {k : RowKey}

theorem mem_eligible_congr (h : AgreeAt index index' k) :
    k ∈ eligible libraries index' ↔ k ∈ eligible libraries index := by
  unfold eligible
  simp only [List.mem_toFinset, mem_eligibleKeys, h.1]
  apply exists_congr
  intro r
  apply and_congr_right
  intro hr
  rw [isEligible_congr ((Lib.Table.find?_eq_some_iff.mp hr).2 ▸ h)]

/-- What touches one row leaves the other eligible ones. -/
theorem erase_eligible (libraries : List Library) (h : ∀ k', k' ≠ k → AgreeAt index index' k') :
    (eligible libraries index').erase k = (eligible libraries index).erase k := by
  ext k'
  rw [Finset.mem_erase, Finset.mem_erase]
  exact and_congr_right fun hne => mem_eligible_congr (h k' hne)

/-- What makes a job's row ineligible is still to come after its compat part, or has come. -/
theorem settles_compatStep {job : Job} (outcome : JobOutcome)
    (h : (WorkerTask.running job).Settles libraries index) :
    (compatStep {} outcome index job).2.Settles libraries (compatStep {} outcome index job).1 := by
  rcases compatStep_cases {} outcome index job with ⟨hnext, hrun⟩ | ⟨hnext, hrun⟩
  · rw [hnext]
    intro outcome'
    have hsettles := h ⟨outcome.compat, outcome'.thumb⟩
    rw [hrun ⟨outcome.compat, outcome'.thumb⟩ rfl] at hsettles
    exact hsettles
  · rw [hnext]
    have hsettles := h outcome
    rw [hrun] at hsettles
    exact hsettles

theorem card_eligible_le (libraries : List Library) (index : Index) :
    (eligible libraries index).card ≤ index.videos.rows.length := by
  refine (List.toFinset_card_le _).trans ?_
  unfold eligibleKeys
  rw [List.length_map]
  exact List.length_filter_le ..

section Rank
variable {decoders : Decoders} {notify : Notify} {s s' : Server notify} {a : ServerAction}
  {job : Job}

theorem Server.left_le (s s' : Server notify) (job : Job) (hlibraries : s'.libraries = s.libraries)
    (hrows : s'.index.videos.rows.length = s.index.videos.rows.length)
    (hagree : ∀ k, k ≠ job.record.key → AgreeAt s.index s'.index k)
    (hsettles : s.worker.Settles s.libraries s.index → s'.worker.Settles s'.libraries s'.index) :
    s'.left job ≤ s.left job := by
  have herase := erase_eligible s.libraries hagree
  have hle : ((eligible s.libraries s'.index).erase job.record.key).card ≤
      s.index.videos.rows.length :=
    (Finset.card_le_card (Finset.erase_subset _ _)).trans ((card_eligible_le _ _).trans hrows.le)
  unfold Server.left
  rw [hlibraries]
  rw [hlibraries] at hsettles
  split
  · split
    · rw [herase]
    · exact hle
  · rename_i hnot
    rw [if_neg fun h => hnot (hsettles h)]
    exact hrows.le

/-- A job that was just picked makes its row ineligible. -/
theorem left_picked (hjob : nextJob s.libraries s.index = some job)
    (hworker : s.worker = .picked job) :
    s.left job + 1 = (eligible s.libraries s.index).card := by
  have hkey : job.record.key ∈ eligible s.libraries s.index :=
    List.mem_toFinset.mpr (key_mem_eligibleKeys hjob)
  have hsettles : s.worker.Settles s.libraries s.index := by
    rw [hworker]
    intro outcome hmem
    have hnext : (processNext s.libraries {} outcome s.index).1 =
        runJob {} outcome s.index job := by
      unfold processNext
      rw [hjob]
    rw [← hnext] at hmem
    exact ((mem_eligibleKeys_processNext hjob).mp (List.mem_toFinset.mp hmem)).2 rfl
  unfold Server.left
  rw [if_pos hsettles]
  exact Finset.card_erase_add_one hkey

/-- After its job, the worker finds no more eligible rows than it counted on. -/
theorem card_eligible_le_left (hworker : s.worker = .finished job) :
    (eligible s.libraries s.index).card ≤ s.left job := by
  unfold Server.left
  split
  · rename_i hsettles
    rw [hworker] at hsettles
    rw [Finset.erase_eq_of_notMem hsettles]
  · exact card_eligible_le _ _

theorem kept_le_one : s.kept ≤ 1 := by
  unfold Server.kept
  split <;> omega

theorem kept_eq_zero : s.kept = 0 ↔ notify.notified s.wake = none := by
  unfold Server.kept
  split <;> simp [*]

/-- Each of the worker's steps brings it closer to rest. -/
theorem rank_lt (hstep : ServerStep decoders s a s') (hofWorker : a.OfWorker) :
    s'.rank < s.rank := by
  cases hstep with
  | write | notify | beginRound | pick | restart => cases hofWorker
  | list hworker =>
    cases hjob : nextJob s.libraries s.index with
    | none =>
      have hempty : (eligible s.libraries s.index).card = 0 := by
        unfold eligible
        rw [nextJob_eq_none_iff.mp hjob]
        rfl
      simp only [Server.rank, hworker, hempty, Server.kept]
      split <;> omega
    | some job =>
      have hleft := left_picked (s := { s with worker := .picked job }) hjob rfl
      simp only [Server.rank, hworker, Server.kept] at hleft ⊢
      omega
  | listFails hworker =>
    simp only [Server.rank, hworker, Server.kept]
    split <;> omega
  | @announce job hworker =>
    have hleft := Server.left_le s
      { s with worker := .running job, active := some job.active } job rfl rfl
      (fun _ _ => ⟨rfl, rfl⟩) (by rw [hworker]; exact id)
    simp only [Server.rank, hworker, Server.kept] at hleft ⊢
    omega
  | @compat job refused outcome hworker =>
    obtain rfl : refused = {} := hofWorker
    have hleft := Server.left_le s
      { s with
        index := (compatStep {} outcome s.index job).1
        worker := (compatStep {} outcome s.index job).2 }
      job rfl length_rows_compatStep (fun _ hk => agreeAt_compatStep hk)
      (by rw [hworker]; exact settles_compatStep outcome)
    rcases compatStep_cases {} outcome s.index job with ⟨hnext, -⟩ | ⟨hnext, -⟩
    · simp only [Server.rank, hworker, hnext, Server.kept] at hleft ⊢
      omega
    · simp only [Server.rank, hworker, hnext, Server.kept] at hleft ⊢
      omega
  | @thumbnail job refused outcome hworker =>
    obtain rfl : refused = {} := hofWorker
    have hleft := Server.left_le s
      { s with index := thumbnailStep {} outcome s.index job, worker := .finished job } job
      rfl length_rows_thumbnailStep (fun _ hk => agreeAt_thumbnailStep hk)
      (by rw [hworker]; exact fun h => h outcome)
    simp only [Server.rank, hworker, Server.kept] at hleft ⊢
    omega
  | @clear job hworker =>
    have hleft := card_eligible_le_left hworker
    simp only [Server.rank, hworker, Server.kept] at hleft ⊢
    omega
  | @wake listed wake hworker hwake =>
    have hkept : s.kept = 1 := by
      have hne : s.kept ≠ 0 := by
        rw [ne_eq, kept_eq_zero, hwake]
        exact Option.some_ne_none wake
      have hle := kept_le_one (s := s)
      omega
    have honce := notify.notified_once _ _ hwake
    simp only [Server.rank, hworker, Server.kept, honce] at hkept ⊢
    rw [hkept]
    simp

/-- The bound on the worker's steps. -/
theorem rank_le (s : Server notify) : s.rank ≤ 5 * s.index.videos.rows.length + 7 := by
  have hcard := card_eligible_le s.libraries s.index
  have hleft : ∀ job, s.left job ≤ s.index.videos.rows.length := by
    intro job
    unfold Server.left
    split
    · exact (Finset.card_le_card (Finset.erase_subset _ _)).trans hcard
    · exact le_rfl
  have hkept := kept_le_one (s := s)
  unfold Server.rank
  cases s.worker with
  | listing => dsimp only; omega
  | picked job | running job | thumbnail job | finished job =>
    have hle := hleft job
    dsimp only
    omega
  | waiting listed =>
    dsimp only
    have hmul := Nat.mul_le_mul_left (5 * (eligible s.libraries s.index).card + 2) hkept
    omega

/-- A worker that can take no step waits, and no notification is kept for it. -/
theorem waiting_of_stuck (h : ∀ a s', a.OfWorker → ¬ ServerStep decoders s a s') :
    ∃ listed, s.worker = .waiting listed ∧ notify.notified s.wake = none := by
  let outcome : JobOutcome := ⟨.ok (), .ok ()⟩
  cases hworker : s.worker with
  | listing => exact absurd (.list hworker) (h (.list false) _ trivial)
  | picked job => exact absurd (.announce hworker) (h .announce _ trivial)
  | running job => exact absurd (.compat {} outcome hworker) (h (.compat {} outcome) _ rfl)
  | thumbnail job => exact absurd (.thumbnail {} outcome hworker) (h (.thumbnail {} outcome) _ rfl)
  | finished job => exact absurd (.clear hworker) (h .clear _ trivial)
  | waiting listed =>
    refine ⟨listed, rfl, ?_⟩
    cases hwake : notify.notified s.wake with
    | none => rfl
    | some wake => exact absurd (.wake hworker hwake) (h .wake _ trivial)

end Rank

end Rest

/-! ## Runs -/

section Runs
variable {decoders : Decoders} {notify : Notify} {s s' : Server notify}

/-- When the worker waits after a listing that found nothing, with no notification kept and no
round under way, no job is left and every item with codec facts has a settled status. -/
theorem no_lost_wakeup (h : s.Reachable decoders) (hrest : s.AtRest) :
    nextJob s.libraries s.index = none ∧ s.Settled :=
  ⟨h.inv.overlooked hrest, h.inv.settled hrest⟩

/-- An item is reported as processing exactly while the worker has announced it: in no state after
a restart, and for one item at a time. -/
theorem processing_iff_announced (h : s.Reachable decoders) (record : VideoRecord) :
    (derivationStatus record s.active).state = .processing ↔
      s.worker.announced = some ⟨record.library, record.relPath⟩ := by
  change derivationState record s.active = .processing ↔ _
  rw [derivationState_eq_processing_iff, h.inv.active]

/-- Once the maintenance task waits, the worker alone takes at most a bounded number of steps. When
it can take no more it waits with no notification kept, and if its last listing did not fail,
every item with codec facts has a settled status. -/
theorem worker_comes_to_rest {as : List ServerAction} (h : s.Reachable decoders)
    (hwaiting : s.maintenance = .waiting) (hrun : Lib.Run (ServerStep decoders) s as s')
    (hworker : ∀ a ∈ as, a.OfWorker) :
    as.length ≤ 5 * s.index.videos.rows.length + 7 ∧
      ((∀ a s'', a.OfWorker → ¬ ServerStep decoders s' a s'') →
        ∃ listed, s'.worker = .waiting listed ∧ notify.notified s'.wake = none ∧
          (listed = true → s'.AtRest ∧ s'.Settled)) := by
  have hrank := hrun.length_add_rank_le Server.rank
    (fun _ _ _ hstep (hof : ServerAction.OfWorker _) => rank_lt hstep hof) hworker
  have hframe : s'.maintenance = .waiting := by
    apply hrun.invariant_of_actions (I := fun s => s.maintenance = .waiting) _ hworker hwaiting
    exact fun s a s' hs hstep hof => (frame_ofWorker hstep hof).1.trans hs
  have hreach : s'.Reachable decoders := by
    obtain ⟨s₀, as₀, hstart, hrun₀⟩ := h
    exact ⟨s₀, as₀ ++ as, hstart, hrun₀.append hrun⟩
  refine ⟨by have hle := rank_le s; omega, fun hstuck => ?_⟩
  obtain ⟨listed, hlisted, hwake⟩ := waiting_of_stuck hstuck
  refine ⟨listed, hlisted, hwake, ?_⟩
  rintro rfl
  have hrest : s'.AtRest := ⟨hframe, hlisted, hwake⟩
  exact ⟨hrest, hreach.inv.settled hrest⟩

end Runs

/-! ## A server that comes to rest -/

namespace Discs

def record : VideoRecord :=
  { VideoRecord.placed "discs" "Alien.mkv" "" "Alien.mkv" 3 5 with
    container := "mkv"
    vcodec := some "h264"
    codecSource := some .ffprobe }

def index : Index := ⟨⟨[⟨1, record, 1⟩], by decide⟩, .empty, .empty, .empty, none⟩

def libraries : List Library := [⟨"discs", [], .discs⟩]

/-- The index with the one compat copy that was to be made. -/
def derived : Index := (processNext libraries {} ⟨.ok (), .ok ()⟩ index).1

/-- The worker waits, with the notification of the first round still kept. -/
def kept : Server .permit := ⟨libraries, derived, .waiting, .waiting true, true, none⟩

def rested : Server .permit := ⟨libraries, derived, .waiting, .waiting true, false, none⟩

theorem list_derived (wake : Notify.permit.State) :
    ServerStep OneVideo.decoders ⟨libraries, derived, .waiting, .listing, wake, none⟩ (.list false)
      ⟨libraries, derived, .waiting, .waiting true, wake, none⟩ := by
  have hlist : ServerStep OneVideo.decoders _ (.list false) _ :=
    .list (s := ⟨libraries, derived, .waiting, .listing, wake, none⟩) rfl
  rwa [show nextJob libraries derived = none from by decide] at hlist

theorem reachable_kept : kept.Reachable OneVideo.decoders := by
  obtain ⟨job, hjob⟩ : ∃ job, nextJob libraries index = some job :=
    Option.isSome_iff_exists.mp (by decide)
  obtain ⟨as, hrun⟩ := run_processNext (s := .start .permit libraries index) rfl hjob {}
    ⟨.ok (), .ok ()⟩
  exact ⟨_, _, ⟨libraries, index, rfl⟩,
    hrun.append (.cons (.notify rfl) (.single (list_derived true)))⟩

theorem run_rested :
    Lib.Run (ServerStep OneVideo.decoders) kept [.wake, .list false] rested :=
  .cons (.wake rfl rfl) (.single (list_derived false))

theorem no_lost_wakeup_rested :
    nextJob rested.libraries rested.index = none ∧ rested.Settled := by
  obtain ⟨s₀, as, hstart, hrun⟩ := reachable_kept
  exact no_lost_wakeup ⟨s₀, _, hstart, hrun.append run_rested⟩ ⟨rfl, rfl, rfl⟩

theorem worker_comes_to_rest_kept :
    [ServerAction.wake, .list false].length ≤ 5 * kept.index.videos.rows.length + 7 ∧
      ((∀ a s'', a.OfWorker → ¬ ServerStep OneVideo.decoders rested a s'') →
        ∃ listed, rested.worker = .waiting listed ∧ Notify.permit.notified rested.wake = none ∧
          (listed = true → rested.AtRest ∧ rested.Settled)) :=
  worker_comes_to_rest reachable_kept rfl run_rested (by simp [ServerAction.OfWorker])

end Discs

end Loku
