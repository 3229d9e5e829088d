import Loku.Index.History
import Loku.Lib.Memo
import Loku.Lib.Run
import Loku.Media.ProbePass

/-!
# Probed facts belong to the content and are probed once

The maintenance task reconciles (a scan, or a flush) and then makes a probe pass to its end,
before it reconciles again. A step is one call on the index or one answer of the runner; the
worker's writes come in between anywhere, any call may be refused, and the server may be
restarted at any step, with other libraries. `ProbeSystem.log` lists what the runner was asked
and what was recorded.

`recordProbe` updates the row of a key without looking at its size and mtime. The invariant says
why this is right: while a pass is under way the rows of its remaining candidates have the size
and the mtime they were listed with (`pending`). The cache keeps what was recorded last
(`cached`), so the runner is asked about another size or mtime than that (`fresh`).
-/

namespace Loku

/-- What a probe is about: the size and the mtime of a path. -/
def ProbeCandidate.version (candidate : ProbeCandidate) : Int × Int :=
  (candidate.size, candidate.mtime)

abbrev ProbeLog := List (Lib.MemoEvent RowKey (Int × Int))

/-- Where the maintenance task is in its round. -/
inductive ProbePhase
  | reconciling
  | probing (todo : List ProbeCandidate)
  | asking (candidate : ProbeCandidate) (todo : List ProbeCandidate)
  | recording (candidate : ProbeCandidate) (probe : ProbeResult) (todo : List ProbeCandidate)

/-- The candidates of a pass that are not recorded yet. -/
def ProbePhase.pending : ProbePhase → List ProbeCandidate
  | reconciling => []
  | probing todo => todo
  | asking candidate todo => candidate :: todo
  | recording candidate _ todo => candidate :: todo

structure ProbeSystem where
  index : Index
  libraries : List Library
  phase : ProbePhase
  log : ProbeLog

/-- After an answer: what is to be recorded, if anything. -/
def ProbePhase.answered (candidate : ProbeCandidate) (todo : List ProbeCandidate)
    (result : Except ProbeError ProbeResult) : ProbePhase :=
  match settle result with
  | some probe => .recording candidate probe todo
  | none => .probing todo

theorem ProbePhase.answered_error (candidate : ProbeCandidate) (todo : List ProbeCandidate)
    (error : ProbeError) : ProbePhase.answered candidate todo (.error error) =
      if error.isDefinitive then .recording candidate {} todo else .probing todo := by
  unfold ProbePhase.answered settle
  dsimp only
  by_cases h : error.isDefinitive = true
  · rw [if_pos h, if_pos h]
  · rw [if_neg h, if_neg h]

inductive ProbeAction
  | reconcile
  | begin
  | skip
  | hit
  | ask
  | answer
  | record
  | refuse
  | finish
  | worker
  | restart
deriving DecidableEq

inductive ProbeSystemStep (decoders : Decoders) :
    ProbeSystem → ProbeAction → ProbeSystem → Prop
  /-- A call of the scan or of a flush. -/
  | reconcile {s : ProbeSystem} {index : Index} (hphase : s.phase = .reconciling)
      (hwrite : ScanWrite decoders s.index index) :
      ProbeSystemStep decoders s .reconcile { s with index := index }
  | begin {s : ProbeSystem} (hphase : s.phase = .reconciling) :
      ProbeSystemStep decoders s .begin { s with phase := .probing s.index.videosNeedingProbe }
  /-- The library is not configured, or the cache cannot be consulted. -/
  | skip {s : ProbeSystem} {candidate : ProbeCandidate} {todo : List ProbeCandidate}
      (hphase : s.phase = .probing (candidate :: todo)) :
      ProbeSystemStep decoders s .skip { s with phase := .probing todo }
  | hit {s : ProbeSystem} {candidate : ProbeCandidate} {todo : List ProbeCandidate}
      {cached : ProbeResult} (hphase : s.phase = .probing (candidate :: todo))
      (hcached : s.index.cachedProbe candidate = some cached) :
      ProbeSystemStep decoders s .hit { s with phase := .recording candidate cached todo }
  /-- The runner is asked to probe. -/
  | ask {s : ProbeSystem} {candidate : ProbeCandidate} {todo : List ProbeCandidate}
      {library : Library} (hphase : s.phase = .probing (candidate :: todo))
      (hlibrary : (s.libraries.find? fun l => l.name == candidate.library) = some library)
      (hmiss : s.index.cachedProbe candidate = none) :
      ProbeSystemStep decoders s .ask
        { s with
          phase := .asking candidate todo
          log := s.log ++ [.asked candidate.key candidate.version] }
  | answer {s : ProbeSystem} {candidate : ProbeCandidate} {todo : List ProbeCandidate}
      (result : Except ProbeError ProbeResult) (hphase : s.phase = .asking candidate todo) :
      ProbeSystemStep decoders s .answer { s with phase := .answered candidate todo result }
  | record {s : ProbeSystem} {candidate : ProbeCandidate} {probe : ProbeResult}
      {todo : List ProbeCandidate} (hphase : s.phase = .recording candidate probe todo) :
      ProbeSystemStep decoders s .record
        { s with
          index := s.index.recordProbe candidate probe
          phase := .probing todo
          log := s.log ++ [.recorded candidate.key candidate.version] }
  /-- The result could not be recorded; the row is left for the next pass. -/
  | refuse {s : ProbeSystem} {candidate : ProbeCandidate} {probe : ProbeResult}
      {todo : List ProbeCandidate} (hphase : s.phase = .recording candidate probe todo) :
      ProbeSystemStep decoders s .refuse { s with phase := .probing todo }
  | finish {s : ProbeSystem} (hphase : s.phase = .probing []) :
      ProbeSystemStep decoders s .finish { s with phase := .reconciling }
  | worker {s : ProbeSystem} {index : Index} (hwrite : WorkerWrite s.index index) :
      ProbeSystemStep decoders s .worker { s with index := index }
  | restart {s : ProbeSystem} (libraries : List Library) :
      ProbeSystemStep decoders s .restart
        { s with libraries := libraries, phase := .reconciling }

/-- A fresh database. -/
def probeStart (libraries : List Library) : ProbeSystem where
  index := .openInMemory
  libraries := libraries
  phase := .reconciling
  log := []

/-! ## The invariant -/

/-- The codec facts of a row marked as probed are those cached for its size and mtime. -/
def CachedFacts (cache : Lib.Table ProbeEntry.key) (r : VideoRecord) : Prop :=
  r.codecSource = some .ffprobe → ∃ e ∈ cache, e.candidate = .ofRecord r ∧
    e.probe.vcodec = r.vcodec ∧ e.probe.acodec = r.acodec ∧ e.probe.vprofile = r.vprofile ∧
    e.probe.fieldOrder = r.fieldOrder

structure ProbeSystem.Inv (s : ProbeSystem) : Prop where
  facts : RowsSatisfy (CachedFacts s.index.probeCache) s.index
  pending : ∀ c ∈ s.phase.pending, ∀ r ∈ s.index.videos, r.key = c.key →
    ProbeCandidate.ofRecord r.record = c
  cached : ∀ k, (s.index.probeCache.find? k).map (fun e => e.candidate.version) =
    Lib.lastRecorded s.log k
  fresh : Lib.AsksFresh s.log

/-! ## The facts -/

section Facts
variable {decoders : Decoders} {index index' : Index}

/-- The conflict clause keeps probed facts with their size and mtime, or drops them. -/
theorem CachedFacts.conflictUpdate {cache : Lib.Table ProbeEntry.key} {excluded old : VideoRecord}
    (hold : CachedFacts cache old) (hkey : old.key = excluded.key)
    (hsource : excluded.codecSource ≠ some .ffprobe) :
    CachedFacts cache (Index.conflictUpdate excluded old) := by
  intro hprobed
  unfold Index.conflictUpdate Index.keepCodec at hprobed ⊢
  dsimp only at hprobed ⊢
  split at hprobed
  · exact absurd hprobed hsource
  · rename_i hnone
    split at hprobed
    · rename_i hunchanged
      obtain ⟨e, he, hcandidate, hfacts⟩ := hold hprobed
      refine ⟨e, he, ?_, ?_⟩
      · obtain ⟨hlib, hrel⟩ := Prod.mk.inj hkey
        simp only [Index.unchanged, Bool.and_eq_true, beq_iff_eq] at hunchanged
        rw [hcandidate]
        simp only [ProbeCandidate.ofRecord, hunchanged]
      · simpa only [if_neg hnone, if_pos hunchanged] using hfacts
    · cases hprobed

theorem facts_scanWrite (h : RowsSatisfy (CachedFacts index.probeCache) index)
    (hwrite : ScanWrite decoders index index') :
    RowsSatisfy (CachedFacts index'.probeCache) index' := by
  rw [probeCache_of_scanWrite hwrite]
  refine h.scanWrite ?_ ?_ hwrite
  · intro t library root dir record hrecord hprobed
    have hsource := codecSource_of_mem_collect hrecord
    exact absurd hprobed hsource
  · intro t library root dir record hrecord old hkey hold
    have hsource := codecSource_of_mem_collect hrecord
    exact CachedFacts.conflictUpdate hold hkey hsource

theorem facts_workerWrite (h : RowsSatisfy (CachedFacts index.probeCache) index)
    (hwrite : WorkerWrite index index') : RowsSatisfy (CachedFacts index'.probeCache) index' := by
  cases hwrite with
  | setCompat library relPath compat =>
    exact forall_mem_updateRecord (f := Index.withCompat compat) (fun _ => rfl)
      (fun _ hr => hr) h
  | setThumb library relPath thumb =>
    exact forall_mem_updateRecord (f := Index.withThumb thumb) (fun _ => rfl)
      (fun _ hr => hr) h
  | recordDerivationFailure library relPath size mtime error => exact h

/-- Recording is right for a row that still has the size and mtime of the candidate. -/
theorem facts_recordProbe (h : RowsSatisfy (CachedFacts index.probeCache) index)
    {candidate : ProbeCandidate} (probe : ProbeResult)
    (hpending : ∀ r ∈ index.videos, r.key = candidate.key →
      ProbeCandidate.ofRecord r.record = candidate) :
    RowsSatisfy (CachedFacts (index.recordProbe candidate probe).probeCache)
      (index.recordProbe candidate probe) := by
  intro r hr
  have hr : r ∈ Index.updateRecord index.videos candidate.key (Index.withProbe probe)
    (fun _ => rfl) := hr
  obtain ⟨r₀, hr₀, rfl⟩ := Lib.Table.mem_update.mp hr
  split
  · rename_i hkey
    have hkey : r₀.key = candidate.key := by simpa using hkey
    intro _
    have hself := Index.find?_probeCache_recordProbe_self index candidate probe
    refine ⟨_, (Lib.Table.find?_eq_some_iff.mp hself).1, ?_, rfl, rfl, rfl, rfl⟩
    exact (hpending r₀ hr₀ hkey).symm
  · rename_i hkey
    have hkey : r₀.key ≠ candidate.key := by simpa using hkey
    intro hprobed
    obtain ⟨e, he, hcandidate, hfacts⟩ := h r₀ hr₀ hprobed
    refine ⟨e, ?_, hcandidate, hfacts⟩
    have hekey : e.key = r₀.key := congrArg ProbeCandidate.key hcandidate
    have hfind := Index.find?_probeCache_recordProbe_of_ne index probe (hekey ▸ hkey)
    exact (Lib.Table.find?_eq_some_iff.mp (hfind.trans (Lib.Table.find?_key he))).1

end Facts

/-! ## The pending candidates -/

section Pending
variable {index index' : Index} {c : ProbeCandidate}

/-- The rows of the candidate's key have its size and mtime. -/
def StillThere (index : Index) (c : ProbeCandidate) : Prop :=
  ∀ r ∈ index.videos, r.key = c.key → ProbeCandidate.ofRecord r.record = c

/-- An update that leaves place, size and mtime of a row leaves a candidate where it is. -/
theorem StillThere.updateRecord {videos : Lib.Table Row.key} {k : RowKey}
    {f : VideoRecord → VideoRecord} (hf : ∀ r, (f r).key = r.key)
    (hsame : ∀ r, ProbeCandidate.ofRecord (f r) = .ofRecord r)
    (h : ∀ r ∈ videos, r.key = c.key → ProbeCandidate.ofRecord r.record = c) :
    ∀ r ∈ Index.updateRecord videos k f hf, r.key = c.key →
      ProbeCandidate.ofRecord r.record = c := by
  intro r hr hkey
  obtain ⟨r₀, hr₀, rfl⟩ := Lib.Table.mem_update.mp hr
  split at hkey
  · rw [if_pos ‹_›]
    exact (hsame r₀.record).trans (h r₀ hr₀ ((hf r₀.record).symm.trans hkey))
  · rw [if_neg ‹_›]
    exact h r₀ hr₀ hkey

theorem StillThere.recordProbe (h : StillThere index c) (candidate : ProbeCandidate)
    (probe : ProbeResult) : StillThere (index.recordProbe candidate probe) c :=
  StillThere.updateRecord (f := Index.withProbe probe) (fun _ => rfl) (fun _ => rfl) h

theorem StillThere.workerWrite (h : StillThere index c) (hwrite : WorkerWrite index index') :
    StillThere index' c := by
  cases hwrite with
  | setCompat library relPath compat =>
    exact StillThere.updateRecord (f := Index.withCompat compat) (fun _ => rfl) (fun _ => rfl) h
  | setThumb library relPath thumb =>
    exact StillThere.updateRecord (f := Index.withThumb thumb) (fun _ => rfl) (fun _ => rfl) h
  | recordDerivationFailure library relPath size mtime error => exact h

theorem stillThere_of_mem_videosNeedingProbe (h : c ∈ index.videosNeedingProbe) :
    StillThere index c := by
  obtain ⟨r, hr, -, rfl⟩ := mem_videosNeedingProbe.mp h
  intro r' hr' hkey
  rw [Lib.Table.eq_of_key_eq _ hr' hr hkey]

end Pending

/-! ## Steps and runs -/

theorem probeCache_of_workerWrite {index index' : Index} (h : WorkerWrite index index') :
    index'.probeCache = index.probeCache := by
  cases h <;> rfl

/-- A miss means that something else was recorded last, if anything was. -/
theorem version_ne_of_miss {index : Index} {c : ProbeCandidate}
    (hmiss : index.cachedProbe c = none) :
    (index.probeCache.find? c.key).map (fun e => e.candidate.version) ≠ some c.version := by
  intro hsome
  obtain ⟨e, he, hversion⟩ := Option.map_eq_some_iff.mp hsome
  obtain ⟨hsize, hmtime⟩ := Prod.mk.inj hversion
  unfold Index.cachedProbe at hmiss
  rw [he, Option.filter_some, hsize, hmtime] at hmiss
  simp at hmiss

namespace ProbeSystem
variable {decoders : Decoders} {s : ProbeSystem}

theorem inv_start (libraries : List Library) : (probeStart libraries).Inv where
  facts r hr := absurd hr (Lib.Table.not_mem_empty r)
  pending c hc := by cases hc
  cached k := rfl
  fresh := .nil

/-- A step that only drops candidates. -/
theorem Inv.of_pending_subset (h : s.Inv) (libraries : List Library) {phase : ProbePhase}
    (hsubset : ∀ c ∈ phase.pending, StillThere s.index c) :
    Inv { s with libraries := libraries, phase := phase } where
  facts := h.facts
  pending c hc := hsubset c hc
  cached := h.cached
  fresh := h.fresh

theorem Inv.reconcile (h : s.Inv) {index : Index} (hphase : s.phase = .reconciling)
    (hwrite : ScanWrite decoders s.index index) : Inv { s with index := index } where
  facts := facts_scanWrite h.facts hwrite
  pending c hc := by
    dsimp only at hc
    rw [hphase] at hc
    cases hc
  cached k := by
    dsimp only
    rw [probeCache_of_scanWrite hwrite]
    exact h.cached k
  fresh := h.fresh

theorem Inv.worker (h : s.Inv) {index : Index} (hwrite : WorkerWrite s.index index) :
    Inv { s with index := index } where
  facts := facts_workerWrite h.facts hwrite
  pending c hc := StillThere.workerWrite (h.pending c hc) hwrite
  cached k := by
    dsimp only
    rw [probeCache_of_workerWrite hwrite]
    exact h.cached k
  fresh := h.fresh

theorem Inv.ask (h : s.Inv) {candidate : ProbeCandidate} {todo : List ProbeCandidate}
    (hphase : s.phase = .probing (candidate :: todo))
    (hmiss : s.index.cachedProbe candidate = none) :
    Inv { s with
      phase := .asking candidate todo
      log := s.log ++ [.asked candidate.key candidate.version] } where
  facts := h.facts
  pending c hc := h.pending c (by rwa [hphase])
  cached k := by rw [Lib.lastRecorded_asked, h.cached]
  fresh := by
    refine h.fresh.concat ?_
    rintro k v ⟨⟩
    rw [← h.cached]
    exact version_ne_of_miss hmiss

theorem Inv.record (h : s.Inv) {candidate : ProbeCandidate} {probe : ProbeResult}
    {todo : List ProbeCandidate} (hphase : s.phase = .recording candidate probe todo) :
    Inv { s with
      index := s.index.recordProbe candidate probe
      phase := .probing todo
      log := s.log ++ [.recorded candidate.key candidate.version] } := by
  have hpending : ∀ c ∈ candidate :: todo, StillThere s.index c := by
    intro c hc
    exact h.pending c (by rwa [hphase])
  refine ⟨?_, ?_, ?_, ?_⟩
  · exact facts_recordProbe h.facts probe (hpending candidate List.mem_cons_self)
  · intro c hc
    exact (hpending c (List.mem_cons_of_mem _ hc)).recordProbe candidate probe
  · intro k
    rw [Lib.lastRecorded_recorded]
    by_cases hk : candidate.key = k
    · subst hk
      rw [if_pos rfl, Index.find?_probeCache_recordProbe_self]
      rfl
    · rw [if_neg hk, Index.find?_probeCache_recordProbe_of_ne _ _ (Ne.symm hk), h.cached]
  · refine h.fresh.concat ?_
    rintro k v ⟨⟩

theorem Inv.step {s' : ProbeSystem} {action : ProbeAction} (h : s.Inv)
    (hstep : ProbeSystemStep decoders s action s') : s'.Inv := by
  cases hstep with
  | reconcile hphase hwrite => exact h.reconcile hphase hwrite
  | begin hphase =>
    exact h.of_pending_subset s.libraries fun c hc => stillThere_of_mem_videosNeedingProbe hc
  | skip hphase =>
    refine h.of_pending_subset s.libraries fun c hc => h.pending c ?_
    rw [hphase]
    exact List.mem_cons_of_mem _ hc
  | hit hphase hcached =>
    refine h.of_pending_subset s.libraries fun c hc => h.pending c ?_
    rwa [hphase]
  | ask hphase hlibrary hmiss => exact h.ask hphase hmiss
  | @answer candidate todo result hphase =>
    refine h.of_pending_subset s.libraries fun c hc => h.pending c ?_
    rw [hphase]
    unfold ProbePhase.answered at hc
    split at hc
    · exact hc
    · exact List.mem_cons_of_mem _ hc
  | record hphase => exact h.record hphase
  | refuse hphase =>
    refine h.of_pending_subset s.libraries fun c hc => h.pending c ?_
    rw [hphase]
    exact List.mem_cons_of_mem _ hc
  | finish hphase => exact h.of_pending_subset s.libraries fun c hc => by cases hc
  | worker hwrite => exact h.worker hwrite
  | restart libraries => exact h.of_pending_subset libraries fun c hc => by cases hc

end ProbeSystem

/-! ## The program's operations are runs -/

section Operations
variable (decoders : Decoders) (faults : Faults) (runner : ProbeRunner) (libraries : List Library)

variable {decoders} in
/-- A scan or a flush, complete or cut short. -/
theorem run_scanWrites (log : ProbeLog) {index index' : Index}
    (h : ScanWrites decoders index index') :
    ∃ actions, Lib.Run (ProbeSystemStep decoders) ⟨index, libraries, .reconciling, log⟩ actions
      ⟨index', libraries, .reconciling, log⟩ := by
  induction h with
  | refl => exact ⟨[], .nil _⟩
  | tail _ hwrite ih =>
    obtain ⟨actions, hrun⟩ := ih
    exact ⟨_, hrun.append (.single (.reconcile rfl hwrite))⟩

/-- A result is recorded or refused. -/
theorem run_recorded (index : Index) (candidate : ProbeCandidate) (probe : ProbeResult)
    (todo : List ProbeCandidate) (log : ProbeLog) :
    ∃ actions log', Lib.Run (ProbeSystemStep decoders)
      ⟨index, libraries, .recording candidate probe todo, log⟩ actions
      ⟨(recorded faults candidate probe index).1, libraries, .probing todo, log'⟩ := by
  unfold recorded
  split
  · exact ⟨_, log, .single (.refuse rfl)⟩
  · exact ⟨_, _, .single (.record rfl)⟩

theorem run_probeCandidate (index : Index) (candidate : ProbeCandidate)
    (todo : List ProbeCandidate) (log : ProbeLog) :
    ∃ actions log', Lib.Run (ProbeSystemStep decoders)
      ⟨index, libraries, .probing (candidate :: todo), log⟩ actions
      ⟨(probeCandidate faults runner libraries index candidate).1, libraries, .probing todo,
        log'⟩ := by
  unfold probeCandidate
  split
  · exact ⟨_, log, .single (.skip rfl)⟩
  · rename_i library hlibrary
    split
    · exact ⟨_, log, .single (.skip rfl)⟩
    · split
      · rename_i cached hcached
        obtain ⟨actions, log', hrun⟩ :=
          run_recorded decoders faults libraries index candidate cached todo log
        exact ⟨_, log', .cons (.hit rfl hcached) hrun⟩
      · rename_i hmiss
        have hanswered : ∀ result, ∃ actions, Lib.Run (ProbeSystemStep decoders)
            ⟨index, libraries, .probing (candidate :: todo), log⟩ actions
            ⟨index, libraries, .answered candidate todo result,
              log ++ [.asked candidate.key candidate.version]⟩ := fun result =>
          ⟨_, .cons (.ask rfl hlibrary hmiss) (.single (.answer result rfl))⟩
        obtain ⟨actions, hrun⟩ := hanswered (runner (library.path.join candidate.relPath))
        split
        · rename_i result hresult
          rw [hresult] at hrun
          obtain ⟨actions', log', hrest⟩ :=
            run_recorded decoders faults libraries index candidate result todo _
          exact ⟨_, log', hrun.append hrest⟩
        · rename_i error herror
          rw [herror] at hrun
          rw [ProbePhase.answered_error] at hrun
          split
          · rename_i hdefinitive
            rw [if_pos hdefinitive] at hrun
            obtain ⟨actions', log', hrest⟩ :=
              run_recorded decoders faults libraries index candidate {} todo _
            exact ⟨_, log', hrun.append hrest⟩
          · rename_i hdefinitive
            rw [if_neg hdefinitive] at hrun
            exact ⟨_, _, hrun⟩

theorem run_foldl_probeStep : ∀ (todo : List ProbeCandidate) (acc : Index × Nat) (log : ProbeLog),
    ∃ actions log', Lib.Run (ProbeSystemStep decoders) ⟨acc.1, libraries, .probing todo, log⟩
      actions ⟨(todo.foldl (probeStep faults runner libraries) acc).1, libraries, .probing [],
        log'⟩
  | [], acc, log => ⟨[], log, .nil _⟩
  | candidate :: todo, acc, log => by
    obtain ⟨actions, log', hrun⟩ :=
      run_probeCandidate decoders faults runner libraries acc.1 candidate todo log
    obtain ⟨actions', log'', hrest⟩ :=
      run_foldl_probeStep todo (probeStep faults runner libraries acc candidate) log'
    exact ⟨_, log'', hrun.append hrest⟩

/-- A probe pass. -/
theorem run_probePending (index : Index) (log : ProbeLog) :
    ∃ actions log', Lib.Run (ProbeSystemStep decoders) ⟨index, libraries, .reconciling, log⟩
      actions ⟨(probePending faults runner libraries index).1, libraries, .reconciling,
        log'⟩ := by
  unfold probePending
  split
  · exact ⟨[], log, .nil _⟩
  · obtain ⟨actions, log', hrun⟩ := run_foldl_probeStep decoders faults runner libraries
      index.videosNeedingProbe (index, 0) log
    exact ⟨_, log', .cons (.begin rfl) (hrun.append (.single (.finish rfl)))⟩

end Operations

/-- In every state of a run the probed facts are those cached for the row's size and mtime, and
no version of a path is asked about again before another one is recorded. -/
theorem probed_once {decoders : Decoders} {libraries : List Library} {s : ProbeSystem}
    {actions : List ProbeAction}
    (hrun : Lib.Run (ProbeSystemStep decoders) (probeStart libraries) actions s) :
    (∀ r ∈ s.index.videos, r.record.codecSource = some .ffprobe →
      ∃ e ∈ s.index.probeCache, e.candidate = .ofRecord r.record ∧
        e.probe.vcodec = r.record.vcodec ∧ e.probe.acodec = r.record.acodec ∧
        e.probe.vprofile = r.record.vprofile ∧ e.probe.fieldOrder = r.record.fieldOrder) ∧
    ∀ (c : ProbeCandidate) (before between after : ProbeLog),
      s.log = before ++ .recorded c.key c.version ::
        (between ++ .asked c.key c.version :: after) →
      ∃ c' : ProbeCandidate, c'.key = c.key ∧ c'.version ≠ c.version ∧
        .recorded c'.key c'.version ∈ between := by
  have h : s.Inv := hrun.invariant (fun _ _ _ h hstep => h.step hstep)
    (ProbeSystem.inv_start libraries)
  refine ⟨h.facts, fun c before between after hlog => ?_⟩
  have hfresh := h.fresh
  rw [hlog] at hfresh
  obtain ⟨⟨size, mtime⟩, hne, hmem⟩ := hfresh.recorded_between
  exact ⟨⟨c.library, c.relPath, size, mtime⟩, rfl, hne, hmem⟩

namespace ProbedVideo
open OneVideo

def records : List VideoRecord := collectDirectory OneVideo.decoders tree library [lib] [lib]

def candidate : ProbeCandidate := .ofRecord (records.head (by decide))

def probe : ProbeResult := { vcodec := some "mpeg2video", acodec := some "ac3" }

/-- The index after the reconcile of the one directory. -/
def scanned : Index :=
  { Index.openInMemory with
    videos := (records.foldl (Index.upsertRecord 0) Index.openInMemory.videos).delete fun r =>
      r.record.library == library.name && r.record.parent == relativeOf [lib] [lib] &&
        !(records.map VideoRecord.relPath).contains r.record.relPath }

def round : ProbeSystem where
  index := scanned.recordProbe candidate probe
  libraries := [library]
  phase := .reconciling
  log := [.asked candidate.key candidate.version, .recorded candidate.key candidate.version]

theorem run_round : Lib.Run (ProbeSystemStep OneVideo.decoders) (probeStart [library])
    [.reconcile, .begin, .ask, .answer, .record, .finish] round := by
  have hscanned : Index.openInMemory.reconcileDirectory library.name (relativeOf [lib] [lib])
      records 0 = .ok scanned := rfl
  have hneeding : scanned.videosNeedingProbe = [candidate] := by decide
  refine .cons (.reconcile rfl (.reconcileDirectory tree library [lib] [lib] 0 le_rfl hscanned)) ?_
  refine .cons (.begin rfl) ?_
  dsimp only
  rw [hneeding]
  refine .cons (.ask rfl rfl (by decide)) ?_
  refine .cons (.answer (.ok probe) rfl) ?_
  refine .cons (.record rfl) ?_
  exact .single (.finish rfl)

/-- One round with one video. -/
theorem probed_once_round :
    (∀ r ∈ round.index.videos, r.record.codecSource = some .ffprobe →
      ∃ e ∈ round.index.probeCache, e.candidate = .ofRecord r.record ∧
        e.probe.vcodec = r.record.vcodec ∧ e.probe.acodec = r.record.acodec ∧
        e.probe.vprofile = r.record.vprofile ∧ e.probe.fieldOrder = r.record.fieldOrder) ∧
    ∀ (c : ProbeCandidate) (before between after : ProbeLog),
      round.log = before ++ .recorded c.key c.version ::
        (between ++ .asked c.key c.version :: after) →
      ∃ c' : ProbeCandidate, c'.key = c.key ∧ c'.version ≠ c.version ∧
        .recorded c'.key c'.version ∈ between :=
  probed_once run_round

end ProbedVideo

end Loku
