import Loku.Routes.Types
import Loku.System.ProbedOnce

/-!
# Videos whose codecs cannot be determined

A row marked as having codec facts, but without a video codec, gets no compat copy and is shown as
unknown. It is meant to be one whose probe has failed. A history is a sequence of scans, flushes,
probe passes and steps of the worker; `ProbeHistory.asked` lists the keys, sizes and mtimes that
the runner was asked about.

A scan marks a row as having facts as soon as its `info.json` names a codec at all, be it an audio
codec only, and a marked row is never listed for a probe. As long as no such `info.json` is read,
unless for a file that was probed already, every undeterminable row has been probed
(`undeterminable_probed`).
-/

namespace Loku

/-- Codec facts are marked as present, and the planner finds nothing to do with them. -/
def Undeterminable (r : VideoRecord) : Prop :=
  r.codecSource ≠ none ∧
    decideDerivation (.ofRecord r r.compatRelPath.isSome) = .unplannable

instance : DecidablePred Undeterminable := fun _ => inferInstanceAs (Decidable (_ ∧ _))

theorem undeterminable_iff {r : VideoRecord} :
    Undeterminable r ↔ r.codecSource ≠ none ∧ r.compatRelPath = none ∧ r.vcodec = none := by
  unfold Undeterminable
  rw [decideDerivation_eq_unplannable_iff]
  simp [CompatInputs.ofRecord]

/-- They are the videos shown as unknown, and the worker finds no job for them. -/
theorem derivationState_eq_unknown_iff {r : VideoRecord} :
    derivationState r none = .unknown ↔ Undeterminable r := by
  rw [undeterminable_iff]
  unfold derivationState
  simp only [Option.any_none, Bool.false_eq_true, if_false]
  cases r.compatRelPath with
  | some compat => simp
  | none =>
    cases r.codecSource with
    | none => simp
    | some source =>
      have hunplannable :
          decideDerivation (.ofRecord r false) = .unplannable ↔ r.vcodec = none := by
        rw [decideDerivation_eq_unplannable_iff]
        simp [CompatInputs.ofRecord]
      rw [← hunplannable]
      cases decideDerivation (.ofRecord r false) with
      | notNeeded => simp
      | unplannable => simp
      | produce plan => cases r.derivationError <;> simp

theorem jobFor_of_undeterminable {library : Library} {r : VideoRecord} (h : Undeterminable r) :
    jobFor library r = none := by
  unfold jobFor
  rw [h.2]

/-! ## Histories with a log of the runner -/

/-- What the runner was asked about: the keys, each with the size and mtime listed for it. -/
abbrev AskLog := List (RowKey × (Int × Int))

structure ProbeHistory where
  index : Index
  asked : AskLog

def historyStart : ProbeHistory := ⟨.openInMemory, []⟩

/-- Whether resolving a candidate asks the runner. -/
def asksRunner (faults : Faults) (libraries : List Library) (index : Index)
    (candidate : ProbeCandidate) : Bool :=
  (libraries.find? fun l => l.name == candidate.library).isSome &&
    !faults (.cachedProbe candidate.key) && (index.cachedProbe candidate).isNone

/-- `probeStep` with the log. -/
def probeStepAsked (faults : Faults) (runner : ProbeRunner) (libraries : List Library)
    (acc : (Index × Nat) × AskLog) (candidate : ProbeCandidate) : (Index × Nat) × AskLog :=
  (probeStep faults runner libraries acc.1 candidate,
    if asksRunner faults libraries acc.1.1 candidate then
      acc.2 ++ [(candidate.key, candidate.version)]
    else acc.2)

/-- `probePending` with the log. -/
def probePendingAsked (faults : Faults) (runner : ProbeRunner) (libraries : List Library)
    (s : ProbeHistory) : ProbeHistory :=
  if faults .videosNeedingProbe then s
  else
    let probed := s.index.videosNeedingProbe.foldl (probeStepAsked faults runner libraries)
      ((s.index, 0), s.asked)
    ⟨probed.1.1, probed.2⟩

inductive TaskAction
  | scan (faults : Faults) (disk : Library → Disk) (libraries : List Library)
  | flush (faults : Faults) (disk : Disk) (roots : List (Library × Path)) (dirty : List Dirty)
  | probePass (faults : Faults) (runner : ProbeRunner) (libraries : List Library)
  | worker (libraries : List Library) (refused : Refusals) (outcome : JobOutcome)

section History
variable (decoders : Decoders)

def TaskAction.perform (s : ProbeHistory) : TaskAction → ProbeHistory
  | scan faults disk libraries =>
    { s with index := (scanAll decoders faults disk libraries s.index).1 }
  | flush faults disk roots dirty =>
    { s with index := Loku.flush decoders faults disk roots dirty s.index }
  | probePass faults runner libraries => probePendingAsked faults runner libraries s
  | worker libraries refused outcome =>
    { s with index := (processNext libraries refused outcome s.index).1 }

def TaskStep (s : ProbeHistory) (a : TaskAction) (s' : ProbeHistory) : Prop :=
  s' = a.perform decoders s

/-- Every master of a directory whose `info.json` names an audio codec and no video codec has
been probed with its size and mtime. -/
def AudioOnlyProbed (asked : AskLog) (t : FileTree) (library : Library) (root dir : Path) : Prop :=
  ∀ video ∈ masters t dir, (readInfoJson decoders t dir video).acodec ≠ none →
    (readInfoJson decoders t dir video).vcodec = none →
      ∀ data, t.readFile (dir ++ [video]) = some data →
        ((library.name, relativeOf (dir ++ [video]) root),
          (i64OrMax data.bytes.length, mtimeSecs data)) ∈ asked

/-- So has every such master that an action reads. -/
def TaskAction.ReadsProbed (s : ProbeHistory) : TaskAction → Prop
  | scan _ disk libraries => ∀ library ∈ libraries, ∀ root,
    (disk library).walk.canonicalize library.path = some root →
      ∀ dir ∈ (disk library).walk.walkDir root,
        AudioOnlyProbed decoders s.asked ((disk library).collect dir) library root dir
  | flush _ disk roots dirty => ∀ d ∈ dirty, ∀ library watched,
    roots[d.1]? = some (library, watched) →
      ∀ root, disk.walk.canonicalize library.path = some root → ∀ dir ∈ disk.walk.walkDir d.2,
        AudioOnlyProbed decoders s.asked (disk.collect dir) library root dir
  | probePass .. => True
  | worker .. => True

end History

/-- The log is only a record: the index is that of `probePending`. -/
theorem index_probePendingAsked (faults : Faults) (runner : ProbeRunner)
    (libraries : List Library) (s : ProbeHistory) :
    (probePendingAsked faults runner libraries s).index =
      (probePending faults runner libraries s.index).1 := by
  have hfold : ∀ (candidates : List ProbeCandidate) (acc : (Index × Nat) × AskLog),
      (candidates.foldl (probeStepAsked faults runner libraries) acc).1 =
        candidates.foldl (probeStep faults runner libraries) acc.1 := by
    intro candidates
    induction candidates with
    | nil => exact fun acc => rfl
    | cons c candidates ih => exact fun acc => ih _
  unfold probePendingAsked probePending
  split
  · rfl
  · exact congrArg Prod.fst (hfold _ _)

/-! ## The invariant -/

/-- Facts without a video codec come from a probe of this size and mtime. -/
def FactsProbed (asked : AskLog) (r : VideoRecord) : Prop :=
  r.codecSource ≠ none → r.vcodec = none → (r.key, (r.size, r.mtime)) ∈ asked

structure ProbeHistory.Inv (s : ProbeHistory) : Prop where
  rows : RowsSatisfy (FactsProbed s.asked) s.index
  cache : ∀ e ∈ s.index.probeCache, (e.key, e.candidate.version) ∈ s.asked

theorem inv_historyStart : historyStart.Inv where
  rows r hr := absurd hr (Lib.Table.not_mem_empty r)
  cache e he := absurd he (Lib.Table.not_mem_empty e)

section Collect
variable {decoders : Decoders} {asked : AskLog} {t : FileTree} {library : Library}
  {root dir : Path}

/-- The facts of a record come from its `info.json`. -/
theorem buildRecord_codecs {video : FileName} {allow : Bool} {record : VideoRecord}
    (h : buildRecord decoders t library root dir video allow = some record) :
    record.vcodec = (readInfoJson decoders t dir video).vcodec ∧
      (record.codecSource ≠ none ↔ (readInfoJson decoders t dir video).vcodec ≠ none ∨
        (readInfoJson decoders t dir video).acodec ≠ none) := by
  unfold buildRecord at h
  obtain ⟨metadata, -, rfl⟩ := Option.map_eq_some_iff.mp h
  refine ⟨rfl, ?_⟩
  dsimp only
  generalize (readInfoJson decoders t dir video).vcodec = vcodec
  generalize (readInfoJson decoders t dir video).acodec = acodec
  cases vcodec <;> cases acodec <;> simp

theorem factsProbed_of_mem_collect
    (hprobed : AudioOnlyProbed decoders asked t library root dir) {record : VideoRecord}
    (h : record ∈ collectDirectory decoders t library root dir) : FactsProbed asked record := by
  obtain ⟨video, hvideo, hbuild⟩ := mem_collectDirectory.mp h
  obtain ⟨hvcodec, hsource⟩ := buildRecord_codecs hbuild
  obtain ⟨data, hdata, hsize, hmtime⟩ := buildRecord_content hbuild
  intro hmarked hnone
  rw [hvcodec] at hnone
  have hacodec := (hsource.mp hmarked).resolve_left fun h => h hnone
  have hasked := hprobed video hvideo hacodec hnone data hdata
  rwa [← (buildRecord_columns hbuild).1, ← hsize, ← hmtime] at hasked

theorem collectKeeps_factsProbed
    (hprobed : AudioOnlyProbed decoders asked t library root dir) :
    CollectKeeps decoders (FactsProbed asked) t library root dir where
  stored record h := by
    have hrecord := factsProbed_of_mem_collect hprobed h
    exact hrecord
  conflict record h old hkey hold := by
    have hrecord := factsProbed_of_mem_collect hprobed h
    intro hmarked hnone
    have hkey' : (Index.conflictUpdate (Index.stored record) old).key = record.key := hkey
    unfold Index.conflictUpdate Index.keepCodec at hmarked hnone
    dsimp only at hmarked hnone
    split at hmarked
    · -- the new facts
      rename_i hsome
      rw [if_pos hsome] at hnone
      rw [hkey']
      exact hrecord hmarked hnone
    · rename_i hsome
      rw [if_neg hsome] at hnone
      split at hmarked
      · -- the facts of the row, which has the same size and mtime
        rename_i hunchanged
        rw [if_pos hunchanged] at hnone
        have hasked := hold hmarked hnone
        simp only [Index.unchanged, Bool.and_eq_true, beq_iff_eq] at hunchanged
        rw [← hunchanged.1, ← hunchanged.2] at hasked
        exact hasked
      · exact absurd rfl hmarked

end Collect

/-- Adding to the log takes nothing away. -/
theorem FactsProbed.mono {asked asked' : AskLog} {r : VideoRecord} (hsub : asked ⊆ asked')
    (h : FactsProbed asked r) : FactsProbed asked' r := fun hmarked hnone =>
  hsub (h hmarked hnone)

/-! ## Steps of the maintenance task -/

section Steps
variable {decoders : Decoders} {s : ProbeHistory}

theorem probeCache_of_scanWrites {index index' : Index} (h : ScanWrites decoders index index') :
    index'.probeCache = index.probeCache := by
  induction h with
  | refl => rfl
  | tail _ hw ih => rw [probeCache_of_scanWrite hw, ih]

theorem ProbeHistory.Inv.withIndex {index : Index} (h : s.Inv)
    (hrows : RowsSatisfy (FactsProbed s.asked) index)
    (hcache : index.probeCache = s.index.probeCache) : ProbeHistory.Inv ⟨index, s.asked⟩ where
  rows := hrows
  cache e he := by
    rw [hcache] at he
    exact h.cache e he

theorem ProbeHistory.Inv.scan (h : s.Inv) {faults : Faults} {disk : Library → Disk}
    {libraries : List Library}
    (hreads : (TaskAction.scan faults disk libraries).ReadsProbed decoders s) :
    ProbeHistory.Inv ⟨(scanAll decoders faults disk libraries s.index).1, s.asked⟩ := by
  apply h.withIndex
  · apply h.rows.scanAll
    intro library hlibrary root hroot dir hdir
    exact collectKeeps_factsProbed (hreads library hlibrary root hroot dir hdir)
  · exact probeCache_of_scanWrites (scanWrites_scanAll disk libraries s.index)

theorem ProbeHistory.Inv.flush (h : s.Inv) {faults : Faults} {disk : Disk}
    {roots : List (Library × Path)} {dirty : List Dirty}
    (hreads : (TaskAction.flush faults disk roots dirty).ReadsProbed decoders s) :
    ProbeHistory.Inv ⟨Loku.flush decoders faults disk roots dirty s.index, s.asked⟩ := by
  apply h.withIndex
  · apply h.rows.flush
    intro d hd library watched hroots root hroot dir hdir
    exact collectKeeps_factsProbed (hreads d hd library watched hroots root hroot dir hdir)
  · exact probeCache_of_scanWrites (rowWrites_flush disk roots dirty s.index).scanWrites

theorem ProbeHistory.Inv.workerWrites (h : s.Inv) {index : Index}
    (hw : Relation.ReflTransGen WorkerWrite s.index index) :
    ProbeHistory.Inv ⟨index, s.asked⟩ := by
  induction hw with
  | refl => exact h
  | @tail index index' _ hw ih =>
    have hcache := (probeCache_of_workerWrite hw).trans (rfl : index.probeCache = _)
    refine ih.withIndex ?_ hcache
    cases hw with
    | setCompat library relPath compat =>
      exact forall_mem_updateRecord (f := Index.withCompat compat) (fun _ => rfl)
        (fun _ hr => hr) ih.rows
    | setThumb library relPath thumb =>
      exact forall_mem_updateRecord (f := Index.withThumb thumb) (fun _ => rfl)
        (fun _ hr => hr) ih.rows
    | recordDerivationFailure library relPath size mtime error => exact ih.rows

end Steps

/-! ## Probe passes -/

section Pass
variable {s : ProbeHistory} {candidate : ProbeCandidate}

/-- Recording what a probe of the row's size and mtime gave. -/
theorem ProbeHistory.Inv.recordProbe (h : s.Inv) (probe : ProbeResult)
    (hthere : StillThere s.index candidate)
    (hasked : (candidate.key, candidate.version) ∈ s.asked) :
    ProbeHistory.Inv ⟨s.index.recordProbe candidate probe, s.asked⟩ where
  rows r hr := by
    have hr : r ∈ Index.updateRecord s.index.videos candidate.key (Index.withProbe probe)
      (fun _ => rfl) := hr
    obtain ⟨r₀, hr₀, rfl⟩ := Lib.Table.mem_update.mp hr
    split
    · rename_i hkey
      have hcandidate := hthere r₀ hr₀ (by simpa using hkey)
      intro _ _
      rw [← hcandidate] at hasked
      exact hasked
    · exact h.rows r₀ hr₀
  cache e he := by
    have hfind := Lib.Table.find?_key he
    by_cases hkey : e.key = candidate.key
    · rw [hkey] at hfind ⊢
      have hself := Index.find?_probeCache_recordProbe_self s.index candidate probe
      cases hself.symm.trans hfind
      exact hasked
    · have hold := Index.find?_probeCache_recordProbe_of_ne s.index probe hkey
      exact h.cache e (Lib.Table.find?_eq_some_iff.mp (hold.symm.trans hfind)).1

/-- A candidate found in the cache was asked about when the entry was made. -/
theorem asked_of_cachedProbe (h : s.Inv) {probe : ProbeResult}
    (hcached : s.index.cachedProbe candidate = some probe) :
    (candidate.key, candidate.version) ∈ s.asked := by
  unfold Index.cachedProbe at hcached
  obtain ⟨e, he, -⟩ := Option.map_eq_some_iff.mp hcached
  obtain ⟨hfind, hsame⟩ := Option.filter_eq_some_iff.mp he
  simp only [Bool.and_eq_true, beq_iff_eq] at hsame
  obtain ⟨hmem, hkey⟩ := Lib.Table.find?_eq_some_iff.mp hfind
  have hasked := h.cache e hmem
  rw [hkey] at hasked
  unfold ProbeCandidate.version at hasked ⊢
  rwa [hsame.1, hsame.2] at hasked

/-- What resolving a candidate does: nothing, or one result is recorded, which is in the cache or
comes from the runner. -/
theorem probeCandidate_cases (faults : Faults) (runner : ProbeRunner) (libraries : List Library)
    (index : Index) (candidate : ProbeCandidate) :
    (probeCandidate faults runner libraries index candidate).1 = index ∨
      ∃ probe, (probeCandidate faults runner libraries index candidate).1 =
          index.recordProbe candidate probe ∧
        (index.cachedProbe candidate = some probe ∨
          asksRunner faults libraries index candidate = true) := by
  have hrecorded : ∀ probe, (recorded faults candidate probe index).1 = index ∨
      (recorded faults candidate probe index).1 = index.recordProbe candidate probe := by
    intro probe
    unfold recorded
    split
    · exact Or.inl rfl
    · exact Or.inr rfl
  unfold probeCandidate asksRunner
  cases libraries.find? fun l => l.name == candidate.library with
  | none => exact Or.inl rfl
  | some library =>
    dsimp only
    split
    · exact Or.inl rfl
    · rename_i hconsulted
      cases hcached : index.cachedProbe candidate with
      | some cached =>
        exact (hrecorded cached).imp_right fun h => ⟨cached, h, Or.inl rfl⟩
      | none =>
        have hasks : (some library).isSome && !faults (.cachedProbe candidate.key) &&
            (none : Option ProbeResult).isNone = true := by simpa using hconsulted
        cases runner (library.path.join candidate.relPath) with
        | ok result => exact (hrecorded result).imp_right fun h => ⟨result, h, Or.inr hasks⟩
        | error error =>
          dsimp only
          split
          · exact (hrecorded {}).imp_right fun h => ⟨{}, h, Or.inr hasks⟩
          · exact Or.inl rfl

theorem StillThere.probeCandidate {index : Index} {c : ProbeCandidate} (h : StillThere index c)
    (faults : Faults) (runner : ProbeRunner) (libraries : List Library)
    (candidate : ProbeCandidate) :
    StillThere (probeCandidate faults runner libraries index candidate).1 c := by
  rcases probeCandidate_cases faults runner libraries index candidate with hsame |
      ⟨probe, hrecord, -⟩
  · rwa [hsame]
  · rw [hrecord]
    exact StillThere.recordProbe h candidate probe

theorem ProbeHistory.Inv.mono {index : Index} {asked asked' : AskLog} (hsub : asked ⊆ asked')
    (h : ProbeHistory.Inv ⟨index, asked⟩) : ProbeHistory.Inv ⟨index, asked'⟩ where
  rows r hr := (h.rows r hr).mono hsub
  cache e he := hsub (h.cache e he)

/-- Resolving one candidate. -/
theorem ProbeHistory.Inv.askStep (faults : Faults) (runner : ProbeRunner)
    (libraries : List Library) {acc : (Index × Nat) × AskLog}
    (h : ProbeHistory.Inv ⟨acc.1.1, acc.2⟩) (hthere : StillThere acc.1.1 candidate) :
    ProbeHistory.Inv
      ⟨(probeStepAsked faults runner libraries acc candidate).1.1,
        (probeStepAsked faults runner libraries acc candidate).2⟩ := by
  unfold Loku.probeStepAsked probeStep
  dsimp only
  have hsub : acc.2 ⊆ if asksRunner faults libraries acc.1.1 candidate then
      acc.2 ++ [(candidate.key, candidate.version)] else acc.2 := by
    split
    · exact List.subset_append_left _ _
    · exact List.Subset.refl _
  have hgrown := h.mono hsub
  rcases probeCandidate_cases faults runner libraries acc.1.1 candidate with hsame |
      ⟨probe, hrecord, hfrom⟩
  · rw [hsame]
    exact hgrown
  · rw [hrecord]
    refine hgrown.recordProbe probe hthere ?_
    rcases hfrom with hcached | hasks
    · exact hsub (asked_of_cachedProbe h hcached)
    · simp [hasks]

theorem ProbeHistory.Inv.askSteps (faults : Faults) (runner : ProbeRunner)
    (libraries : List Library) :
    ∀ (candidates : List ProbeCandidate) (acc : (Index × Nat) × AskLog),
      ProbeHistory.Inv ⟨acc.1.1, acc.2⟩ → (∀ c ∈ candidates, StillThere acc.1.1 c) →
      ProbeHistory.Inv
        ⟨(candidates.foldl (probeStepAsked faults runner libraries) acc).1.1,
          (candidates.foldl (probeStepAsked faults runner libraries) acc).2⟩
  | [], _, h, _ => h
  | c :: candidates, acc, h, hthere => by
    refine ProbeHistory.Inv.askSteps faults runner libraries candidates _
      (h.askStep faults runner libraries (hthere c List.mem_cons_self)) ?_
    intro c' hc'
    exact (hthere c' (List.mem_cons_of_mem _ hc')).probeCandidate faults runner libraries c

theorem ProbeHistory.Inv.probePass (h : s.Inv) (faults : Faults) (runner : ProbeRunner)
    (libraries : List Library) : (probePendingAsked faults runner libraries s).Inv := by
  unfold probePendingAsked
  split
  · exact h
  · exact .askSteps faults runner libraries _ _ h
      fun c hc => stillThere_of_mem_videosNeedingProbe hc

end Pass

/-! ## Histories -/

theorem ProbeHistory.Inv.step {decoders : Decoders} {s s' : ProbeHistory} {a : TaskAction}
    (h : s.Inv) (hstep : TaskStep decoders s a s') (hreads : a.ReadsProbed decoders s) :
    s'.Inv := by
  rw [hstep]
  cases a with
  | scan faults disk libraries => exact h.scan hreads
  | flush faults disk roots dirty => exact h.flush hreads
  | probePass faults runner libraries => exact h.probePass faults runner libraries
  | worker libraries refused outcome => exact h.workerWrites (writes_processNext ..)

/-- In every history that reads no `info.json` naming an audio codec only, unless for a file that
was probed already, every undeterminable row has been probed with its size and mtime. -/
theorem undeterminable_probed {decoders : Decoders} {actions : List TaskAction}
    {s : ProbeHistory}
    (hrun : Lib.Run (Lib.guarded (TaskStep decoders) fun s a => a.ReadsProbed decoders s)
      historyStart actions s) :
    ∀ r ∈ s.index.videos, Undeterminable r.record →
      (r.key, (r.record.size, r.record.mtime)) ∈ s.asked := by
  have hinv := hrun.invariant (fun _ _ _ h hstep => h.step hstep.1 hstep.2) inv_historyStart
  intro r hr hundeterminable
  obtain ⟨hmarked, -, hnone⟩ := undeterminable_iff.mp hundeterminable
  exact hinv.rows r hr hmarked hnone

/-! ## A sidecar that names an audio codec only -/

namespace OneVideo

/-- ffprobe finds no video in the file. -/
def failing : ProbeRunner := fun _ => .error (.ffprobeExit "Movie.mkv" "1" "")

def scanAndProbe (t : FileTree) : List TaskAction :=
  [.scan Faults.none (fun _ => .still t) [library], .probePass Faults.none failing [library]]

/-- The history after these actions. -/
def probedHistory (decoders : Decoders) (t : FileTree) : ProbeHistory :=
  (scanAndProbe t).foldl (TaskAction.perform decoders) historyStart

theorem acodec_readInfoJson (t : FileTree) (dir : Path) (video : FileName) :
    (readInfoJson decoders t dir video).acodec = none := by
  unfold readInfoJson
  cases t.readFile (sidecarPath dir video infoJsonSuffix) <;> rfl

theorem undeterminable_probed_failing :
    (∃ r ∈ (probedHistory decoders tree).index.videos.rows, Undeterminable r.record) ∧
      ∀ r ∈ (probedHistory decoders tree).index.videos, Undeterminable r.record →
        (r.key, (r.record.size, r.record.mtime)) ∈ (probedHistory decoders tree).asked :=
  have hreads : (TaskAction.scan Faults.none (fun _ => .still tree) [library]).ReadsProbed
      decoders historyStart :=
    fun _ _ _ _ _ _ video _ hacodec => absurd (acodec_readInfoJson _ _ video) hacodec
  have hpass (s : ProbeHistory) :
      (TaskAction.probePass Faults.none failing [library]).ReadsProbed decoders s := trivial
  ⟨by decide, undeterminable_probed (.cons ⟨rfl, hreads⟩ (.cons ⟨rfl, hpass _⟩ (.nil _)))⟩

/-- yt-dlp's description of an audio-only format. -/
def audioOnly : Decoders :=
  ⟨fun _ => some (.object [("vcodec", .string "none"), ("acodec", .string "mp4a.40.2")]),
    fun _ => none⟩

def describedTree : FileTree :=
  .ofNodes [([], .dir), ([lib], .dir), ([lib, movie], .file ⟨[1, 2, 3], 5⟩),
    ([lib, movie.sidecar infoJsonSuffix], .file ⟨[4], 5⟩)] (by decide) (by decide)

/-- The video is undeterminable and the runner was never asked. -/
theorem undeterminable_unprobed :
    ¬ ∀ (decoders : Decoders) (actions : List TaskAction) (s : ProbeHistory),
      Lib.Run (TaskStep decoders) historyStart actions s →
      ∀ r ∈ s.index.videos, Undeterminable r.record →
        (r.key, (r.record.size, r.record.mtime)) ∈ s.asked := by
  intro h
  have hrow : ∃ r ∈ (probedHistory audioOnly describedTree).index.videos.rows,
      Undeterminable r.record := by decide
  have hasked : (probedHistory audioOnly describedTree).asked = [] := by decide
  obtain ⟨r, hr, hundeterminable⟩ := hrow
  have hmem := h audioOnly (scanAndProbe describedTree) (probedHistory audioOnly describedTree)
    (.cons rfl (.cons rfl (.nil _))) r hr hundeterminable
  rw [hasked] at hmem
  cases hmem

end OneVideo

end Loku
