import Loku.Index.KeptColumns
import Loku.Index.ScanAll
import Loku.Media.ProbePass
import Loku.Lib.Run

/-!
# Rebuilding the index

The index is derived data: a full scan and a probe pass should leave the rows that they would
leave in an empty database. The scan writes over the rows that are there, and the conflict
clause keeps codec facts and durations of a row whose size and mtime are unchanged; so what an
old row got from a sidecar can outlive the sidecar.

`index_rebuilds_iff` says exactly when it does not: after a history whose probes each examined
the content that their row describes, the rows are the rebuilt ones if and only if the final
scan meets no row with stale statements (`StillStated`).
-/

namespace Loku

/-! ## Contents and their probes -/

/-- What the file under a key holds, by size and mtime, and what a probe says of a content. A
failed probe is a fact about the content. -/
structure Media where
  contents : RowKey → Int → Int → List UInt8
  facts : List UInt8 → Except ProbeError ProbeResult
  definitive : ∀ bytes error, facts bytes = .error error → error.isDefinitive = true

namespace Media
variable (m : Media)

/-- What a probe of some bytes records. -/
def outcome (bytes : List UInt8) : ProbeResult := (settle (m.facts bytes)).getD {}

/-- What a probe of the content under a key records. -/
def truth (k : RowKey) (size mtime : Int) : ProbeResult := m.outcome (m.contents k size mtime)

theorem settle_facts (bytes : List UInt8) : settle (m.facts bytes) = some (m.outcome bytes) := by
  unfold outcome
  cases h : m.facts bytes with
  | ok result => rfl
  | error error =>
    unfold settle
    dsimp only
    rw [if_pos (m.definitive bytes error h)]
    rfl

/-- The files of a library hold these contents. -/
def Holds (t : FileTree) (library : Library) : Prop :=
  ∀ root, t.canonicalize library.path = some root → ∀ dir video data, root <+: dir →
    t.readFile (dir ++ [video]) = some data →
    data.bytes = m.contents (library.name, relativeOf (dir ++ [video]) root)
      (i64OrMax data.bytes.length) (mtimeSecs data)

/-- The runner says of the files of a library what their contents say. -/
def Answers (t : FileTree) (library : Library) (runner : ProbeRunner) : Prop :=
  ∀ root, t.canonicalize library.path = some root → ∀ dir video data, root <+: dir →
    t.readFile (dir ++ [video]) = some data →
    runner (library.path.join (relativeOf (dir ++ [video]) root)) = m.facts data.bytes

/-- The columns of a record that are marked as probed are those of its content. -/
def Describes (r : VideoRecord) : Prop := (kept r).FromProbe (m.truth r.key r.size r.mtime)

end Media

/-! ## Histories -/

inductive HistoryAction
  | scan
  | probe (candidate : ProbeCandidate) (data : Option FileData)
  | cached
  | worker

/-- One write of a history: of a scan or a flush, of a probe pass, or of the worker. A probe
finds the file that is under the candidate's path at that time, if there is one. The counter
stays below the largest `i64`: a history has fewer than `2^63 - 1` scans. -/
inductive HistoryStep (decoders : Decoders) (m : Media) : Index → HistoryAction → Index → Prop
  | scan {index index' : Index} (h : ScanWrite decoders index index') (hroom : index'.HasRoom) :
      HistoryStep decoders m index .scan index'
  | probe {index : Index} {candidate : ProbeCandidate} {probe : ProbeResult}
      (data : Option FileData) (hcandidate : candidate ∈ index.videosNeedingProbe)
      (hdata : ∀ d ∈ data, d.bytes =
        m.contents candidate.key (i64OrMax d.bytes.length) (mtimeSecs d))
      (hprobe : ∀ d ∈ data, probe = m.outcome d.bytes) :
      HistoryStep decoders m index (.probe candidate data) (index.recordProbe candidate probe)
  | cached {index : Index} {candidate : ProbeCandidate} {probe : ProbeResult}
      (hcandidate : candidate ∈ index.videosNeedingProbe)
      (hcached : index.cachedProbe candidate = some probe) :
      HistoryStep decoders m index .cached (index.recordProbe candidate probe)
  | worker {index index' : Index} (h : WorkerWrite index index') :
      HistoryStep decoders m index .worker index'

/-- A probe finds the file of the size and mtime that its row has. -/
def ExaminesRow (_ : Index) : HistoryAction → Prop
  | .probe candidate data =>
    ∃ d ∈ data, i64OrMax d.bytes.length = candidate.size ∧ mtimeSecs d = candidate.mtime
  | _ => True

theorem run_of_rowWrites {decoders : Decoders} {m : Media} {index index' : Index}
    (hroom : index.HasRoom) (h : RowWrites decoders index index') :
    ∃ actions, Lib.Run (Lib.guarded (HistoryStep decoders m) ExaminesRow) index actions index' := by
  unfold RowWrites at h
  induction h using Relation.ReflTransGen.head_induction_on with
  | refl => exact ⟨[], .nil _⟩
  | head hw _ ih =>
    have hroom' := hroom
    unfold Index.HasRoom at hroom'
    rw [← Index.currentGeneration_congr hw.2] at hroom'
    obtain ⟨actions, hrun⟩ := ih hroom'
    exact ⟨.scan :: actions, .cons ⟨.scan hw.1 hroom', trivial⟩ hrun⟩

/-- A scan, complete or cut short, is part of a history. -/
theorem run_of_scanAll (decoders : Decoders) (faults : Faults) {m : Media} {index : Index}
    (hroom : index.nextGeneration.1.HasRoom) (disk : Library → Disk) (libraries : List Library) :
    ∃ actions, Lib.Run (Lib.guarded (HistoryStep decoders m) ExaminesRow) index actions
      (scanAll decoders faults disk libraries index).1 := by
  rcases rowWrites_scanAll faults disk libraries index with heq | hrows
  · rw [heq]
    exact ⟨[], .nil _⟩
  · obtain ⟨actions, hrun⟩ := run_of_rowWrites (m := m) hroom hrows
    exact ⟨.scan :: actions, .cons ⟨.scan (.nextGeneration rfl) hroom, trivial⟩ hrun⟩

section ProbePass
variable {decoders : Decoders} {m : Media} {libraries : List Library} {faults : Faults}
  {t : FileTree} {runner : ProbeRunner}

/-- The files under the libraries' paths hold these contents, and the runner reads them. -/
def Media.Reads (m : Media) (libraries : List Library) (t : FileTree) (runner : ProbeRunner) :
    Prop :=
  ∀ library ∈ libraries, ∀ relPath, ∀ d ∈ t.readFile (library.path.join relPath),
    runner (library.path.join relPath) = m.facts d.bytes ∧
      d.bytes = m.contents (library.name, relPath) (i64OrMax d.bytes.length) (mtimeSecs d)

theorem mem_videosNeedingProbe_recordProbe {index : Index} {candidate c : ProbeCandidate}
    {probe : ProbeResult} (hc : c ∈ index.videosNeedingProbe) (hne : c.key ≠ candidate.key) :
    c ∈ (index.recordProbe candidate probe).videosNeedingProbe := by
  obtain ⟨r, hr, hsource, rfl⟩ := mem_videosNeedingProbe.mp hc
  refine mem_videosNeedingProbe.mpr ⟨r, ?_, hsource, rfl⟩
  have hfind := Index.find?_recordProbe index candidate probe r.key
  have hkey : r.key ≠ candidate.key := hne
  rw [Lib.Table.find?_key hr, Option.map_some, if_neg hkey] at hfind
  exact (Lib.Table.find?_eq_some_iff.mp hfind).1

variable (decoders faults) in
/-- One candidate is at most one step, and leaves the others candidates. -/
theorem run_of_probeCandidate (hreads : m.Reads libraries t runner) {index : Index}
    {candidate : ProbeCandidate} (hcandidate : candidate ∈ index.videosNeedingProbe) :
    (∃ actions, Lib.Run (HistoryStep decoders m) index actions
      (probeCandidate faults runner libraries index candidate).1) ∧
    ∀ c ∈ index.videosNeedingProbe, c.key ≠ candidate.key →
      c ∈ (probeCandidate faults runner libraries index candidate).1.videosNeedingProbe := by
  have hskip : (∃ actions, Lib.Run (HistoryStep decoders m) index actions index) ∧
      ∀ c ∈ index.videosNeedingProbe, c.key ≠ candidate.key → c ∈ index.videosNeedingProbe :=
    ⟨⟨[], .nil _⟩, fun _ hc _ => hc⟩
  have hrecord : ∀ action probe,
      HistoryStep decoders m index action (index.recordProbe candidate probe) →
      (∃ actions, Lib.Run (HistoryStep decoders m) index actions
        (recorded faults candidate probe index).1) ∧
      ∀ c ∈ index.videosNeedingProbe, c.key ≠ candidate.key →
        c ∈ (recorded faults candidate probe index).1.videosNeedingProbe := by
    intro action probe hstep
    unfold recorded
    split
    · exact hskip
    · exact ⟨⟨[action], .single hstep⟩, fun c hc => mem_videosNeedingProbe_recordProbe hc⟩
  unfold probeCandidate
  split
  · exact hskip
  · rename_i library hlibrary
    have hname : library.name = candidate.library := by simpa using List.find?_some hlibrary
    have hfile := hreads library (List.mem_of_find?_eq_some hlibrary) candidate.relPath
    rw [hname] at hfile
    split
    · exact hskip
    · split
      · rename_i cached hcached
        exact hrecord _ _ (.cached hcandidate hcached)
      · split
        · rename_i result hresult
          refine hrecord _ _ (.probe (t.readFile (library.path.join candidate.relPath)) hcandidate
            (fun d hd => (hfile d hd).2) fun d hd => ?_)
          unfold Media.outcome
          rw [← (hfile d hd).1, hresult]
          rfl
        · rename_i error herror
          split
          · rename_i hdefinitive
            refine hrecord _ _ (.probe (t.readFile (library.path.join candidate.relPath))
              hcandidate (fun d hd => (hfile d hd).2) fun d hd => ?_)
            unfold Media.outcome settle
            rw [← (hfile d hd).1, herror]
            dsimp only
            rw [if_pos hdefinitive]
            rfl
          · exact hskip

/-- A probe pass is part of a history, with any of its index calls refused. -/
theorem run_of_probePending (hreads : m.Reads libraries t runner) (index : Index) :
    ∃ actions, Lib.Run (HistoryStep decoders m) index actions
      (probePending faults runner libraries index).1 := by
  have hfold : ∀ (candidates : List ProbeCandidate) (acc : Index × Nat),
      (candidates.map ProbeCandidate.key).Nodup →
      (∀ c ∈ candidates, c ∈ acc.1.videosNeedingProbe) →
      ∃ actions, Lib.Run (HistoryStep decoders m) acc.1 actions
        (candidates.foldl (probeStep faults runner libraries) acc).1 := by
    intro candidates
    induction candidates with
    | nil => exact fun acc _ _ => ⟨[], .nil _⟩
    | cons c candidates ih =>
      intro acc hnodup hneeding
      rw [List.map_cons, List.nodup_cons] at hnodup
      obtain ⟨⟨actions, hrun⟩, hrest⟩ := run_of_probeCandidate decoders faults hreads
        (hneeding c List.mem_cons_self)
      obtain ⟨actions', hrun'⟩ := ih (probeStep faults runner libraries acc c) hnodup.2
        fun c' hc' => hrest c' (hneeding c' (List.mem_cons_of_mem _ hc'))
          fun heq => hnodup.1 (heq ▸ List.mem_map_of_mem hc')
      exact ⟨actions ++ actions', hrun.append hrun'⟩
  unfold probePending
  split
  · exact ⟨[], .nil _⟩
  · exact hfold _ (index, 0) (nodup_videosNeedingProbe index) fun _ hc => hc

end ProbePass

/-- A probe result as the cache stores it. -/
def ProbeResult.stored (probe : ProbeResult) : ProbeResult :=
  { probe with durationSecs := Index.sqlReal probe.durationSecs }

theorem withProbe_stored (probe : ProbeResult) (r : VideoRecord) :
    Index.withProbe probe.stored r = Index.withProbe probe r := by
  unfold Index.withProbe ProbeResult.stored
  dsimp only
  cases probe.durationSecs with
  | none => rfl
  | some d => cases d <;> rfl

/-! ## The rows stay truthful -/

/-- The rows and the cache tell the truth about the contents they describe. -/
structure TruthfulIndex (m : Media) (index : Index) : Prop where
  placed : RowsSatisfy WellPlaced index
  stamps : index.StampsBelow
  room : index.HasRoom
  rows : RowsSatisfy m.Describes index
  cache : ∀ k e, index.probeCache.find? k = some e →
    e.probe = (m.truth k e.candidate.size e.candidate.mtime).stored

section Truthful
variable {decoders : Decoders} {m : Media} {index index' : Index}

theorem truthfulIndex_openInMemory (m : Media) : TruthfulIndex m .openInMemory where
  placed r hr := absurd hr (Lib.Table.not_mem_empty r)
  stamps := Index.stampsBelow_openInMemory
  room := Index.hasRoom_openInMemory
  rows r hr := absurd hr (Lib.Table.not_mem_empty r)
  cache k e he := by cases he

theorem describes_stored {record : VideoRecord} (hsource : record.codecSource ≠ some .ffprobe) :
    m.Describes (Index.stored record) :=
  KeptColumns.FromProbe.of_ne hsource

theorem describes_withProbe {r : VideoRecord} {probe : ProbeResult} (hsource : r.codecSource = none)
    (hprobe : probe.stored = (m.truth r.key r.size r.mtime).stored) :
    m.Describes (Index.withProbe probe r) := by
  have hkept : kept (Index.withProbe probe r) =
      (kept r).passed (m.truth r.key r.size r.mtime) := by
    rw [← kept_passed, ← withProbe_stored, hprobe, withProbe_stored]
    unfold passed
    rw [if_pos hsource]
  unfold Media.Describes
  rw [hkept]
  exact KeptColumns.FromProbe.passed _ hsource

/-- A record written over an old one describes the same content or states no probe. -/
theorem describes_written {record old : VideoRecord} (hsource : record.codecSource ≠ some .ffprobe)
    (hold : m.Describes old) :
    m.Describes (Index.written record (some old)) := by
  unfold Media.Describes at hold ⊢
  rw [kept_written_some]
  cases hun : Index.unchanged (Index.stored record) old with
  | false =>
    apply KeptColumns.FromProbe.of_ne
    unfold KeptColumns.writtenOver
    dsimp only
    split
    · exact hsource
    · exact fun h => by cases h
  | true =>
    obtain ⟨hsize, hmtime⟩ : (Index.stored record).size = old.size ∧
        (Index.stored record).mtime = old.mtime := by
      unfold Index.unchanged at hun
      simpa using hun
    have htruth : m.truth (Index.written record (some old)).key
        (Index.written record (some old)).size (Index.written record (some old)).mtime =
          m.truth old.key old.size old.mtime := by
      rw [← hsize, ← hmtime]
      rfl
    rw [htruth]
    exact hold.writtenOver_true hsource

theorem TruthfulIndex.scanWrite (h : TruthfulIndex m index) (hroom : index'.HasRoom)
    (hw : ScanWrite decoders index index') : TruthfulIndex m index' where
  placed := h.placed.maintenanceWrite (wellPlaced_rowProperty decoders) (.scan hw)
  stamps := hw.stampsBelow h.stamps h.room
  room := hroom
  rows := h.rows.scanWrite
    (fun _ _ _ _ _ hrecord => describes_stored (codecSource_of_mem_collect hrecord))
    (fun _ _ _ _ _ hrecord _ _ hold =>
      describes_written (codecSource_of_mem_collect hrecord) hold) hw
  cache := by
    rw [probeCache_of_scanWrite hw]
    exact h.cache

/-- Recording what a probe of the row's content says. -/
theorem TruthfulIndex.recordProbe (h : TruthfulIndex m index) {candidate : ProbeCandidate}
    {probe : ProbeResult} (hcandidate : candidate ∈ index.videosNeedingProbe)
    (hprobe : probe.stored = (m.truth candidate.key candidate.size candidate.mtime).stored) :
    TruthfulIndex m (index.recordProbe candidate probe) where
  placed := h.placed.maintenanceWrite (wellPlaced_rowProperty ⟨fun _ => none, fun _ => none⟩)
    (.recordProbe index candidate probe)
  stamps := by
    have hw : MaintenanceWrite ⟨fun _ => none, fun _ => none⟩ index
        (index.recordProbe candidate probe) := .recordProbe index candidate probe
    exact hw.stampsBelow h.stamps h.room
  room := h.room
  rows := by
    obtain ⟨r₀, hr₀, hsource, rfl⟩ := mem_videosNeedingProbe.mp hcandidate
    intro r hr
    have hfind := Lib.Table.find?_key hr
    rw [Index.find?_recordProbe] at hfind
    obtain ⟨r', hr', hrow⟩ := Option.map_eq_some_iff.mp hfind
    obtain ⟨hmem, hkey'⟩ := Lib.Table.find?_eq_some_iff.mp hr'
    split at hrow
    · -- the candidate's own row
      rename_i hkey
      have hsame := Lib.Table.eq_of_key_eq _ hmem hr₀ (hkey'.trans hkey)
      subst hsame
      rw [← hrow]
      exact describes_withProbe hsource hprobe
    · rw [← hrow]
      exact h.rows r' hmem
  cache := by
    intro k e he
    by_cases hk : k = candidate.key
    · subst hk
      rw [Index.find?_probeCache_recordProbe_self] at he
      cases he
      exact hprobe
    · rw [Index.find?_probeCache_recordProbe_of_ne _ _ hk] at he
      exact h.cache k e he

/-- A cached result is what a probe of the candidate's content says. -/
theorem TruthfulIndex.cachedProbe (h : TruthfulIndex m index) {candidate : ProbeCandidate}
    {probe : ProbeResult} (hcached : index.cachedProbe candidate = some probe) :
    probe = (m.truth candidate.key candidate.size candidate.mtime).stored := by
  unfold Index.cachedProbe at hcached
  obtain ⟨e, he, rfl⟩ := Option.map_eq_some_iff.mp hcached
  rw [Option.filter_eq_some_iff] at he
  obtain ⟨hfind, hcontent⟩ := he
  obtain ⟨hsize, hmtime⟩ : e.candidate.size = candidate.size ∧
      e.candidate.mtime = candidate.mtime := by simpa using hcontent
  rw [h.cache _ e hfind, hsize, hmtime]

theorem stored_stored (probe : ProbeResult) : probe.stored.stored = probe.stored := by
  unfold ProbeResult.stored
  dsimp only
  cases probe.durationSecs with
  | none => rfl
  | some d => cases d <;> rfl

theorem TruthfulIndex.workerWrite (h : TruthfulIndex m index) (hw : WorkerWrite index index') :
    TruthfulIndex m index' := by
  have hplaced := h.placed.workerWrite
    (wellPlaced_rowProperty ⟨fun _ => none, fun _ => none⟩) hw
  have hstamps := hw.stampsBelow h.stamps
  cases hw with
  | setCompat library relPath compat =>
    exact ⟨hplaced, hstamps, h.room, forall_mem_updateRecord (f := Index.withCompat compat)
      (fun _ => rfl) (fun _ hr => hr) h.rows, h.cache⟩
  | setThumb library relPath thumb =>
    exact ⟨hplaced, hstamps, h.room, forall_mem_updateRecord (f := Index.withThumb thumb)
      (fun _ => rfl) (fun _ hr => hr) h.rows, h.cache⟩
  | recordDerivationFailure library relPath size mtime error =>
    exact ⟨hplaced, hstamps, h.room, h.rows, h.cache⟩

theorem TruthfulIndex.step {a : HistoryAction} (h : TruthfulIndex m index)
    (hstep : HistoryStep decoders m index a index') (hok : ExaminesRow index a) :
    TruthfulIndex m index' := by
  cases hstep with
  | scan hw hroom => exact h.scanWrite hroom hw
  | probe data hcandidate hdata hprobe =>
    obtain ⟨d, hd, hsize, hmtime⟩ := hok
    refine h.recordProbe hcandidate ?_
    rw [hprobe d hd, hdata d hd, hsize, hmtime]
    rfl
  | cached hcandidate hcached =>
    refine h.recordProbe hcandidate ?_
    rw [h.cachedProbe hcached, stored_stored]
  | worker hw => exact h.workerWrite hw

end Truthful

/-! ## A full scan and a probe pass -/

section Rebuild
variable {decoders : Decoders} {m : Media} {libraries : List Library} {t : FileTree}
  {runner : ProbeRunner} {faults : Faults} {index scanned : Index} {stats : ScanStats}

/-- The runner says of a master what its recorded content says. -/
theorem settle_runner {library : Library} {record : VideoRecord} (hholds : m.Holds t library)
    (hanswers : m.Answers t library runner) (hrecord : MasterRecord decoders t library record) :
    settle (runner (library.path.join record.relPath)) =
      some (m.truth record.key record.size record.mtime) := by
  obtain ⟨root, hroot, dir, hdir, hcollect⟩ := hrecord
  obtain ⟨video, -, hbuild⟩ := mem_collectDirectory.mp hcollect
  obtain ⟨data, hread, hsize, hmtime⟩ := buildRecord_content hbuild
  have hpre := (FileTree.reachableDir_iff.mp hdir).1
  have hkey := (buildRecord_columns hbuild).1
  have hrel : record.relPath = relativeOf (dir ++ [video]) root := congrArg Prod.snd hkey
  rw [hrel, hanswers root hroot dir video data hpre hread, m.settle_facts]
  unfold Media.truth
  rw [hkey, hsize, hmtime, ← hholds root hroot dir video data hpre hread]

theorem find?_library {library : Library} (hnames : (libraries.map Library.name).Nodup)
    (hlibrary : library ∈ libraries) :
    libraries.find? (fun l => l.name == library.name) = some library := by
  have hsome : (libraries.find? fun l => l.name == library.name).isSome :=
    List.find?_isSome.mpr ⟨library, hlibrary, beq_self_eq_true _⟩
  obtain ⟨l, hl⟩ := Option.isSome_iff_exists.mp hsome
  have hname : l.name = library.name := by simpa using List.find?_some hl
  have hsame := List.inj_on_of_nodup_map hnames (List.mem_of_find?_eq_some hl) hlibrary hname
  rw [hl, hsame]

/-- The record of a master after the scan and the pass. -/
theorem recordAt_scan_probe (hnames : (libraries.map Library.name).Nodup)
    (hindex : TruthfulIndex m index) {library : Library} (hlibrary : library ∈ libraries)
    (hholds : m.Holds t library) (hanswers : m.Answers t library runner)
    (hscan : scanAll decoders faults (fun _ => .still t) libraries index = (scanned, .ok stats))
    {record : VideoRecord} (hrecord : MasterRecord decoders t library record) :
    (probePending Faults.none runner libraries scanned).1.recordAt record.key =
      some (passed (m.truth record.key record.size record.mtime)
        (Index.written record (index.recordAt record.key))) := by
  obtain ⟨hrecords, hcache⟩ := recordAt_scanAll hnames hindex.placed hindex.stamps hindex.room
    hscan
  have hlib := library_of_masterRecord hrecord
  rw [recordAt_probePending, (hrecords library hlibrary).master record hrecord, Option.map_some]
  have hcopied : copied (Index.written record (index.recordAt record.key)) = copied record :=
    copied_written fun o ho => Index.recordAt_key ho
  generalize Index.written record (index.recordAt record.key) = w at hcopied
  -- the candidate of the row is the master with its content
  have hcandidate : ProbeCandidate.ofRecord w = .ofRecord record := by
    change ProbeCandidate.ofRecord (copied w) = .ofRecord (copied record)
    rw [hcopied]
  unfold passed
  by_cases hsource : w.codecSource = none
  · rw [if_pos hsource, if_pos hsource, hcandidate]
    unfold probeOutcome
    have hfind : (libraries.find? fun l => l.name == (ProbeCandidate.ofRecord record).library) =
        some library := by
      change (libraries.find? fun l => l.name == record.library) = some library
      rw [hlib]
      exact find?_library hnames hlibrary
    rw [hfind, Option.bind_some]
    cases hcached : scanned.cachedProbe (.ofRecord record) with
    | some probe =>
      have hsame : index.cachedProbe (.ofRecord record) = some probe := by
        unfold Index.cachedProbe at hcached ⊢
        rw [← hcache]
        exact hcached
      rw [Option.some_or, Option.elim_some, hindex.cachedProbe hsame, withProbe_stored]
      rfl
    | none =>
      rw [Option.none_or]
      change some ((settle (runner (library.path.join record.relPath))).elim _ _) = _
      rw [settle_runner hholds hanswers hrecord, Option.elim_some]
  · rw [if_neg hsource, if_neg hsource]

/-- Under the other keys of a library nothing is left. -/
theorem recordAt_scan_probe_absent (hnames : (libraries.map Library.name).Nodup)
    (hindex : TruthfulIndex m index) {library : Library} (hlibrary : library ∈ libraries)
    (hscan : scanAll decoders faults (fun _ => .still t) libraries index = (scanned, .ok stats))
    {k : RowKey} (hk : k.1 = library.name)
    (hnone : ∀ record, MasterRecord decoders t library record → record.key ≠ k) :
    (probePending Faults.none runner libraries scanned).1.recordAt k = none := by
  obtain ⟨hrecords, -⟩ := recordAt_scanAll hnames hindex.placed hindex.stamps hindex.room
    hscan
  rw [recordAt_probePending, (hrecords library hlibrary).absent k hk hnone]
  rfl

/-- The rows of the libraries have the same columns, apart from rowid and stamp. -/
def SameRows (libraries : List Library) (index index' : Index) : Prop :=
  ∀ library ∈ libraries, ∀ k : RowKey, k.1 = library.name → index.recordAt k = index'.recordAt k

/-- What the row of a master of unchanged content states is still stated. -/
def NothingStale (decoders : Decoders) (m : Media) (libraries : List Library) (t : FileTree)
    (index : Index) : Prop :=
  ∀ library ∈ libraries, ∀ record, MasterRecord decoders t library record →
    ∀ old, index.recordAt record.key = some old →
      Index.unchanged (Index.stored record) old = true →
      (kept (Index.stored record)).StillStated (m.truth record.key record.size record.mtime)
        (kept old)

/-- After a history whose probes each examined the content of their row, a full scan and a probe
pass leave the rows of an empty database if and only if no row of unchanged content states what
its sidecars no longer state. -/
theorem index_rebuilds_iff {faults' : Faults} {fresh : Index} {stats' : ScanStats}
    {actions : List HistoryAction} (hnames : (libraries.map Library.name).Nodup)
    (hrun : Lib.Run (Lib.guarded (HistoryStep decoders m) ExaminesRow) .openInMemory actions index)
    (hholds : ∀ library ∈ libraries, m.Holds t library)
    (hanswers : ∀ library ∈ libraries, m.Answers t library runner)
    (hscan : scanAll decoders faults (fun _ => .still t) libraries index = (scanned, .ok stats))
    (hfresh : scanAll decoders faults' (fun _ => .still t) libraries .openInMemory =
      (fresh, .ok stats')) :
    SameRows libraries (probePending Faults.none runner libraries scanned).1
        (probePending Faults.none runner libraries fresh).1 ↔
      NothingStale decoders m libraries t index := by
  have hindex : TruthfulIndex m index :=
    hrun.invariant (I := TruthfulIndex m) (fun _ _ _ hs h => hs.step h.1 h.2)
      (truthfulIndex_openInMemory m)
  have hempty := truthfulIndex_openInMemory m
  have hmaster : ∀ library ∈ libraries, ∀ record, MasterRecord decoders t library record →
      ((probePending Faults.none runner libraries scanned).1.recordAt record.key =
        (probePending Faults.none runner libraries fresh).1.recordAt record.key ↔
        ∀ old ∈ index.recordAt record.key,
          Index.unchanged (Index.stored record) old = true →
          (kept (Index.stored record)).StillStated
            (m.truth record.key record.size record.mtime) (kept old)) := by
    intro library hlibrary record hrecord
    rw [recordAt_scan_probe hnames hindex hlibrary (hholds _ hlibrary) (hanswers _ hlibrary) hscan
        hrecord,
      recordAt_scan_probe hnames hempty hlibrary (hholds _ hlibrary) (hanswers _ hlibrary) hfresh
        hrecord, Option.some_inj]
    refine passed_written_iff (fun o ho => Index.recordAt_key ho) fun o ho hun => ?_
    -- the old row describes the content that the master has now
    obtain ⟨r, hr, rfl, hkey⟩ := Index.recordAt_eq_some_iff.mp ho
    obtain ⟨hsize, hmtime⟩ : (Index.stored record).size = r.record.size ∧
        (Index.stored record).mtime = r.record.mtime := by
      unfold Index.unchanged at hun
      simpa using hun
    have hdescribes := hindex.rows r hr
    unfold Media.Describes at hdescribes
    rw [hkey, ← hsize, ← hmtime] at hdescribes
    exact hdescribes
  constructor
  · intro h library hlibrary record hrecord old hold
    exact (hmaster library hlibrary record hrecord).mp
      (h library hlibrary record.key (library_of_masterRecord hrecord)) old hold
  · intro h library hlibrary k hk
    by_cases hexists : ∃ record, MasterRecord decoders t library record ∧ record.key = k
    · obtain ⟨record, hrecord, rfl⟩ := hexists
      exact (hmaster library hlibrary record hrecord).mpr (h library hlibrary record hrecord)
    · have hnone : ∀ record, MasterRecord decoders t library record → record.key ≠ k :=
        fun record hrecord hkey => hexists ⟨record, hrecord, hkey⟩
      rw [recordAt_scan_probe_absent hnames hindex hlibrary hscan hk hnone,
        recordAt_scan_probe_absent hnames hempty hlibrary hfresh hk hnone]

end Rebuild

/-! ## A sidecar that is gone -/

namespace RemovedSidecar

open OneVideo (lib movie library)

/-- The video with its `info.json`. -/
def before : FileTree :=
  .ofNodes [([], .dir), ([lib], .dir), ([lib, movie], .file ⟨[1, 2, 3], 5⟩),
    ([lib, ⟨"Movie.info.json", by decide⟩], .file ⟨[4], 5⟩)] (by decide) (by decide)

/-- The video alone. -/
def after : FileTree := OneVideo.tree

def decoders : Decoders where
  json _ := some (.object [("vcodec", .string "vp9"), ("acodec", .string "opus")])
  nfo _ := none

def media : Media where
  contents _ _ _ := [1, 2, 3]
  facts _ := .ok { vcodec := some "h264", acodec := some "aac" }
  definitive _ _ h := by cases h

def runner : ProbeRunner := fun _ => .ok { vcodec := some "h264", acodec := some "aac" }

theorem holds_after : media.Holds after library := by
  intro root _ dir video data _ hread
  obtain ⟨q, hq⟩ := FileTree.exists_node_of_readFile hread
  have hfiles : ∀ e ∈ after.table.rows, ∀ d ∈ e.2.data?, d.bytes = [1, 2, 3] := by decide
  exact hfiles _ (Lib.PathTree.node_eq_some_iff.mp hq) data rfl

def index : Index :=
  (scanAll decoders Faults.none (fun _ => .still before) [library] .openInMemory).1

def scanned : Index := (scanAll decoders Faults.none (fun _ => .still after) [library] index).1

def fresh : Index :=
  (scanAll decoders Faults.none (fun _ => .still after) [library] .openInMemory).1

def stats : ScanStats := { directories := 1, videos := 1, removed := 0 }

/-- The row of the scanned video keeps the codec facts of the sidecar that is gone. -/
theorem rebuild_differs :
    ¬ ∀ (decoders : Decoders) (m : Media) (libraries : List Library) (t : FileTree)
      (runner : ProbeRunner) (faults faults' : Faults) (index scanned fresh : Index)
      (stats stats' : ScanStats) (actions : List HistoryAction),
      (libraries.map Library.name).Nodup →
      Lib.Run (HistoryStep decoders m) .openInMemory actions index →
      (∀ library ∈ libraries, m.Holds t library) →
      (∀ library ∈ libraries, m.Answers t library runner) →
      scanAll decoders faults (fun _ => .still t) libraries index = (scanned, .ok stats) →
      scanAll decoders faults' (fun _ => .still t) libraries .openInMemory = (fresh, .ok stats') →
      SameRows libraries (probePending Faults.none runner libraries scanned).1
        (probePending Faults.none runner libraries fresh).1 := by
  intro h
  have hroom : Index.openInMemory.nextGeneration.1.HasRoom := by
    change (1 : Int) < i64Max
    decide
  obtain ⟨actions, hrun⟩ := run_of_scanAll decoders Faults.none (m := media) hroom
    (fun _ => .still before) [library]
  have hsame := h decoders media [library] after runner Faults.none Faults.none index scanned fresh
    stats stats actions (by decide) (hrun.mono fun _ _ _ => And.left)
    (by simpa using holds_after) (by intro l _ root _ dir video data _ _; rfl) (by decide)
    (by decide) library (by decide) ("movies", "Movie.mkv") (by decide)
  exact absurd hsame (by decide)

theorem index_rebuilds_iff_removedSidecar :
    SameRows [library] (probePending Faults.none runner [library] scanned).1
        (probePending Faults.none runner [library] fresh).1 ↔
      NothingStale decoders media [library] after index := by
  have hroom : Index.openInMemory.nextGeneration.1.HasRoom := by
    change (1 : Int) < i64Max
    decide
  obtain ⟨actions, hrun⟩ := run_of_scanAll decoders Faults.none (m := media) hroom
    (fun _ => .still before) [library]
  have hscan : scanAll decoders Faults.none (fun _ => .still after) [library] index =
      (scanned, .ok stats) := by decide
  have hfresh : scanAll decoders Faults.none (fun _ => .still after) [library] .openInMemory =
      (fresh, .ok stats) := by decide
  exact index_rebuilds_iff (by decide) hrun (by simpa using holds_after)
    (by intro l _ root _ dir video data _ _; rfl) hscan hfresh

end RemovedSidecar

end Loku
