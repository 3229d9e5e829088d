import Loku.Index.CaseFold
import Loku.Index.DirectoryRows
import Loku.Index.FlushSpec
import Loku.Media.Worker
import Loku.Lib.Run

/-!
# The scan, the watcher and the worker side by side

The maintenance task scans one library and then follows its events; meanwhile files change and
the worker puts sidecars in place. A step is one thing that no other actor can interrupt: one
operation on a file, the enqueueing of its event, one call on the index, one look at a
directory. Between the collection of a directory and the call that writes its records anything
may happen.

An operation and its event are two steps: first the files change, later the event reaches the
queue. Until then it is in flight.
-/

namespace Loku

/-! ## Operations on files -/

inductive FileOp
  | write (p : Path) (data : FileData)
  | remove (p : Path)
  | rename (src dst : Path)

namespace FileOp

def apply (t : FileTree) : FileOp → Option FileTree
  | write p data => t.writeFile p data
  | remove p => t.unlink p
  | rename src dst => t.renameFile src dst

/-- The paths that its event carries. -/
def paths : FileOp → List Path
  | write p _ => [p]
  | remove p => [p]
  | rename src dst => [src, dst]

end FileOp

/-- A path in a directory, with a regular file at it or nothing. -/
structure FilePath (t : FileTree) (p : Path) : Prop where
  ne_nil : p ≠ []
  file : ∀ a ∈ t.node p, ∃ data, a = .file data
  parent : t.node p.dropLast = some .dir

/-! ## The system -/

/-- What the worker puts in place beside a video. -/
inductive WorkerOutput
  | compat
  | thumb
deriving DecidableEq

namespace WorkerOutput

def suffix : WorkerOutput → Suffix
  | compat => compatSuffix
  | thumb => jpgSuffix

theorem suffix_mem_recordSuffixes (output : WorkerOutput) : output.suffix ∈ recordSuffixes := by
  cases output with
  | compat => simp [suffix, recordSuffixes]
  | thumb => simp [suffix, recordSuffixes, thumbSuffixes]

/-- The worker's call on the index after the rename. -/
def record (output : WorkerOutput) (index : Index) (job : Job) : Index :=
  match output with
  | compat => recordCompat {} index job
  | thumb => thumbnailStep {} ⟨.ok (), .ok ()⟩ index job

end WorkerOutput

/-- A sidecar in place whose row is not updated yet. -/
structure Placed where
  job : Job
  output : WorkerOutput
  path : Path

/-- What comes after the directories of one walk. -/
inductive Rest
  | scan
  | flush (live : List Dirty)

/-- Where the maintenance task is. -/
inductive MaintenancePhase
  | start
  | walk
  | collect (todo : List Path) (rest : Rest)
  | reconcile (dir : Path) (records : List VideoRecord) (todo : List Path) (rest : Rest)
  | idle
  | remove (vanished live : List Dirty)

structure WatchSystem where
  tree : FileTree
  index : Index
  inFlight : List Event
  queue : List Event
  debounce : Debounce
  /-- The generation that the scan has drawn or the flush has read. -/
  generation : Int
  maintenance : MaintenancePhase
  placed : Option Placed

/-- The names of the steps. -/
inductive WatchAction
  | files
  | place
  | record
  | deliver
  | access
  | nextGeneration
  | walk
  | collect
  | reconcile
  | sweep
  | receive
  | flush
  | removeTree
  | flushed
  | probe
  | recordFailure
deriving DecidableEq

section Steps
variable (decoders : Decoders) (library : Library) (root : Path)

inductive WatchStep : WatchSystem → WatchAction → WatchSystem → Prop
  /-- An operation on files. It leaves the library where it is and does not delete what the
  worker is about to record. -/
  | files {s : WatchSystem} {op : FileOp} {t : FileTree} {event : Event}
      (hop : op.apply s.tree = some t) (hroot : t.canonicalize library.path = some root)
      (hkept : ∀ placed ∈ s.placed, (t.node placed.path).isSome = true)
      (hkind : event.kind ≠ .access) (hpaths : event.paths = op.paths) :
      WatchStep s .files { s with tree := t, inFlight := event :: s.inFlight }
  /-- The worker renames a `.part` into place. -/
  | place {s : WatchSystem} {job : Job} {output : WorkerOutput} {src dst : Path} {t : FileTree}
      {event : Event} (hfree : s.placed = none) (hjob : job.library = library)
      (hsrc : s.tree.locate (siblingPaths (sourcePath job.library job.record) output.suffix).1 =
        some src)
      (hdst : s.tree.locate (siblingPaths (sourcePath job.library job.record) output.suffix).2 =
        some dst)
      (hop : (FileOp.rename src dst).apply s.tree = some t)
      (hroot : t.canonicalize library.path = some root)
      (hkind : event.kind ≠ .access) (hpaths : event.paths = (FileOp.rename src dst).paths) :
      WatchStep s .place
        { s with tree := t, inFlight := event :: s.inFlight, placed := some ⟨job, output, dst⟩ }
  /-- `set_compat` or `set_thumb`. -/
  | record {s : WatchSystem} {placed : Placed} (hplaced : s.placed = some placed) :
      WatchStep s .record
        { s with index := placed.output.record s.index placed.job, placed := none }
  | deliver {s : WatchSystem} {event : Event} {before after : List Event}
      (hflight : s.inFlight = before ++ event :: after) :
      WatchStep s .deliver { s with inFlight := before ++ after, queue := s.queue ++ [event] }
  | access {s : WatchSystem} {event : Event} (hkind : event.kind = .access) :
      WatchStep s .access { s with queue := s.queue ++ [event] }
  | nextGeneration {s : WatchSystem} {index : Index} {generation : Int}
      (hphase : s.maintenance = .start) (hok : s.index.nextGeneration = (index, generation)) :
      WatchStep s .nextGeneration
        { s with index := index, generation := generation, maintenance := .walk }
  | walkRoot {s : WatchSystem} (hphase : s.maintenance = .walk) :
      WatchStep s .walk { s with maintenance := .collect (s.tree.walkDir root) .scan }
  | collect {s : WatchSystem} {dir : Path} {todo : List Path} {rest : Rest}
      (hphase : s.maintenance = .collect (dir :: todo) rest)
      (hroot : s.tree.canonicalize library.path = some root) :
      WatchStep s .collect
        { s with
          maintenance :=
            .reconcile dir (collectDirectory decoders s.tree library root dir) todo rest }
  | reconcile {s : WatchSystem} {dir : Path} {records : List VideoRecord} {todo : List Path}
      {rest : Rest} {index : Index} (hphase : s.maintenance = .reconcile dir records todo rest)
      (hok : s.index.reconcileDirectory library.name (relativeOf dir root) records s.generation =
        .ok index) :
      WatchStep s .reconcile { s with index := index, maintenance := .collect todo rest }
  | sweep {s : WatchSystem} (hphase : s.maintenance = .collect [] .scan) :
      WatchStep s .sweep
        { s with
          index := (s.index.removeUnseen library.name s.generation).1
          maintenance := .idle }
  | receive {s : WatchSystem} {event : Event} {queue : List Event} (now : Nat)
      (hphase : s.maintenance = .idle) (hqueue : s.queue = event :: queue) :
      WatchStep s .receive
        { s with
          queue := queue
          debounce := s.debounce.recordAll (dirtyDirectories event [(library, root)]) now }
  /-- The deadline has passed: read the generation and sort the pending directories. -/
  | flush {s : WatchSystem} {deadline : Nat} (hphase : s.maintenance = .idle)
      (hdeadline : s.debounce.deadline = some deadline) :
      WatchStep s .flush
        { s with
          generation := s.index.currentGeneration
          debounce := s.debounce.take.2
          maintenance := .remove (pruneNested (vanishedDirty s.tree s.debounce.take.1))
            (pruneNested (liveDirty s.tree s.debounce.take.1)) }
  | removeTree {s : WatchSystem} {v : Dirty} {vanished live : List Dirty}
      (hphase : s.maintenance = .remove (v :: vanished) live) :
      WatchStep s .removeTree
        { s with
          index := removeVanished Faults.none [(library, root)] s.index v
          maintenance := .remove vanished live }
  | removed {s : WatchSystem} {live : List Dirty} (hphase : s.maintenance = .remove [] live) :
      WatchStep s .removeTree { s with maintenance := .collect [] (.flush live) }
  | walkLive {s : WatchSystem} {d : Dirty} {live : List Dirty}
      (hphase : s.maintenance = .collect [] (.flush (d :: live)))
      (hroots : [(library, root)][d.1]? = some (library, root)) :
      WatchStep s .walk { s with maintenance := .collect (s.tree.walkDir d.2) (.flush live) }
  | flushed {s : WatchSystem} (hphase : s.maintenance = .collect [] (.flush [])) :
      WatchStep s .flushed { s with maintenance := .idle }
  | recordProbe {s : WatchSystem} (candidate : ProbeCandidate) (probe : ProbeResult) :
      WatchStep s .probe { s with index := s.index.recordProbe candidate probe }
  | recordFailure {s : WatchSystem} (record : VideoRecord) (error : JobError) :
      WatchStep s .recordFailure { s with index := recordJobFailure {} s.index record error }

end Steps

/-- The maintenance task is about to scan; nothing has happened yet. -/
def watchStart (t : FileTree) (index : Index) (quiet : Nat) : WatchSystem where
  tree := t
  index := index
  inFlight := []
  queue := []
  debounce := .new quiet
  generation := 0
  maintenance := .start
  placed := none

/-- The scan has finished, and nothing is under way, queued or pending. -/
structure WatchSystem.Quiescent (s : WatchSystem) : Prop where
  maintenance : s.maintenance = .idle
  inFlight : s.inFlight = []
  queue : s.queue = []
  pending : s.debounce.pending = []
  placed : s.placed = none

/-! ## What an operation changes -/

section FileOp
variable {t t' : FileTree} {op : FileOp}

theorem canPut_of_writeFile {p : Path} {data : FileData} (h : t.writeFile p data = some t') :
    t.CanPut p (.file data) := by
  unfold FileTree.writeFile at h
  split at h
  · assumption
  · cases h

theorem FilePath.not_dir {p : Path} (h : FilePath t p) : t.node p ≠ some .dir := by
  intro hdir
  obtain ⟨data, hfile⟩ := h.file _ hdir
  cases hfile

theorem FilePath.isDir_eq_false {p : Path} (h : FilePath t p) : t.isDir p = false := by
  have hstat : t.stat p = t.node p := by
    rw [← List.dropLast_append_getLast h.ne_nil]
    refine FileTree.stat_child h.parent fun target hlink => ?_
    rw [List.dropLast_append_getLast h.ne_nil] at hlink
    obtain ⟨data, hfile⟩ := h.file _ hlink
    cases hfile
  unfold FileTree.isDir
  rw [hstat, decide_eq_false h.not_dir]

/-- A path at which an operation may put a file or take one away. -/
structure Changeable (t : FileTree) (p : Path) : Prop where
  ne_nil : p ≠ []
  not_dir : t.node p ≠ some .dir
  parent : t.node p.dropLast = some .dir

theorem changeable_of_canPut {p : Path} {data : FileData} (h : t.CanPut p (.file data)) :
    Changeable t p where
  ne_nil := h.1
  not_dir hdir := by cases h.2.2 hdir
  parent := h.2.1

theorem changeable_of_node (hroot : t.node [] = some .dir) {p : Path} {a : Node}
    (h : t.node p = some a) (ha : a ≠ .dir) : Changeable t p := by
  have hne : p ≠ [] := by
    rintro rfl
    exact ha (Option.some.inj (h.symm.trans hroot))
  exact ⟨hne, fun hdir => ha (Option.some.inj (h.symm.trans hdir)),
    Lib.PathTree.node_dropLast h hne⟩

namespace FileOp

theorem node_apply (h : op.apply t = some t') {q : Path} (hq : q ∉ op.paths) :
    t'.node q = t.node q := by
  cases op with
  | write p data =>
    rw [FileTree.node_writeFile h, if_neg fun heq => hq (List.mem_singleton.mpr heq)]
  | remove p =>
    rw [FileTree.node_unlink h, if_neg fun heq => hq (List.mem_singleton.mpr heq)]
  | rename src dst =>
    obtain ⟨data, -, hnode⟩ := FileTree.node_renameFile h
    have hsrc : q ≠ src := fun heq => hq (heq ▸ List.mem_cons_self)
    have hdst : q ≠ dst := fun heq => hq (heq ▸ by simp [paths])
    rw [hnode, if_neg hdst, if_neg hsrc]

/-- The node at a path of an operation is a file afterwards, or nothing. -/
theorem data_apply (h : op.apply t = some t') {q : Path} (hq : q ∈ op.paths) :
    ∀ a ∈ t'.node q, ∃ data, a = .file data := by
  intro a ha
  cases op with
  | write p data =>
    rw [FileTree.node_writeFile h, if_pos (List.mem_singleton.mp hq)] at ha
    exact ⟨data, (Option.some.inj ha).symm⟩
  | remove p =>
    rw [FileTree.node_unlink h, if_pos (List.mem_singleton.mp hq)] at ha
    cases ha
  | rename src dst =>
    obtain ⟨data, -, hnode⟩ := FileTree.node_renameFile h
    rw [hnode] at ha
    by_cases hdst : q = dst
    · rw [if_pos hdst] at ha
      exact ⟨data, (Option.some.inj ha).symm⟩
    · have hsrc : q = src := by
        rcases List.mem_cons.mp hq with hsrc | hq
        · exact hsrc
        · exact absurd (List.mem_singleton.mp hq) hdst
      rw [if_neg hdst, if_pos hsrc] at ha
      cases ha

theorem changeable_of_mem_paths (hroot : t.node [] = some .dir) (h : op.apply t = some t')
    {q : Path} (hq : q ∈ op.paths) : Changeable t q := by
  cases op with
  | write p data =>
    rw [List.mem_singleton.mp hq]
    exact changeable_of_canPut (canPut_of_writeFile h)
  | remove p =>
    rw [List.mem_singleton.mp hq]
    change t.unlink p = some t' at h
    unfold FileTree.unlink at h
    split at h
    · rename_i data hnode
      exact changeable_of_node hroot hnode (by simp)
    · rename_i target hnode
      exact changeable_of_node hroot hnode (by simp)
    · cases h
  | rename src dst =>
    obtain ⟨data, hsrc, -⟩ := FileTree.node_renameFile h
    rcases List.mem_cons.mp hq with rfl | hq
    · exact changeable_of_node hroot hsrc (by simp)
    · rw [List.mem_singleton.mp hq]
      change t.renameFile src dst = some t' at h
      unfold FileTree.renameFile at h
      rw [hsrc] at h
      -- the destination can be written once the source is gone
      have hput := changeable_of_canPut (canPut_of_writeFile h)
      refine ⟨hput.ne_nil, ?_, ?_⟩
      · intro hdir
        refine hput.not_dir ?_
        rw [FileTree.node_remove_file hsrc, if_neg, hdir]
        rintro rfl
        rw [hsrc] at hdir
        cases hdir
      · have hparent := hput.parent
        rw [FileTree.node_remove_file hsrc] at hparent
        split at hparent
        · cases hparent
        · exact hparent

/-- Operations on files leave the directories. -/
theorem dir_apply (hroot : t.node [] = some .dir) (h : op.apply t = some t') (q : Path) :
    t'.node q = some .dir ↔ t.node q = some .dir := by
  by_cases hq : q ∈ op.paths
  · refine ⟨fun hdir => ?_, fun hdir => absurd hdir (changeable_of_mem_paths hroot h hq).not_dir⟩
    obtain ⟨data, hfile⟩ := data_apply h hq _ hdir
    cases hfile
  · rw [node_apply h hq]

/-- What an operation reports is the path of a file afterwards. -/
theorem filePath_of_mem_paths (hroot : t.node [] = some .dir) (h : op.apply t = some t')
    {q : Path} (hq : q ∈ op.paths) : FilePath t' q where
  ne_nil := (changeable_of_mem_paths hroot h hq).ne_nil
  file := data_apply h hq
  parent := (dir_apply hroot h _).mpr (changeable_of_mem_paths hroot h hq).parent

/-- And they make no link. -/
theorem link_apply (h : op.apply t = some t') {q target : Path}
    (hq : t'.node q = some (.symlink target)) : t.node q = some (.symlink target) := by
  by_cases hmem : q ∈ op.paths
  · obtain ⟨data, hfile⟩ := data_apply h hmem _ hq
    cases hfile
  · rwa [node_apply h hmem] at hq

end FileOp

/-- A path of a file stays one. -/
theorem FilePath.apply {p : Path} (hfile : FilePath t p) (hroot : t.node [] = some .dir)
    (h : op.apply t = some t') : FilePath t' p where
  ne_nil := hfile.ne_nil
  file := by
    by_cases hp : p ∈ op.paths
    · exact FileOp.data_apply h hp
    · rw [FileOp.node_apply h hp]
      exact hfile.file
  parent := (FileOp.dir_apply hroot h _).mpr hfile.parent

end FileOp

/-! ## Events and pending directories -/

section Events
variable {library : Library} {root : Path}

theorem owningRoot_single {dir : Path} :
    owningRoot [(library, root)] dir = if root <+: dir then some 0 else none := by
  unfold owningRoot
  by_cases h : root <+: dir
  · rw [if_pos h, List.findIdx?_cons, if_pos (Path.startsWith_iff.mpr h)]
  · rw [if_neg h, List.findIdx?_cons, if_neg fun hs => h (Path.startsWith_iff.mp hs)]
    rfl

/-- With one library: the paths that are not ignored, and their parents. -/
theorem mem_dirtyDirectories {event : Event} {d : Dirty} :
    d ∈ dirtyDirectories event [(library, root)] ↔ event.kind ≠ .access ∧ d.1 = 0 ∧ root <+: d.2 ∧
      ∃ p ∈ event.paths, isPart p = false ∧ (d.2 = p ∨ (p ≠ [] ∧ d.2 = p.dropLast)) := by
  have hparent : ∀ p : Path, p.parent = some d.2 ↔ p ≠ [] ∧ d.2 = p.dropLast := by
    intro p
    unfold Path.parent
    split
    · rename_i h
      simp [h]
    · rename_i h
      simp [h, eq_comm]
  rw [mem_dirtyDirectories_iff, owningRoot_single]
  simp only [hparent]
  constructor
  · rintro ⟨hkind, p, hp, hpart, hd, howning⟩
    split at howning
    · rename_i hroot
      exact ⟨hkind, (Option.some.inj howning).symm, hroot, p, hp, hpart, hd⟩
    · cases howning
  · rintro ⟨hkind, hi, hroot, p, hp, hpart, hd⟩
    refine ⟨hkind, p, hp, hpart, hd, ?_⟩
    rw [if_pos hroot, hi]

end Events

end Loku
