import Loku.Index.DirectoryView
import Loku.Lib.Run
import Loku.System.Maintenance

/-!
# What the worker does to the files

An attempt derives one output of a job: the worker deletes a stale staging file, the runner
writes to the staging path, and if it returns success the worker renames the staging file into
place. The runner may write any bytes, several times, and delete what it wrote; it follows a
symbolic link that lies at its destination. A crash leaves the files as they are and forgets
everything else.

A stale staging file that cannot be removed is only warned about. Where that is a link, the
runner is called all the same and writes to whatever it leads to (`KeptLink`); where it is a
directory and the runner returns success over it, the directory is renamed into place.

The history of a run is kept beside the state: the paths that the worker or its runner created,
deleted or renamed (`touched`), the paths it put in place, and the runner calls that returned
success with what they left. Unless one of the two things happens, no touched path has the name of
a master, because a staging name ends in `.part`, a thumbnail in `.jpg` and a compat copy in
`.compat.mp4`, and a path in place holds what some call left (`WorkerFiles.Inv`): a staging path
is never a final path, so no later attempt writes where an earlier one has placed its file.
-/

namespace Loku

/-! ## Attempts -/

/-- One output of a job. -/
structure Attempt where
  source : Path
  output : WorkerOutput
deriving DecidableEq

namespace Attempt

/-- The name of the staging file. -/
def partName (a : Attempt) : FileName := siblingName a.source a.output.suffix.part

/-- The name of the finished file. -/
def destName (a : Attempt) : FileName := siblingName a.source a.output.suffix

/-- The staging path. -/
def part (a : Attempt) : Path := (siblingPaths a.source a.output.suffix).1

/-- The final path. -/
def dest (a : Attempt) : Path := (siblingPaths a.source a.output.suffix).2

@[simp]
theorem getLast?_part (a : Attempt) : a.part.getLast? = some a.partName := List.getLast?_concat

@[simp]
theorem getLast?_dest (a : Attempt) : a.dest.getLast? = some a.destName := List.getLast?_concat

end Attempt

/-- `run_job`: the compat copy of a plan comes first, then a missing thumbnail. -/
def Job.attempts (job : Job) : List Attempt :=
  (if job.plan.isSome then [⟨sourcePath job.library job.record, .compat⟩] else []) ++
    if job.record.thumbRelPath.isNone then [⟨sourcePath job.library job.record, .thumb⟩] else []

/-! ## Names -/

/-- What ends in another extension is no master; a name that is nothing but an extension has
none. -/
theorem not_isMasterVideo_of_dotted {n : FileName} {before ext : List Char} (hext : '.' ∉ ext)
    (h : n.text.toList = before ++ '.' :: ext)
    (hother : videoExtensions.contains (toLowercase (String.ofList ext)) = false) :
    isMasterVideo n = false := by
  have hname : videoExtensions.contains (videoExtension n) = false := by
    unfold videoExtension
    cases before with
    | nil =>
      have hnone : n.extension = none := by
        unfold FileName.extension
        rw [h, rsplitOnce_append_dot hext]
      rw [hnone, Option.getD_none]
      decide
    | cons c before =>
      rw [extension_of_text (by simp) hext h, Option.getD_some, hother]
  unfold isMasterVideo
  rw [hname, Bool.false_and]

/-- A staging file is no master. -/
theorem not_isMasterVideo_partName (a : Attempt) : isMasterVideo a.partName = false := by
  obtain ⟨stem, hstem⟩ := toList_staging a.source a.output.suffix
  exact not_isMasterVideo_of_dotted (by decide) hstem (by decide)

/-- A finished output is no master: a thumbnail by its extension, a compat copy by its stem. -/
theorem not_isMasterVideo_destName (a : Attempt) : isMasterVideo a.destName = false := by
  obtain ⟨source, output⟩ := a
  obtain ⟨stem, hstem⟩ := toList_siblingName source output.suffix
  cases output with
  | thumb =>
    have htext : (siblingName source jpgSuffix).text.toList = stem ++ '.' :: "jpg".toList := hstem
    exact not_isMasterVideo_of_dotted (by decide) htext (by decide)
  | compat =>
    have htext : (siblingName source compatSuffix).text.toList =
        (stem ++ ".compat".toList) ++ '.' :: "mp4".toList := by
      rw [List.append_assoc]
      exact hstem
    have hfile : (siblingName source compatSuffix).fileStem.toList = stem ++ ".compat".toList := by
      rw [fileStem_of_text (by simp) (by decide) htext]
      exact String.toList_ofList
    have hcompat : ".compat".toList.isSuffixOf
        (siblingName source compatSuffix).fileStem.toList = true := by
      rw [hfile, List.isSuffixOf_iff_suffix]
      exact List.suffix_append _ _
    show isMasterVideo (siblingName source compatSuffix) = false
    unfold isMasterVideo
    rw [hcompat, Bool.not_true, Bool.and_false]

/-- No staging file is named like a finished output. -/
theorem partName_ne_destName (a b : Attempt) : a.partName ≠ b.destName := by
  intro h
  have hdest : b.output.suffix.text.toList <:+ a.partName.text.toList :=
    h ▸ suffix_siblingName b.source b.output.suffix
  have hother : ∀ output : WorkerOutput, ¬ output.suffix.text.toList <:+ ".part".toList ∧
      ¬ ".part".toList <:+ output.suffix.text.toList := by
    intro output
    cases output <;> decide
  obtain ⟨hlong, hshort⟩ := hother b.output
  exact not_suffix_staging hlong hshort a.source a.output.suffix hdest

/-! ## The system -/

/-- A call of the runner that returned success, and the file it left at its destination. -/
structure RunnerCall where
  attempt : Attempt
  left : Option FileData
deriving DecidableEq

/-- Where the worker is; `rest` are the outputs of its job still to be derived. -/
inductive WorkPhase
  | idle
  | ready (a : Attempt) (rest : List Attempt)
  | running (a : Attempt) (rest : List Attempt)
  | finished (a : Attempt) (rest : List Attempt)

/-- On to the next output. -/
def WorkPhase.next : List Attempt → WorkPhase
  | [] => .idle
  | a :: rest => .ready a rest

/-- The attempt whose staging file the runner writes or has written. -/
def WorkPhase.staging : WorkPhase → Option Attempt
  | idle => none
  | ready _ _ => none
  | running a _ => some a
  | finished a _ => some a

structure WorkerFiles where
  tree : FileTree
  phase : WorkPhase
  /-- The paths that the worker or its runner has created, deleted or renamed. -/
  touched : List Path
  /-- The paths that the worker has put in place. -/
  placed : List Path
  succeeded : List RunnerCall

/-- A worker that has just been started. -/
def workerStart (t : FileTree) : WorkerFiles := ⟨t, .idle, [], [], []⟩

/-- The names of the steps. -/
inductive WorkerAction
  | files
  | take
  | removeStale
  | keepLink
  | write
  | discard
  | succeed
  | fail
  | rename
  | renameDir
  | renameFails
  | crash
deriving DecidableEq

inductive WorkerStep : WorkerFiles → WorkerAction → WorkerFiles → Prop
  /-- Someone else changes files, though none that the worker has put in place and not the
  staging file in use. -/
  | files {s : WorkerFiles} (t : FileTree) (hplaced : ∀ p ∈ s.placed, t.node p = s.tree.node p)
      (hstaging : ∀ a ∈ s.phase.staging, t.locate a.part = s.tree.locate a.part ∧
        ∀ q, s.tree.locate a.part = some q → t.node q = s.tree.node q) :
      WorkerStep s .files { s with tree := t }
  /-- Any job at all. -/
  | take {s : WorkerFiles} (job : Job) (hphase : s.phase = .idle) :
      WorkerStep s .take { s with phase := .next job.attempts }
  | removeStale {s : WorkerFiles} {a : Attempt} {rest : List Attempt} {q : Path} {t : FileTree}
      (hphase : s.phase = .ready a rest) (hpart : s.tree.locate a.part = some q)
      (hop : s.tree.unlink q = some t) :
      WorkerStep s .removeStale
        { s with tree := t, phase := .running a rest, touched := q :: s.touched }
  /-- There is nothing to remove, or what is there cannot be removed: a directory, or a file
  for reasons of its own. -/
  | keepStale {s : WorkerFiles} {a : Attempt} {rest : List Attempt}
      (hphase : s.phase = .ready a rest) (hlink : s.tree.NoLinkAt a.part) :
      WorkerStep s .removeStale { s with phase := .running a rest }
  /-- A link that cannot be removed stays as well. -/
  | keepLink {s : WorkerFiles} {a : Attempt} {rest : List Attempt}
      (hphase : s.phase = .ready a rest) (hlink : ¬ s.tree.NoLinkAt a.part) :
      WorkerStep s .keepLink { s with phase := .running a rest }
  | write {s : WorkerFiles} {a : Attempt} {rest : List Attempt} {q : Path} {data : FileData}
      {t : FileTree} (hphase : s.phase = .running a rest) (hopen : s.tree.Opens a.part q)
      (hop : s.tree.writeFile q data = some t) :
      WorkerStep s .write { s with tree := t, touched := q :: s.touched }
  | discard {s : WorkerFiles} {a : Attempt} {rest : List Attempt} {q : Path} {t : FileTree}
      (hphase : s.phase = .running a rest) (hpart : s.tree.locate a.part = some q)
      (hop : s.tree.unlink q = some t) :
      WorkerStep s .discard { s with tree := t, touched := q :: s.touched }
  | succeed {s : WorkerFiles} {a : Attempt} {rest : List Attempt}
      (hphase : s.phase = .running a rest) :
      WorkerStep s .succeed
        { s with
          phase := .finished a rest
          succeeded := ⟨a, s.tree.fileAt a.part⟩ :: s.succeeded }
  /-- The runner fails, which ends the job. -/
  | fail {s : WorkerFiles} {a : Attempt} {rest : List Attempt}
      (hphase : s.phase = .running a rest) :
      WorkerStep s .fail { s with phase := .idle }
  | rename {s : WorkerFiles} {a : Attempt} {rest : List Attempt} {src dst : Path} {t : FileTree}
      (hphase : s.phase = .finished a rest) (hsrc : s.tree.locate a.part = some src)
      (hdst : s.tree.locate a.dest = some dst) (hdir : s.tree.node src ≠ some .dir)
      (hop : s.tree.rename src dst = some t) :
      WorkerStep s .rename
        { s with
          tree := t
          phase := .next rest
          touched := src :: dst :: s.touched
          placed := dst :: s.placed }
  /-- A directory is renamed, with everything beneath it. -/
  | renameDir {s : WorkerFiles} {a : Attempt} {rest : List Attempt} {src dst : Path} {t : FileTree}
      (hphase : s.phase = .finished a rest) (hsrc : s.tree.locate a.part = some src)
      (hdst : s.tree.locate a.dest = some dst) (hdir : s.tree.node src = some .dir)
      (hop : s.tree.rename src dst = some t) :
      WorkerStep s .renameDir
        { s with
          tree := t
          phase := .next rest
          touched := s.tree.atOrBeneath src ++ t.atOrBeneath dst ++ s.touched
          placed := dst :: s.placed }
  | renameFails {s : WorkerFiles} {a : Attempt} {rest : List Attempt}
      (hphase : s.phase = .finished a rest) :
      WorkerStep s .renameFails { s with phase := .idle }
  /-- The process is killed, the runner with it, and started again. -/
  | crash {s : WorkerFiles} : WorkerStep s .crash { s with phase := .idle }

/-- No link stays at a staging path when the runner is called, and no directory is renamed into
place. -/
def WorkerAction.Cleared (action : WorkerAction) : Prop :=
  action ≠ .keepLink ∧ action ≠ .renameDir

instance : DecidablePred WorkerAction.Cleared := fun _ => inferInstanceAs (Decidable (_ ∧ _))

/-! ## Where the steps reach -/

/-- A path whose name is that of a master. -/
def IsMasterPath (p : Path) : Prop := ∃ n ∈ p.getLast?, isMasterVideo n = true

namespace FileTree

variable {t t' : FileTree} {p q : Path}

/-- Following the links before a name keeps the name. -/
theorem getLast?_of_locate (h : t.locate p = some q) : q.getLast? = p.getLast? := by
  unfold locate at h
  obtain ⟨n, hn, hq⟩ := Option.bind_eq_some_iff.mp h
  obtain ⟨d, -, rfl⟩ := Option.map_eq_some_iff.mp hq
  rw [List.getLast?_concat, hn]

theorem fileAt_eq_some_iff {data : FileData} (h : t.locate p = some q) :
    t.fileAt p = some data ↔ t.node q = some (.file data) := by
  unfold fileAt
  rw [h, Option.bind_some]
  cases t.node q with
  | none => simp
  | some a => cases a <;> simp [Node.data?]

/-- Once a path holds no link, changing it to a file or to nothing brings none back. -/
theorem noLinkAt_of_changed (h : t.locate p = some q)
    (hleaf : ∀ a, t'.node q = some a → ∃ data, a = .file data)
    (hsame : ∀ r, r ≠ q → t'.node r = t.node r) : t'.NoLinkAt p := by
  intro r target hr hnode
  have hback := locate_congr hleaf (fun r hne => (hsame r hne).symm) hr hnode
  rw [h] at hback
  rw [← Option.some.inj hback] at hnode
  obtain ⟨data, hfile⟩ := hleaf _ hnode
  cases hfile

theorem NoLinkAt.unlink (h : t.locate p = some q) (hop : t.unlink q = some t') :
    t'.NoLinkAt p := by
  have hnode := node_unlink hop
  apply noLinkAt_of_changed h
  · intro a ha
    rw [hnode, if_pos rfl] at ha
    cases ha
  · intro r hr
    rw [hnode, if_neg hr]

theorem NoLinkAt.writeFile {data : FileData} (h : t.locate p = some q)
    (hop : t.writeFile q data = some t') : t'.NoLinkAt p := by
  have hnode := node_writeFile hop
  apply noLinkAt_of_changed h
  · intro a ha
    rw [hnode, if_pos rfl] at ha
    exact ⟨data, (Option.some.inj ha).symm⟩
  · intro r hr
    rw [hnode, if_neg hr]

end FileTree

theorem not_isMasterPath_of_locate_part {t : FileTree} {a : Attempt} {q : Path}
    (h : t.locate a.part = some q) : ¬ IsMasterPath q := by
  rintro ⟨n, hn, hmaster⟩
  rw [FileTree.getLast?_of_locate h, a.getLast?_part] at hn
  cases hn
  rw [not_isMasterVideo_partName] at hmaster
  cases hmaster

theorem not_isMasterPath_of_locate_dest {t : FileTree} {a : Attempt} {q : Path}
    (h : t.locate a.dest = some q) : ¬ IsMasterPath q := by
  rintro ⟨n, hn, hmaster⟩
  rw [FileTree.getLast?_of_locate h, a.getLast?_dest] at hn
  cases hn
  rw [not_isMasterVideo_destName] at hmaster
  cases hmaster

/-! ## What lies in place -/

/-- A path has the name of an output and holds the bytes that a call for that output left. -/
def LeftBy (succeeded : List RunnerCall) (t : FileTree) (p : Path) : Prop :=
  ∃ call ∈ succeeded, p.getLast? = some call.attempt.destName ∧
    ∃ data, t.node p = some (.file data) ∧ call.left = some data

theorem LeftBy.mono {succeeded succeeded' : List RunnerCall} {t t' : FileTree} {p : Path}
    (h : LeftBy succeeded t p) (hcalls : succeeded ⊆ succeeded')
    (hnode : t'.node p = t.node p) : LeftBy succeeded' t' p := by
  obtain ⟨call, hcall, hlast, data, hfile, hleft⟩ := h
  exact ⟨call, hcalls hcall, hlast, data, hnode.trans hfile, hleft⟩

/-- A staging path is none of the paths in place. -/
theorem LeftBy.ne_part {succeeded : List RunnerCall} {t t' : FileTree} {p q : Path} {a : Attempt}
    (h : LeftBy succeeded t p) (hq : t'.locate a.part = some q) : p ≠ q := by
  rintro rfl
  obtain ⟨call, -, hlast, -⟩ := h
  rw [FileTree.getLast?_of_locate hq, a.getLast?_part] at hlast
  exact partName_ne_destName a call.attempt (Option.some.inj hlast)

namespace WorkerFiles

structure Inv (s : WorkerFiles) : Prop where
  spared : ∀ p ∈ s.touched, ¬ IsMasterPath p
  whole : ∀ p ∈ s.placed, LeftBy s.succeeded s.tree p
  /-- The runner writes to its destination and nowhere else. -/
  unlinked : ∀ a ∈ s.phase.staging, s.tree.NoLinkAt a.part
  /-- What is about to be renamed is what the runner left. -/
  left : ∀ a rest, s.phase = .finished a rest →
    ∃ call ∈ s.succeeded, call.attempt = a ∧ call.left = s.tree.fileAt a.part

variable {s : WorkerFiles} {a : Attempt} {rest : List Attempt}

@[simp]
theorem staging_next (rest : List Attempt) : (WorkPhase.next rest).staging = none := by
  cases rest <;> rfl

/-- While no staging file is in use there is nothing to say about one. -/
theorem inv_of_no_staging (hphase : s.phase.staging = none)
    (hspared : ∀ p ∈ s.touched, ¬ IsMasterPath p)
    (hwhole : ∀ p ∈ s.placed, LeftBy s.succeeded s.tree p) : s.Inv where
  spared := hspared
  whole := hwhole
  unlinked := by
    intro a ha
    rw [hphase] at ha
    cases ha
  left := by
    intro a rest ha
    rw [ha] at hphase
    cases hphase

theorem inv_start (t : FileTree) : (workerStart t).Inv := by
  apply inv_of_no_staging rfl
  · simp [workerStart]
  · simp [workerStart]

theorem Inv.of_phase (h : s.Inv) {phase : WorkPhase} (hphase : phase.staging = none) :
    { s with phase := phase }.Inv :=
  inv_of_no_staging hphase h.spared h.whole

/-- The staging file changes, and nothing else. -/
theorem Inv.staging (h : s.Inv) {t : FileTree} {phase : WorkPhase} {q : Path}
    (hphase : phase = .running a rest) (hpart : s.tree.locate a.part = some q)
    (hsame : ∀ p, p ≠ q → t.node p = s.tree.node p) (hlink : t.NoLinkAt a.part) :
    { s with tree := t, phase := phase, touched := q :: s.touched }.Inv where
  spared := by
    intro p hp
    rcases List.mem_cons.mp hp with rfl | hp
    · exact not_isMasterPath_of_locate_part hpart
    · exact h.spared p hp
  whole := fun p hp =>
    (h.whole p hp).mono (List.Subset.refl _) (hsame p ((h.whole p hp).ne_part hpart))
  unlinked := by
    subst hphase
    rintro _ ⟨⟩
    exact hlink
  left := by
    intro b rest' hb
    cases hphase.symm.trans hb

/-- What is renamed into place is a regular file. -/
theorem Inv.rename_eq (h : s.Inv) (hphase : s.phase = .finished a rest) {src dst : Path}
    {t : FileTree} (hsrc : s.tree.locate a.part = some src) (hdir : s.tree.node src ≠ some .dir)
    (hop : s.tree.rename src dst = some t) : s.tree.renameFile src dst = some t := by
  cases hnode : s.tree.node src with
  | none =>
    unfold FileTree.rename at hop
    rw [hnode] at hop
    cases hop
  | some node =>
    cases node with
    | dir => exact absurd hnode hdir
    | symlink target =>
      exact absurd hnode (h.unlinked a (by rw [hphase]; rfl) src target hsrc)
    | file data => rwa [FileTree.rename_of_file hnode] at hop

/-- The staging file is renamed into place. -/
theorem Inv.rename (h : s.Inv) (hphase : s.phase = .finished a rest) {src dst : Path}
    {t : FileTree} (hsrc : s.tree.locate a.part = some src)
    (hdst : s.tree.locate a.dest = some dst) (hdir : s.tree.node src ≠ some .dir)
    (hop : s.tree.rename src dst = some t) :
    { s with
      tree := t
      phase := .next rest
      touched := src :: dst :: s.touched
      placed := dst :: s.placed }.Inv := by
  obtain ⟨data, hdata, hnode⟩ :=
    FileTree.node_renameFile (h.rename_eq hphase hsrc hdir hop)
  obtain ⟨call, hcall, hattempt, hleft⟩ := h.left a rest hphase
  have hplaced : LeftBy s.succeeded t dst := by
    refine ⟨call, hcall, ?_, data, ?_, ?_⟩
    · rw [FileTree.getLast?_of_locate hdst, a.getLast?_dest, hattempt]
    · rw [hnode, if_pos rfl]
    · rw [hleft, FileTree.fileAt_eq_some_iff hsrc]
      exact hdata
  apply inv_of_no_staging (staging_next rest)
  · intro p hp
    rcases List.mem_cons.mp hp with rfl | hp
    · exact not_isMasterPath_of_locate_part hsrc
    · rcases List.mem_cons.mp hp with rfl | hp
      · exact not_isMasterPath_of_locate_dest hdst
      · exact h.spared p hp
  · intro p hp
    by_cases heq : p = dst
    · rw [heq]
      exact hplaced
    · have hmem : p ∈ s.placed := (List.mem_cons.mp hp).resolve_left heq
      apply (h.whole p hmem).mono (List.Subset.refl _)
      rw [hnode, if_neg heq, if_neg ((h.whole p hmem).ne_part hsrc)]

theorem Inv.step {s' : WorkerFiles} {action : WorkerAction} (h : s.Inv)
    (hstep : WorkerStep s action s') (hclear : action.Cleared) : s'.Inv := by
  cases hstep with
  | files t hplaced hstaging =>
    constructor
    · exact h.spared
    · intro p hp
      exact (h.whole p hp).mono (List.Subset.refl _) (hplaced p hp)
    · intro a ha q target hq
      obtain ⟨hlocate, hnode⟩ := hstaging a ha
      have hbefore : s.tree.locate a.part = some q := hlocate ▸ hq
      rw [hnode q hbefore]
      exact h.unlinked a ha q target hbefore
    · intro a rest hphase
      obtain ⟨hlocate, hnode⟩ := hstaging a (by rw [hphase]; rfl)
      obtain ⟨call, hcall, hattempt, hleft⟩ := h.left a rest hphase
      refine ⟨call, hcall, hattempt, hleft.trans ?_⟩
      unfold FileTree.fileAt
      rw [hlocate]
      cases hq : s.tree.locate a.part with
      | none => rfl
      | some q => simp only [Option.bind_some, hnode q hq]
  | take job hphase => exact h.of_phase (staging_next job.attempts)
  | removeStale hphase hpart hop =>
    apply h.staging rfl hpart
    · intro p hp
      rw [FileTree.node_unlink hop, if_neg hp]
    · exact .unlink hpart hop
  | keepStale hphase hlink =>
    constructor
    · exact h.spared
    · exact h.whole
    · rintro _ ⟨⟩
      exact hlink
    · intro b rest hb
      cases hb
  | keepLink => exact absurd rfl hclear.1
  | write hphase hopen hop =>
    have hpart := hopen.locate (h.unlinked _ (by rw [hphase]; rfl))
    apply h.staging hphase hpart
    · intro p hp
      rw [FileTree.node_writeFile hop, if_neg hp]
    · exact .writeFile hpart hop
  | discard hphase hpart hop =>
    apply h.staging hphase hpart
    · intro p hp
      rw [FileTree.node_unlink hop, if_neg hp]
    · exact .unlink hpart hop
  | succeed hphase =>
    constructor
    · exact h.spared
    · intro p hp
      exact (h.whole p hp).mono (List.subset_cons_self _ _) rfl
    · rintro _ ⟨⟩
      exact h.unlinked _ (by rw [hphase]; rfl)
    · intro b rest hb
      cases hb
      exact ⟨_, List.mem_cons_self, rfl, rfl⟩
  | fail hphase => exact h.of_phase rfl
  | rename hphase hsrc hdst hdir hop => exact h.rename hphase hsrc hdst hdir hop
  | renameDir => exact absurd rfl hclear.2
  | renameFails hphase => exact h.of_phase rfl
  | crash => exact h.of_phase rfl

/-- The worker and its runner change only what they touch. -/
theorem Inv.node_of_not_touched {s' : WorkerFiles} {action : WorkerAction} (h : s.Inv)
    (hstep : WorkerStep s action s') (hclear : action.Cleared) (haction : action ≠ .files)
    {p : Path}
    (hp : p ∉ s'.touched) : s'.tree.node p = s.tree.node p := by
  cases hstep with
  | files => exact absurd rfl haction
  | take => rfl
  | removeStale _ _ hop =>
    rw [FileTree.node_unlink hop, if_neg (List.ne_of_not_mem_cons hp)]
  | keepStale => rfl
  | keepLink => rfl
  | write _ _ hop =>
    rw [FileTree.node_writeFile hop, if_neg (List.ne_of_not_mem_cons hp)]
  | discard _ _ hop =>
    rw [FileTree.node_unlink hop, if_neg (List.ne_of_not_mem_cons hp)]
  | succeed => rfl
  | fail => rfl
  | rename hphase hsrc _ hdir hop =>
    obtain ⟨data, -, hnode⟩ := FileTree.node_renameFile (h.rename_eq hphase hsrc hdir hop)
    rw [List.mem_cons, List.mem_cons, not_or, not_or] at hp
    rw [hnode, if_neg hp.2.1, if_neg hp.1]
  | renameDir => exact absurd rfl hclear.2
  | renameFails => rfl
  | crash => rfl

/-- No step of the worker changes a master. -/
theorem Inv.node_master {s' : WorkerFiles} {action : WorkerAction} (h : s.Inv)
    (hstep : WorkerStep s action s') (hclear : action.Cleared) (haction : action ≠ .files)
    {p : Path}
    (hp : IsMasterPath p) : s'.tree.node p = s.tree.node p :=
  h.node_of_not_touched hstep hclear haction fun hmem => (h.step hstep hclear).spared p hmem hp

theorem Inv.run {s' : WorkerFiles} {actions : List WorkerAction} (h : s.Inv)
    (hrun : Lib.Run WorkerStep s actions s') (hclear : ∀ action ∈ actions, action.Cleared) :
    s'.Inv :=
  hrun.invariant_of_actions (fun _ _ _ hinv hstep hok => hinv.step hstep hok) hclear h

/-- Left to itself, the worker changes no master in a whole run. -/
theorem Inv.node_master_run {s' : WorkerFiles} {actions : List WorkerAction} (h : s.Inv)
    (hrun : Lib.Run WorkerStep s actions s') (hclear : ∀ action ∈ actions, action.Cleared)
    (hactions : .files ∉ actions) {p : Path} (hp : IsMasterPath p) :
    s'.tree.node p = s.tree.node p := by
  induction hrun with
  | nil => rfl
  | cons hstep _ ih =>
    rw [List.forall_mem_cons] at hclear
    rw [List.mem_cons, not_or] at hactions
    rw [ih (h.step hstep hclear.1) hclear.2 hactions.2]
    exact h.node_master hstep hclear.1 (Ne.symm hactions.1) hp

end WorkerFiles

/-- In every run of the worker, with any jobs, any runner and any crashes, in which no link stays
at a staging path when the runner is called and no directory is renamed into place: no path that
is created, deleted or renamed is named like a master, the masters are left as they are, and every
file in place holds exactly what a runner call left that returned success. -/
theorem masters_untouched_and_outputs_whole {t : FileTree} {actions : List WorkerAction}
    {s : WorkerFiles} (h : Lib.Run WorkerStep (workerStart t) actions s)
    (hclear : ∀ action ∈ actions, action.Cleared) :
    (∀ p ∈ s.touched, ¬ IsMasterPath p) ∧
      (.files ∉ actions → ∀ p, IsMasterPath p → s.tree.node p = t.node p) ∧
      ∀ p ∈ s.placed, LeftBy s.succeeded s.tree p := by
  have hinv := (WorkerFiles.inv_start t).run h hclear
  refine ⟨hinv.spared, fun hactions p hp => ?_, hinv.whole⟩
  exact (WorkerFiles.inv_start t).node_master_run h hclear hactions hp

/-! ## An attempt that is interrupted and made again -/

namespace Interrupted
open OneVideo

def record : VideoRecord :=
  (collectDirectory OneVideo.decoders tree library [lib] [lib]).head (by decide)

def job : Job := ⟨library, record, some ⟨.copy, .transcode⟩⟩

def compat : Attempt := ⟨sourcePath library record, .compat⟩

def thumb : Attempt := ⟨sourcePath library record, .thumb⟩

/-- What the runner has written when the process is killed. -/
def staged : FileTree := (tree.writeFile compat.part ⟨[7], 10⟩).get (by decide)

def cleaned : FileTree := (staged.unlink compat.part).get (by decide)

def complete : FileTree := (cleaned.writeFile compat.part ⟨[7, 8, 9], 20⟩).get (by decide)

def finished : FileTree := (complete.renameFile compat.part compat.dest).get (by decide)

def state : WorkerFiles where
  tree := finished
  phase := .next [thumb]
  touched := [compat.part, compat.dest, compat.part, compat.part, compat.part]
  placed := [compat.dest]
  succeeded := [⟨compat, complete.fileAt compat.part⟩]

theorem run_state : Lib.Run WorkerStep (workerStart tree)
    [.take, .removeStale, .write, .crash, .take, .removeStale, .write, .succeed, .rename]
    state := by
  have hpart₀ : tree.locate compat.part = some compat.part := by decide
  have hpart₁ : staged.locate compat.part = some compat.part := by decide
  have hpart₂ : cleaned.locate compat.part = some compat.part := by decide
  have hpart₃ : complete.locate compat.part = some compat.part := by decide
  have hdest : complete.locate compat.dest = some compat.dest := by decide
  have hfree : tree.LinkFree := by decide
  refine .cons (.take job rfl) ?_
  refine .cons (.keepStale (a := compat) rfl fun q target _ => hfree q target) ?_
  refine .cons (.write (t := staged) rfl ⟨_, hpart₀, Or.inr rfl⟩ (Option.some_get _).symm) ?_
  refine .cons .crash ?_
  refine .cons (.take job rfl) ?_
  refine .cons (.removeStale (t := cleaned) rfl hpart₁ (Option.some_get _).symm) ?_
  refine .cons (.write (t := complete) rfl ⟨_, hpart₂, Or.inr rfl⟩ (Option.some_get _).symm) ?_
  refine .cons (.succeed rfl) ?_
  refine .single (.rename (t := finished) rfl hpart₃ hdest (by decide) ?_)
  show complete.rename compat.part compat.dest = some finished
  rw [FileTree.rename_of_file (show _ = some (Node.file ⟨[7, 8, 9], 20⟩) by decide)]
  exact (Option.some_get _).symm

theorem masters_untouched_interrupted :
    (∀ p ∈ state.touched, ¬ IsMasterPath p) ∧
      (.files ∉ [WorkerAction.take, .removeStale, .write, .crash, .take, .removeStale, .write,
          .succeed, .rename] →
        ∀ p, IsMasterPath p → state.tree.node p = tree.node p) ∧
      ∀ p ∈ state.placed, LeftBy state.succeeded state.tree p :=
  masters_untouched_and_outputs_whole run_state (by decide)

end Interrupted

/-! ## A link that stays -/

namespace KeptLink
open OneVideo (lib library)

def extras : FileName := ⟨"extras", by decide⟩

/-- The link leads to this name, which is that of a master. -/
def other : Path := [lib, extras, ⟨"Other.mkv", by decide⟩]

def attempt : Attempt := Interrupted.compat

/-- Something has left a link at the staging path. -/
def tree : FileTree :=
  .ofNodes [([], .dir), ([lib], .dir), ([lib, OneVideo.movie], .file ⟨[1, 2, 3], 5⟩),
    ([lib, attempt.partName], .symlink other), ([lib, extras], .dir)] (by decide) (by decide)

def written : FileTree := (tree.writeFile other ⟨[7, 8, 9], 20⟩).get (by decide)

/-- The runner has written a master. -/
def state : WorkerFiles where
  tree := written
  phase := .running attempt [Interrupted.thumb]
  touched := [other]
  placed := []
  succeeded := []

theorem run_state : Lib.Run WorkerStep (workerStart tree) [.take, .keepLink, .write] state := by
  have hpart : tree.locate attempt.part = some attempt.part := by decide
  have hlink : tree.node attempt.part = some (.symlink other) := by decide
  refine .cons (.take Interrupted.job rfl) ?_
  refine .cons (.keepLink (a := attempt) rfl fun hnone => hnone _ _ hpart hlink) ?_
  exact .single (.write (t := written) rfl ⟨_, hpart, Or.inl ⟨other, hlink⟩⟩
    (Option.some_get _).symm)

/-- The link could not be removed, and the runner creates what it leads to. -/
theorem master_created : ¬ ∀ (t : FileTree) (actions : List WorkerAction) (s : WorkerFiles),
    Lib.Run WorkerStep (workerStart t) actions s →
      (∀ p ∈ s.touched, ¬ IsMasterPath p) ∧
        (.files ∉ actions → ∀ p, IsMasterPath p → s.tree.node p = t.node p) ∧
        ∀ p ∈ s.placed, LeftBy s.succeeded s.tree p := by
  intro h
  exact (h tree _ state run_state).1 other (List.mem_singleton_self _)
    ⟨⟨"Other.mkv", by decide⟩, by decide, by decide⟩

end KeptLink

end Loku
