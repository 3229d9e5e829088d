import Loku.Index.Boundary
import Loku.Index.TreeRemoval
import Loku.Lib.Run

/-!
# The maintenance loop and its candidates

After the first scan the maintenance task waits for an event or for its deadline. An event's
dirty directories are recorded as candidates; when the deadline has passed the candidates are
taken and handed to a flush, while further events wait in the channel. The channel stays open as
long as the loop, which owns the watcher, and other tasks and the probe pass after a flush write
to the index in between.

A flush reads the scan generation before anything else and ends there if it cannot. By then the
candidates have been taken, so they are lost. One that goes on prunes what lies beneath another
candidate, whose walk or removal is to stand in for it: a walk does not go through a link, and the
removal of a library's root takes no row beneath it along. No candidate is dropped all along a run
exactly if none of this happens in a flush (`noneDropped_iff`).
-/

namespace Loku

/-! ## The debounce -/

namespace Debounce

/-- A deadline is set exactly when something is pending, and nothing is pending twice. -/
structure WellFormed (debounce : Debounce) : Prop where
  nodup : debounce.pending.Nodup
  deadline : debounce.deadline.isSome = true ↔ debounce.pending ≠ []

theorem wellFormed_new (quiet : Nat) : (new quiet).WellFormed where
  nodup := List.nodup_nil
  deadline := by simp [new]

theorem WellFormed.record {debounce : Debounce} (h : debounce.WellFormed) (key : Dirty)
    (now : Nat) : (debounce.record key now).WellFormed where
  nodup := h.nodup.insert
  deadline := by
    have hmem : key ∈ debounce.pending.insert key := List.mem_insert_self
    simp [Debounce.record, List.ne_nil_of_mem hmem]

theorem WellFormed.recordAll {debounce : Debounce} (h : debounce.WellFormed) (keys : List Dirty)
    (now : Nat) : (debounce.recordAll keys now).WellFormed := by
  unfold Debounce.recordAll
  induction keys generalizing debounce with
  | nil => exact h
  | cons key keys ih => exact ih (h.record key now)

theorem WellFormed.take (debounce : Debounce) : debounce.take.2.WellFormed where
  nodup := List.nodup_nil
  deadline := by simp [Debounce.take]

end Debounce

/-! ## What a flush attempts -/

/-- The calls of a flush on single candidates. -/
inductive FlushCall
  | removeVanished (d : Dirty)
  | reconcileLive (d : Dirty)
deriving DecidableEq

/-- The calls that a flush makes once it has read the generation. -/
def flushCalls (t : FileTree) (dirty : List Dirty) : List FlushCall :=
  (pruneNested (vanishedDirty t dirty)).map .removeVanished ++
    (pruneNested (liveDirty t dirty)).map .reconcileLive

/-- One call's effect on the index. -/
def FlushCall.perform (decoders : Decoders) (faults : Faults) (disk : Disk)
    (roots : List (Library × Path)) (generation : Int) (index : Index) : FlushCall → Index
  | .removeVanished d => Loku.removeVanished faults roots index d
  | .reconcileLive d => Loku.reconcileLive decoders faults disk roots generation index d

/-- A flush that reads the generation makes its calls in turn. -/
theorem flush_eq_foldl_flushCalls {decoders : Decoders} {faults : Faults} {disk : Disk}
    {roots : List (Library × Path)} {dirty : List Dirty} {index : Index}
    (h : faults .currentGeneration = false) :
    flush decoders faults disk roots dirty index =
      (flushCalls disk.walk dirty).foldl
        (FlushCall.perform decoders faults disk roots index.currentGeneration) index := by
  unfold flush flushCalls
  rw [if_neg (by simp [h]), List.foldl_append, List.foldl_map, List.foldl_map]
  rfl

theorem reconcileLive_mem_flushCalls {t : FileTree} {dirty : List Dirty} {k : Dirty} :
    .reconcileLive k ∈ flushCalls t dirty ↔ k ∈ pruneNested (liveDirty t dirty) := by
  simp [flushCalls]

theorem removeVanished_mem_flushCalls {t : FileTree} {dirty : List Dirty} {k : Dirty} :
    .removeVanished k ∈ flushCalls t dirty ↔ k ∈ pruneNested (vanishedDirty t dirty) := by
  simp [flushCalls]

/-- A candidate is worked off by the calls of a flush: a call is made for it, or a walk from a live
one visits it, or its rows are among those that are removed with a vanished one. Either needs the
root of its library. -/
def WorkedOff (roots : List (Library × Path)) (t : FileTree) (calls : List FlushCall) (d : Dirty) :
    Prop :=
  ∃ library root, roots[d.1]? = some (library, root) ∧
    if t.isDir d.2 then ∃ k, .reconcileLive k ∈ calls ∧ k.1 = d.1 ∧ (k = d ∨ d.2 ∈ t.walkDir k.2)
    else ∃ k, .removeVanished k ∈ calls ∧ k.1 = d.1 ∧
      (k = d ∨ Index.inTree (relativeOf k.2 root) (relativeOf d.2 root) = true)

/-- What a flush has taken hides nothing: no link lies on the way from one directory to another
beneath it, and no library root is gone together with something beneath it. -/
structure Unhidden (roots : List (Library × Path)) (t : FileTree) (taken : List Dirty) : Prop where
  live : ∀ k ∈ taken, ∀ d ∈ taken, Covers k d → k ≠ d → t.isDir k.2 = true → t.isDir d.2 = true →
    t.FoundBeneath k.2 d.2
  vanished : ∀ k ∈ taken, ∀ d ∈ taken, Covers k d → k ≠ d → t.isDir k.2 = false →
    t.isDir d.2 = false → ∀ library root, roots[k.1]? = some (library, root) → k.2 ≠ root

section WorkedOff
variable {roots : List (Library × Path)} {t : FileTree} {taken : List Dirty} {k d : Dirty}

/-- The candidate lies beneath the root of its library. -/
def BeneathRoot (roots : List (Library × Path)) (d : Dirty) : Prop :=
  ∃ library root, roots[d.1]? = some (library, root) ∧ root <+: d.2

theorem beneathRoot_of_owningRoot (h : owningRoot roots d.2 = some d.1) : BeneathRoot roots d := by
  have hlt := (List.findIdx?_eq_some_iff_getElem.mp h).1
  have hget : roots[d.1]? = some (roots[d.1].1, roots[d.1].2) := List.getElem?_eq_getElem hlt
  exact ⟨_, _, hget, prefix_of_owningRoot hget h⟩

theorem mem_liveDirty : d ∈ liveDirty t taken ↔ d ∈ taken ∧ t.isDir d.2 = true := List.mem_filter

theorem mem_vanishedDirty : d ∈ vanishedDirty t taken ↔ d ∈ taken ∧ t.isDir d.2 = false := by
  simp [vanishedDirty]

/-- Beneath a vanished root nothing is removed with it. -/
theorem inTree_of_root {root dir : Path} (hdir : root <+: dir)
    (h : Index.inTree (relativeOf root root) (relativeOf dir root) = true) : dir = root := by
  obtain ⟨rel, rfl⟩ := hdir
  have hroot : relativeOf root root = "" := by
    have happ := relativeOf_append root []
    rwa [List.append_nil] at happ
  rw [hroot, relativeOf_append, Index.inTree_root_iff] at h
  rcases h with h | h
  · have hrel : rel = [] := Path.relText_inj.mp h
    rw [hrel, List.append_nil]
  · exact absurd h (Path.head?_relText rel)

/-- The walk from the directory that covers a live candidate visits it, unless it is hidden. -/
theorem workedOff_live (hd : d ∈ taken) (hroot : BeneathRoot roots d) (hlive : t.isDir d.2 = true)
    (h : Unhidden roots t taken) : WorkedOff roots t (flushCalls t taken) d := by
  obtain ⟨library, root, hget, -⟩ := hroot
  refine ⟨library, root, hget, ?_⟩
  rw [if_pos hlive]
  obtain ⟨k, hk, hcover⟩ := exists_pruneNested (mem_liveDirty.mpr ⟨hd, hlive⟩)
  obtain ⟨hmem, hklive⟩ := mem_liveDirty.mp (mem_of_mem_pruneNested hk)
  refine ⟨k, reconcileLive_mem_flushCalls.mpr hk, hcover.1, ?_⟩
  by_cases hne : k = d
  · exact Or.inl hne
  · exact Or.inr (FileTree.mem_walkDir_iff.mpr (h.live k hmem d hd hcover hne hklive hlive))

/-- The removal of what covers a vanished candidate takes its rows along, unless it is hidden. -/
theorem workedOff_vanished (hroots : ∀ d ∈ taken, BeneathRoot roots d) (hd : d ∈ taken)
    (hgone : t.isDir d.2 = false) (h : Unhidden roots t taken) :
    WorkedOff roots t (flushCalls t taken) d := by
  obtain ⟨k, hk, hcover⟩ := exists_pruneNested (mem_vanishedDirty.mpr ⟨hd, hgone⟩)
  obtain ⟨hmem, hkgone⟩ := mem_vanishedDirty.mp (mem_of_mem_pruneNested hk)
  obtain ⟨library, root, hget, hpre⟩ := hroots k hmem
  refine ⟨library, root, hcover.1 ▸ hget, ?_⟩
  rw [if_neg (by rw [hgone]; exact Bool.false_ne_true)]
  refine ⟨k, removeVanished_mem_flushCalls.mpr hk, hcover.1, ?_⟩
  by_cases hne : k = d
  · exact Or.inl hne
  · have hkroot := h.vanished k hmem d hd hcover hne hkgone hgone library root hget
    exact Or.inr (inTree_of_beneath hpre hkroot hcover.2 (Index.inTree_iff.mpr (Or.inl rfl)))

/-- What is worked off is found beneath every live directory above it. -/
theorem foundBeneath_of_workedOff (hk : k ∈ taken) (hklive : t.isDir k.2 = true)
    (hcover : Covers k d) (hne : k ≠ d) (hlive : t.isDir d.2 = true)
    (h : WorkedOff roots t (flushCalls t taken) d) : t.FoundBeneath k.2 d.2 := by
  obtain ⟨_, _, -, h⟩ := h
  rw [if_pos hlive] at h
  obtain ⟨m, hm, hlib, hreached⟩ := h
  obtain ⟨-, hmin⟩ := mem_pruneNested_iff.mp (reconcileLive_mem_flushCalls.mp hm)
  have hmin := hmin k (mem_liveDirty.mpr ⟨hk, hklive⟩)
  rcases hreached with rfl | hwalk
  · exact absurd (hmin hcover) hne
  · have hfound := FileTree.mem_walkDir_iff.mp hwalk
    have hpre := FileTree.prefix_of_mem_walkDir hwalk
    have hmk : m.2 <+: k.2 := by
      rcases List.prefix_or_prefix_of_prefix hpre hcover.2 with hmk | hkm
      · exact hmk
      · rw [hmin ⟨hcover.1.trans hlib.symm, hkm⟩]
    exact hfound.of_prefix hmk hcover.2 fun heq => hne (Prod.ext hcover.1 heq)

/-- What is worked off is not beneath a vanished root. -/
theorem ne_root_of_workedOff (hroots : ∀ d ∈ taken, BeneathRoot roots d) (hk : k ∈ taken)
    (hkgone : t.isDir k.2 = false) (hcover : Covers k d) (hne : k ≠ d)
    (hgone : t.isDir d.2 = false) (h : WorkedOff roots t (flushCalls t taken) d)
    {library : Library} {root : Path} (hget : roots[k.1]? = some (library, root)) :
    k.2 ≠ root := by
  rintro rfl
  obtain ⟨library', root', hget', h⟩ := h
  rw [← hcover.1, hget] at hget'
  cases hget'
  rw [if_neg (by rw [hgone]; exact Bool.false_ne_true)] at h
  obtain ⟨m, hm, hlib, hreached⟩ := h
  obtain ⟨hmem, hmin⟩ := mem_pruneNested_iff.mp (removeVanished_mem_flushCalls.mp hm)
  have hmin := hmin k (mem_vanishedDirty.mpr ⟨hk, hkgone⟩)
  -- the root covers everything of its library
  obtain ⟨library', root', hmget, hpre⟩ := hroots m (mem_vanishedDirty.mp hmem).1
  rw [hlib, ← hcover.1, hget] at hmget
  cases hmget
  obtain rfl := hmin ⟨hcover.1.trans hlib.symm, hpre⟩
  rcases hreached with rfl | hin
  · exact hne rfl
  · exact hne (Prod.ext hcover.1 (inTree_of_root hcover.2 hin).symm)

/-- The calls of a flush work off what it has taken exactly if that hides nothing. -/
theorem forall_workedOff_iff (hroots : ∀ d ∈ taken, BeneathRoot roots d) :
    (∀ d ∈ taken, WorkedOff roots t (flushCalls t taken) d) ↔ Unhidden roots t taken := by
  constructor
  · intro h
    constructor
    · intro k hk d hd hcover hne hklive hlive
      exact foundBeneath_of_workedOff hk hklive hcover hne hlive (h d hd)
    · intro k hk d hd hcover hne hkgone hgone library root hget
      exact ne_root_of_workedOff hroots hk hkgone hcover hne hgone (h d hd) hget
  · intro h d hd
    cases hdir : t.isDir d.2 with
    | true => exact workedOff_live hd (hroots d hd) hdir h
    | false => exact workedOff_vanished hroots hd hdir h

theorem not_workedOff_nil (roots : List (Library × Path)) (t : FileTree) (d : Dirty) :
    ¬ WorkedOff roots t [] d := by
  rintro ⟨_, _, -, h⟩
  split at h
  · obtain ⟨k, hk, -⟩ := h
    cases hk
  · obtain ⟨k, hk, -⟩ := h
    cases hk

end WorkedOff

/-! ## The loop -/

/-- What a flush took, the tree that it found and the calls it made. -/
structure FlushRecord where
  taken : List Dirty
  tree : FileTree
  calls : List FlushCall

structure MaintenanceLoop where
  index : Index
  debounce : Debounce
  /-- What the flush under way has taken. -/
  flushing : Option (List Dirty)
  /-- The candidates recorded so far, each with the number of flushes finished before. -/
  recorded : List (Nat × Dirty)
  flushes : List FlushRecord

inductive LoopAction
  | event (event : Event) (now : Nat)
  | deadline (now : Nat)
  | flush (faults : Faults) (disk : Disk)
  | write (index : Index)

/-- The loop when it begins to wait. -/
def loopStart (quiet : Nat) (index : Index) : MaintenanceLoop := ⟨index, .new quiet, none, [], []⟩

section Loop
variable (decoders : Decoders) (roots : List (Library × Path))

inductive LoopStep : MaintenanceLoop → LoopAction → MaintenanceLoop → Prop
  /-- An event is received. -/
  | event {s : MaintenanceLoop} (event : Event) (now : Nat) (hidle : s.flushing = none) :
      LoopStep s (.event event now)
        { s with
          debounce := s.debounce.recordAll (dirtyDirectories event roots) now
          recorded := s.recorded ++
            (dirtyDirectories event roots).map fun d => (s.flushes.length, d) }
  /-- The deadline has passed: what is pending is handed to a flush. -/
  | deadline {s : MaintenanceLoop} {due : Nat} (now : Nat) (hidle : s.flushing = none)
      (hdeadline : s.debounce.deadline = some due) (hdue : due ≤ now) :
      LoopStep s (.deadline now)
        { s with debounce := s.debounce.take.2, flushing := some s.debounce.take.1 }
  /-- The flush, to its end. -/
  | flush {s : MaintenanceLoop} {taken : List Dirty} (faults : Faults) (disk : Disk)
      (hflushing : s.flushing = some taken) :
      LoopStep s (.flush faults disk)
        { s with
          index := Loku.flush decoders faults disk roots taken s.index
          flushing := none
          flushes := s.flushes ++ [⟨taken, disk.walk,
            if faults .currentGeneration then [] else flushCalls disk.walk taken⟩] }
  /-- The probe pass or another task writes to the index. -/
  | write {s : MaintenanceLoop} (index : Index) :
      LoopStep s (.write index) { s with index := index }

end Loop

/-- A candidate recorded before the flush of number `n` is pending under a deadline, in the flush
that is under way, or worked off by a flush since. -/
def Held (roots : List (Library × Path)) (s : MaintenanceLoop) (n : Nat) (d : Dirty) : Prop :=
  (d ∈ s.debounce.pending ∧ s.debounce.deadline.isSome = true) ∨
    (∃ taken ∈ s.flushing, d ∈ taken) ∨
      ∃ m f, n ≤ m ∧ s.flushes[m]? = some f ∧ d ∈ f.taken ∧ WorkedOff roots f.tree f.calls d

/-- No candidate is dropped, a deadline is set exactly when something is pending, and taking hands
over each pending candidate once. -/
structure NoneDropped (roots : List (Library × Path)) (s : MaintenanceLoop) : Prop where
  held : ∀ n d, (n, d) ∈ s.recorded → Held roots s n d
  deadline : s.debounce.deadline.isSome = true ↔ s.debounce.pending ≠ []
  once : ∀ d ∈ s.debounce.pending, s.debounce.take.1.count d = 1
  emptied : s.debounce.take.2.pending = [] ∧ s.debounce.take.2.deadline = none

/-- The action is no flush, or one that reads the scan generation and has taken nothing that hides
something else. -/
def LoopAction.Reaches (roots : List (Library × Path)) (s : MaintenanceLoop) : LoopAction → Prop
  | .flush faults disk => faults .currentGeneration = false ∧
      ∀ taken ∈ s.flushing, Unhidden roots disk.walk taken
  | _ => True

/-- What holds in every state: the candidates in hand were recorded since the last flush. -/
structure InHand (roots : List (Library × Path)) (s : MaintenanceLoop) : Prop where
  wellFormed : s.debounce.WellFormed
  recorded : ∀ n d, (n, d) ∈ s.recorded → n ≤ s.flushes.length ∧ BeneathRoot roots d
  pending : ∀ d ∈ s.debounce.pending, (s.flushes.length, d) ∈ s.recorded
  flushing : ∀ taken ∈ s.flushing, s.debounce.pending = [] ∧ taken ≠ [] ∧
    ∀ d ∈ taken, (s.flushes.length, d) ∈ s.recorded

section Steps
variable {decoders : Decoders} {roots : List (Library × Path)} {s s' : MaintenanceLoop}
  {a : LoopAction}

theorem InHand.step (h : InHand roots s) (hstep : LoopStep decoders roots s a s') :
    InHand roots s' := by
  cases hstep with
  | event event now hidle =>
    refine ⟨h.wellFormed.recordAll _ now, ?_, ?_, ?_⟩
    · intro n d hrecorded
      rcases List.mem_append.mp hrecorded with hrecorded | hnew
      · exact h.recorded n d hrecorded
      · obtain ⟨d', hd', heq⟩ := List.mem_map.mp hnew
        cases heq
        obtain ⟨-, path, -, -, -, howning⟩ := mem_dirtyDirectories_iff.mp hd'
        exact ⟨le_rfl, beneathRoot_of_owningRoot howning⟩
    · intro d hd
      rw [List.mem_append]
      rcases Debounce.mem_pending_recordAll.mp hd with hd | hd
      · exact Or.inl (h.pending d hd)
      · exact Or.inr (List.mem_map_of_mem hd)
    · intro taken htaken
      rw [hidle] at htaken
      cases htaken
  | deadline now hidle hdeadline hdue =>
    refine ⟨.take _, h.recorded, ?_, ?_⟩
    · intro d hd
      cases hd
    · intro taken htaken
      cases htaken
      have hne := h.wellFormed.deadline.mp (by rw [hdeadline]; rfl)
      exact ⟨rfl, hne, h.pending⟩
  | flush faults disk hflushing =>
    refine ⟨h.wellFormed, ?_, ?_, ?_⟩
    · intro n d hrecorded
      obtain ⟨hle, hroot⟩ := h.recorded n d hrecorded
      rw [List.length_append]
      exact ⟨by omega, hroot⟩
    · intro d hd
      rw [(h.flushing _ hflushing).1] at hd
      cases hd
    · intro taken htaken
      cases htaken
  | write index => exact ⟨h.wellFormed, h.recorded, h.pending, h.flushing⟩

theorem Held.pending (h : s.debounce.WellFormed) (n : Nat) {d : Dirty}
    (hd : d ∈ s.debounce.pending) : Held roots s n d :=
  Or.inl ⟨hd, h.deadline.mpr (List.ne_nil_of_mem hd)⟩

/-- What was worked off stays so. -/
theorem Held.flushed {n : Nat} {d : Dirty} {m : Nat} {f : FlushRecord} (hn : n ≤ m)
    (hf : s.flushes[m]? = some f) (hd : d ∈ f.taken)
    (hworked : WorkedOff roots f.tree f.calls d)
    (hsame : s'.flushes = s.flushes ∨ ∃ last, s'.flushes = s.flushes ++ [last]) :
    Held roots s' n d := by
  refine Or.inr (Or.inr ⟨m, f, hn, ?_, hd, hworked⟩)
  rcases hsame with hsame | ⟨last, hsame⟩
  · rwa [hsame]
  · have hlen : m < s.flushes.length := (List.getElem?_eq_some_iff.mp hf).1
    rwa [hsame, List.getElem?_append_left hlen]

theorem InHand.beneathRoot (h : InHand roots s) {taken : List Dirty}
    (hflushing : s.flushing = some taken) : ∀ d ∈ taken, BeneathRoot roots d := by
  obtain ⟨-, -, hrecorded⟩ := h.flushing taken hflushing
  exact fun d hd => (h.recorded _ d (hrecorded d hd)).2

/-- A flush that reads the generation works off what it has taken, if that hides nothing. -/
theorem Held.flush {taken : List Dirty} {faults : Faults} {disk : Disk} (h : InHand roots s)
    (hflushing : s.flushing = some taken)
    (hstep : LoopStep decoders roots s (.flush faults disk) s')
    (hreads : faults .currentGeneration = false) (hunhidden : Unhidden roots disk.walk taken)
    {n : Nat} {d : Dirty} (hmem : (n, d) ∈ s.recorded) (hheld : Held roots s n d) :
    Held roots s' n d := by
  cases hstep with
  | @flush taken' _ _ hflushing' =>
    cases hflushing.symm.trans hflushing'
    rcases hheld with ⟨hpending, -⟩ | ⟨taken', htaken, hd⟩ | ⟨m, f, hn, hf, hd, hworked⟩
    · rw [(h.flushing taken hflushing).1] at hpending
      cases hpending
    · cases hflushing.symm.trans htaken
      refine Or.inr (Or.inr ⟨s.flushes.length, ⟨taken, disk.walk, flushCalls disk.walk taken⟩,
        (h.recorded n d hmem).1, ?_, hd,
        (forall_workedOff_iff (h.beneathRoot hflushing)).mpr hunhidden d hd⟩)
      simp [hreads]
    · exact .flushed hn hf hd hworked (Or.inr ⟨_, rfl⟩)

/-- What a flush has taken is held after it only if its calls have worked it off. -/
theorem workedOff_of_held {taken : List Dirty} {faults : Faults} {disk : Disk}
    (h : InHand roots s) (hflushing : s.flushing = some taken)
    (hstep : LoopStep decoders roots s (.flush faults disk) s')
    (hheld : ∀ n d, (n, d) ∈ s'.recorded → Held roots s' n d) : ∀ d ∈ taken,
      WorkedOff roots disk.walk
        (if faults .currentGeneration then [] else flushCalls disk.walk taken) d := by
  intro d hd
  cases hstep with
  | @flush taken' _ _ hflushing' =>
    cases hflushing.symm.trans hflushing'
    obtain ⟨hnil, -, hrecorded⟩ := h.flushing taken hflushing
    rcases hheld _ d (hrecorded d hd) with ⟨hpending, -⟩ | ⟨taken', htaken, -⟩ |
      ⟨m, f, hm, hf, -, hworked⟩
    · have hpending' : d ∈ s.debounce.pending := hpending
      rw [hnil] at hpending'
      cases hpending'
    · cases htaken
    · -- no flush has come after it
      have hlast : (s.flushes ++ [⟨taken, disk.walk,
          if faults .currentGeneration then [] else flushCalls disk.walk taken⟩])[m]? = some f := hf
      obtain ⟨hlt, -⟩ := List.getElem?_eq_some_iff.mp hlast
      rw [List.length_append, List.length_singleton] at hlt
      have hm' : m = s.flushes.length := by omega
      rw [hm', List.getElem?_concat_length] at hlast
      cases hlast
      exact hworked

/-- A step keeps all candidates, but for a flush that cannot read the generation or has taken
something that hides something else. -/
theorem held_step_iff (h : InHand roots s)
    (hheld : ∀ n d, (n, d) ∈ s.recorded → Held roots s n d)
    (hstep : LoopStep decoders roots s a s') :
    (∀ n d, (n, d) ∈ s'.recorded → Held roots s' n d) ↔ a.Reaches roots s := by
  cases hstep with
  | event event now hidle =>
    refine ⟨fun _ => trivial, fun _ n d hrecorded => ?_⟩
    have hwell := h.wellFormed.recordAll (dirtyDirectories event roots) now
    rcases List.mem_append.mp hrecorded with hrecorded | hnew
    · rcases hheld n d hrecorded with ⟨hpending, -⟩ | hflushing | ⟨m, f, hn, hf, hd, hworked⟩
      · exact .pending hwell n (Debounce.mem_pending_recordAll.mpr (Or.inl hpending))
      · exact Or.inr (Or.inl hflushing)
      · exact .flushed hn hf hd hworked (Or.inl rfl)
    · obtain ⟨d', hd', heq⟩ := List.mem_map.mp hnew
      cases heq
      exact .pending hwell _ (Debounce.mem_pending_recordAll.mpr (Or.inr hd'))
  | deadline now hidle hdeadline hdue =>
    refine ⟨fun _ => trivial, fun _ n d hrecorded => ?_⟩
    rcases hheld n d hrecorded with ⟨hpending, -⟩ | ⟨taken, htaken, -⟩ | ⟨m, f, hn, hf, hd, hworked⟩
    · exact Or.inr (Or.inl ⟨_, rfl, hpending⟩)
    · rw [hidle] at htaken
      cases htaken
    · exact .flushed hn hf hd hworked (Or.inl rfl)
  | @flush taken faults disk hflushing =>
    have hstep : LoopStep decoders roots s (.flush faults disk) _ := .flush faults disk hflushing
    constructor
    · intro hall
      have hworked := workedOff_of_held h hflushing hstep hall
      have hreads : faults .currentGeneration = false := by
        by_contra hfails
        rw [Bool.not_eq_false] at hfails
        obtain ⟨-, hne, -⟩ := h.flushing taken hflushing
        obtain ⟨d, hd⟩ := List.exists_mem_of_ne_nil taken hne
        have hnone := hworked d hd
        rw [if_pos hfails] at hnone
        exact not_workedOff_nil _ _ d hnone
      rw [if_neg (by simp [hreads])] at hworked
      refine ⟨hreads, fun taken' htaken => ?_⟩
      cases hflushing.symm.trans htaken
      exact (forall_workedOff_iff (h.beneathRoot hflushing)).mp hworked
    · rintro ⟨hreads, hunhidden⟩ n d hmem
      exact .flush h hflushing hstep hreads (hunhidden taken hflushing) hmem (hheld n d hmem)
  | write index =>
    refine ⟨fun _ => trivial, fun _ n d hrecorded => ?_⟩
    exact hheld n d hrecorded

theorem noneDropped_iff_held (h : InHand roots s) :
    NoneDropped roots s ↔ ∀ n d, (n, d) ∈ s.recorded → Held roots s n d := by
  refine ⟨NoneDropped.held, fun hheld => ⟨hheld, h.wellFormed.deadline, ?_, rfl, rfl⟩⟩
  intro d hd
  exact List.count_eq_one_of_mem h.wellFormed.nodup hd

theorem inHand_loopStart (roots : List (Library × Path)) (quiet : Nat) (index : Index) :
    InHand roots (loopStart quiet index) where
  wellFormed := Debounce.wellFormed_new quiet
  recorded n d h := absurd h List.not_mem_nil
  pending d h := absurd h List.not_mem_nil
  flushing taken h := by cases h

end Steps

/-! ## Runs of the loop -/

/-- No candidate is dropped all along a run exactly when every flush of it can read the scan
generation and has taken nothing that hides something else. -/
theorem noneDropped_iff {decoders : Decoders} {roots : List (Library × Path)} {quiet : Nat}
    {index : Index} {actions : List LoopAction} {s : MaintenanceLoop} :
    (∀ middle, Lib.Run.Passes (LoopStep decoders roots) (loopStart quiet index) actions s middle →
      NoneDropped roots middle) ↔
    ∀ middle a, Lib.Run.Takes (LoopStep decoders roots) (loopStart quiet index) actions s middle a →
      a.Reaches roots middle := by
  refine Lib.Run.forall_passes_iff (J := InHand roots) (fun s a s' h hstep => h.step hstep) ?_
    (inHand_loopStart roots quiet index) ?_
  · intro s a s' h hkept hstep
    rw [noneDropped_iff_held (h.step hstep)]
    exact held_step_iff h hkept.held hstep
  · rw [noneDropped_iff_held (inHand_loopStart roots quiet index)]
    intro n d hrecorded
    cases hrecorded

/-! ## A flush that cannot read the generation -/

namespace LostCandidates

open OneVideo (lib movie tree library decoders)

def roots : List (Library × Path) := [(library, [lib])]

/-- The database refuses to read the generation. -/
def faults : Faults := fun call => call == .currentGeneration

def actions : List LoopAction :=
  [.event ⟨.create, [[lib, movie]]⟩ 0, .deadline 2, .flush faults (.still tree)]

def stop : MaintenanceLoop where
  index := .openInMemory
  debounce := ⟨2, [], none⟩
  flushing := none
  recorded := [(0, (0, [lib, movie])), (0, (0, [lib]))]
  flushes := [⟨[(0, [lib]), (0, [lib, movie])], tree, []⟩]

theorem run_stop :
    Lib.Run (LoopStep decoders roots) (loopStart 2 .openInMemory) actions stop :=
  .cons (.event _ 0 rfl) (.cons (.deadline 2 rfl rfl (by decide))
    (.cons (.flush faults (.still tree) rfl) (.nil _)))

/-- The new video and its directory are neither pending nor worked off. -/
theorem candidates_dropped :
    ¬ ∀ (decoders : Decoders) (roots : List (Library × Path)) (quiet : Nat) (index : Index)
      (actions : List LoopAction) (s : MaintenanceLoop),
      Lib.Run (LoopStep decoders roots) (loopStart quiet index) actions s →
      NoneDropped roots s := by
  intro h
  have hheld := (h decoders roots 2 .openInMemory actions stop run_stop).held 0 (0, [lib])
    (List.mem_cons_of_mem _ List.mem_cons_self)
  rcases hheld with ⟨hpending, -⟩ | ⟨taken, htaken, -⟩ | ⟨m, f, -, hf, -, hworked⟩
  · cases hpending
  · cases htaken
  · have hflush := List.mem_of_getElem? hf
    rw [List.mem_singleton.mp hflush] at hworked
    exact not_workedOff_nil _ _ _ hworked

end LostCandidates

end Loku
