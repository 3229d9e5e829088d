import Loku.System.Maintenance

/-!
# Undisturbed runs of the maintenance task

With nothing in between, the steps of the maintenance task do what the functions say: from the
start they are `scanLibrary` (`run_scan`), and from a passed deadline they are `flush`
(`run_flush`), both on a disk that does not change.
-/

namespace Loku

section Undisturbed
variable {decoders : Decoders} {library : Library} {root : Path}

/-- Working off the directories of the scan. -/
theorem run_scanDirectories : ∀ (todo : List Path) (s : WatchSystem) (stats stats' : ScanStats)
    (index : Index), s.maintenance = .collect todo .scan →
    s.tree.canonicalize library.path = some root →
    scanDirectories decoders Faults.none (.still s.tree) library root s.generation todo s.index
      stats = (index, .ok stats') →
    ∃ actions, Lib.Run (WatchStep decoders library root) s actions
      { s with index := index, maintenance := .collect [] .scan }
  | [], s, stats, stats', index, hphase, _, hok => by
    cases hok
    refine ⟨[], ?_⟩
    have hs : ({ s with index := s.index, maintenance := .collect [] .scan } : WatchSystem) =
        s := by
      rw [← hphase]
    rw [hs]
    exact .nil s
  | dir :: todo, s, stats, stats', index, hphase, hroot, hok => by
    unfold scanDirectories at hok
    dsimp only at hok
    split at hok
    · cases hok
    · rename_i index₁ hcall
      obtain ⟨-, hreconcile⟩ := callIndex_ok_iff.mp hcall
      obtain ⟨actions, hrun⟩ := run_scanDirectories todo
        { s with index := index₁, maintenance := .collect todo .scan } _ _ _ rfl hroot hok
      exact ⟨_, .cons (.collect hphase hroot) (.cons (.reconcile rfl hreconcile) hrun)⟩

/-- With nothing in between, the scan's steps are `scanLibrary`. -/
theorem run_scan {s : WatchSystem} {started index : Index} {generation : Int} {stats : ScanStats}
    (hphase : s.maintenance = .start) (hroot : s.tree.canonicalize library.path = some root)
    (hgeneration : s.index.nextGeneration = (started, generation))
    (hok : scanLibrary decoders Faults.none (.still s.tree) library generation started =
      (index, .ok stats)) :
    ∃ actions, Lib.Run (WatchStep decoders library root) s actions
      { s with index := index, generation := generation, maintenance := .idle } := by
  have hcanonical : (Disk.still s.tree).walk.canonicalize library.path = some root := hroot
  unfold scanLibrary at hok
  rw [hcanonical] at hok
  dsimp only at hok
  split at hok
  · cases hok
  · rename_i scanned stats' hscan
    obtain ⟨actions, hrun⟩ := run_scanDirectories _
      { s with
        index := started
        generation := generation
        maintenance := .collect (s.tree.walkDir root) .scan } _ _ _ rfl hroot hscan
    rw [if_neg (by simp [Faults.none])] at hok
    cases hok
    exact ⟨_, .cons (.nextGeneration hphase hgeneration) (.cons (.walkRoot rfl)
      (hrun.append (.single (.sweep rfl))))⟩

variable (decoders library root) in
theorem run_removeTrees : ∀ (vanished live : List Dirty) (s : WatchSystem),
    s.maintenance = .remove vanished live →
    ∃ actions, Lib.Run (WatchStep decoders library root) s actions
      { s with
        index := vanished.foldl (removeVanished Faults.none [(library, root)]) s.index
        maintenance := .collect [] (.flush live) }
  | [], live, s, hphase => ⟨_, .single (.removed hphase)⟩
  | v :: vanished, live, s, hphase => by
    obtain ⟨actions, hrun⟩ := run_removeTrees vanished live
      { s with
        index := removeVanished Faults.none [(library, root)] s.index v
        maintenance := .remove vanished live } rfl
    exact ⟨_, .cons (.removeTree hphase) hrun⟩

variable (decoders) in
/-- Working off the directories beneath one live directory. -/
theorem run_reconcileOrSkip : ∀ (todo : List Path) (live : List Dirty) (s : WatchSystem),
    s.maintenance = .collect todo (.flush live) →
    s.tree.canonicalize library.path = some root → (∀ dir ∈ todo, Fits s.tree dir) →
    ∃ actions, Lib.Run (WatchStep decoders library root) s actions
      { s with
        index := todo.foldl
          (reconcileOrSkip decoders Faults.none (.still s.tree) library s.generation) s.index
        maintenance := .collect [] (.flush live) }
  | [], live, s, hphase, _, _ => by
    refine ⟨[], ?_⟩
    rw [List.foldl_nil, ← hphase]
    exact .nil s
  | dir :: todo, live, s, hphase, hroot, hfits => by
    obtain ⟨index, hok⟩ := (fits_iff decoders library root s.generation s.index).mp
      (hfits dir List.mem_cons_self)
    obtain ⟨actions, hrun⟩ := run_reconcileOrSkip todo live
      { s with index := index, maintenance := .collect todo (.flush live) } rfl hroot
      fun d hd => hfits d (List.mem_cons_of_mem _ hd)
    rw [List.foldl_cons, reconcileOrSkip_of_ok hroot hok]
    exact ⟨_, .cons (.collect hphase hroot) (.cons (.reconcile rfl hok) hrun)⟩

variable (decoders) in
theorem run_reconcileLive : ∀ (live : List Dirty) (s : WatchSystem),
    s.maintenance = .collect [] (.flush live) →
    s.tree.canonicalize library.path = some root → (∀ d ∈ live, d.1 = 0) →
    (∀ d ∈ live, ∀ dir ∈ s.tree.walkDir d.2, Fits s.tree dir) →
    ∃ actions, Lib.Run (WatchStep decoders library root) s actions
      { s with
        index := live.foldl (reconcileLive decoders Faults.none (.still s.tree) [(library, root)]
          s.generation) s.index
        maintenance := .idle }
  | [], s, hphase, _, _, _ => ⟨_, .single (.flushed hphase)⟩
  | d :: live, s, hphase, hroot, hfirst, hfits => by
    have hd := hfirst d List.mem_cons_self
    obtain ⟨actions, hrun⟩ := run_reconcileOrSkip decoders (s.tree.walkDir d.2) live
      { s with maintenance := .collect (s.tree.walkDir d.2) (.flush live) } rfl hroot
      (hfits d List.mem_cons_self)
    obtain ⟨actions', hrun'⟩ := run_reconcileLive live
      { s with
        index := (s.tree.walkDir d.2).foldl
          (reconcileOrSkip decoders Faults.none (.still s.tree) library s.generation) s.index
        maintenance := .collect [] (.flush live) } rfl hroot
      (fun e he => hfirst e (List.mem_cons_of_mem _ he))
      fun e he => hfits e (List.mem_cons_of_mem _ he)
    have hstep : reconcileLive decoders Faults.none (.still s.tree) [(library, root)] s.generation
        s.index d = (s.tree.walkDir d.2).foldl
          (reconcileOrSkip decoders Faults.none (.still s.tree) library s.generation) s.index := by
      unfold reconcileLive
      rw [hd]
      rfl
    rw [List.foldl_cons, hstep]
    exact ⟨_, .cons (.walkLive hphase (by rw [hd]; rfl)) (hrun.append hrun')⟩

/-- With nothing in between, the steps of a flush are `flush`. -/
theorem run_flush {s : WatchSystem} {deadline : Nat} (hphase : s.maintenance = .idle)
    (hdeadline : s.debounce.deadline = some deadline)
    (hroot : s.tree.canonicalize library.path = some root)
    (hfirst : ∀ d ∈ s.debounce.pending, d.1 = 0)
    (hfits : ∀ d ∈ s.debounce.pending, ∀ dir ∈ s.tree.walkDir d.2, Fits s.tree dir) :
    ∃ actions, Lib.Run (WatchStep decoders library root) s actions
      { s with
        index := flush decoders Faults.none (.still s.tree) [(library, root)] s.debounce.pending
          s.index
        generation := s.index.currentGeneration
        debounce := s.debounce.take.2 } := by
  have hlive : ∀ d ∈ pruneNested (liveDirty s.tree s.debounce.pending), d ∈ s.debounce.pending :=
    fun d hd => (List.mem_filter.mp (mem_of_mem_pruneNested hd)).1
  obtain ⟨actions, hrun⟩ := run_removeTrees decoders library root
    (pruneNested (vanishedDirty s.tree s.debounce.pending))
    (pruneNested (liveDirty s.tree s.debounce.pending))
    { s with
      generation := s.index.currentGeneration
      debounce := s.debounce.take.2
      maintenance := .remove (pruneNested (vanishedDirty s.tree s.debounce.pending))
        (pruneNested (liveDirty s.tree s.debounce.pending)) } rfl
  obtain ⟨actions', hrun'⟩ := run_reconcileLive decoders
    (pruneNested (liveDirty s.tree s.debounce.pending))
    { s with
      index := (pruneNested (vanishedDirty s.tree s.debounce.pending)).foldl
        (removeVanished Faults.none [(library, root)]) s.index
      generation := s.index.currentGeneration
      debounce := s.debounce.take.2
      maintenance := .collect [] (.flush (pruneNested (liveDirty s.tree s.debounce.pending))) }
    rfl hroot (fun d hd => hfirst d (hlive d hd)) fun d hd => hfits d (hlive d hd)
  refine ⟨.flush :: (actions ++ actions'), .cons (.flush hphase hdeadline) (hrun.append ?_)⟩
  rw [hphase]
  exact hrun'

end Undisturbed
end Loku
