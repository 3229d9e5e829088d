import Loku.Index.DirectoryRows
import Loku.Index.FlushSpec
import Mathlib.Data.String.Basic

/-!
# Which directories a flush writes to

`flushUpserts` are the rows that a flush inserts or updates, each with the directory it was
collected from; every row after the flush is one of these or was there before
(`row_of_flush`). A scan never goes through a link. A flush starts its walks at the dirty
directories, and whether one lies in a library is decided by its text: so its rows stay inside
the boundary of the scan exactly when no live directory that is reached through a link, and that
no other one covers, has a master in its walk (`flush_inside_iff`).
-/

namespace Loku

/-! ## Pruning keeps the directories that no other covers -/

theorem pathLe_total : ∀ p q : Path, pathLe p q = true ∨ pathLe q p = true
  | [], _ => Or.inl rfl
  | _ :: _, [] => Or.inr rfl
  | c :: p, d :: q => by
    unfold pathLe
    by_cases h : c = d
    · rw [if_pos h, if_pos h.symm]
      exact pathLe_total p q
    · rw [if_neg h, if_neg (Ne.symm h), decide_eq_true_iff, decide_eq_true_iff]
      exact le_total c.text d.text

theorem pathLe_of_prefix : ∀ p q : Path, p <+: q → pathLe p q = true
  | [], _, _ => rfl
  | _ :: _, [], h => absurd (List.prefix_nil.mp h) (List.cons_ne_nil _ _)
  | c :: p, d :: q, h => by
    rw [List.cons_prefix_cons] at h
    obtain ⟨rfl, h⟩ := h
    unfold pathLe
    rw [if_pos rfl]
    exact pathLe_of_prefix p q h

theorem pathLe_trans : ∀ p q r : Path, pathLe p q = true → pathLe q r = true → pathLe p r = true
  | [], _, _, _, _ => rfl
  | _ :: _, [], _, h, _ => by cases h
  | _ :: _, _ :: _, [], _, h => by cases h
  | c :: p, d :: q, e :: r, h, h' => by
    unfold pathLe at h h' ⊢
    by_cases hcd : c = d
    · subst hcd
      rw [if_pos rfl] at h
      split at h'
      · rename_i hce
        rw [if_pos hce]
        exact pathLe_trans p q r h h'
      · rename_i hce
        rwa [if_neg hce]
    · rw [if_neg hcd, decide_eq_true_iff] at h
      by_cases hde : d = e
      · subst hde
        rw [if_neg hcd, decide_eq_true_iff]
        exact h
      · rw [if_neg hde, decide_eq_true_iff] at h'
        have hce : c ≠ e := by
          rintro rfl
          exact hcd (FileName.ext (le_antisymm h h'))
        rw [if_neg hce, decide_eq_true_iff]
        exact h.trans h'

/-- What lies between a path and one beneath it lies beneath it. -/
theorem pathLe_convex : ∀ p q r : Path, pathLe p q = true → pathLe q r = true → p <+: r → p <+: q
  | [], _, _, _, _, _ => List.nil_prefix
  | _ :: _, [], _, h, _, _ => by cases h
  | _ :: _, _ :: _, [], _, h, _ => by cases h
  | c :: p, d :: q, e :: r, h, h', hpre => by
    rw [List.cons_prefix_cons] at hpre ⊢
    obtain ⟨rfl, hpre⟩ := hpre
    unfold pathLe at h h'
    by_cases hcd : c = d
    · subst hcd
      rw [if_pos rfl] at h h'
      exact ⟨rfl, pathLe_convex p q r h h' hpre⟩
    · rw [if_neg hcd, decide_eq_true_iff] at h
      rw [if_neg (Ne.symm hcd), decide_eq_true_iff] at h'
      exact absurd (FileName.ext (le_antisymm h h')) hcd

theorem dirtyLe_iff {a b : Dirty} :
    dirtyLe a b = true ↔ a.1 < b.1 ∨ (a.1 = b.1 ∧ pathLe a.2 b.2 = true) := by
  unfold dirtyLe
  split
  · rename_i h
    simp [h]
  · rename_i h
    simp [h]

instance : Std.Total fun a b : Dirty => dirtyLe a b = true where
  total a b := by
    simp only [dirtyLe_iff]
    rcases lt_trichotomy a.1 b.1 with h | h | h
    · exact Or.inl (Or.inl h)
    · rcases pathLe_total a.2 b.2 with hle | hle
      · exact Or.inl (Or.inr ⟨h, hle⟩)
      · exact Or.inr (Or.inr ⟨h.symm, hle⟩)
    · exact Or.inr (Or.inl h)

instance : IsTrans Dirty fun a b => dirtyLe a b = true where
  trans a b c hab hbc := by
    rw [dirtyLe_iff] at hab hbc ⊢
    rcases hab with hab | ⟨hab, hle⟩
    · left
      omega
    · rcases hbc with hbc | ⟨hbc, hle'⟩
      · left
        omega
      · exact Or.inr ⟨hab.trans hbc, pathLe_trans _ _ _ hle hle'⟩

theorem Covers.trans {a b c : Dirty} (h : Covers a b) (h' : Covers b c) : Covers a c :=
  ⟨h.1.trans h'.1, h.2.trans h'.2⟩

theorem Covers.antisymm {a b : Dirty} (h : Covers a b) (h' : Covers b a) : a = b :=
  Prod.ext h.1 (h.2.eq_of_length_le h'.2.length_le)

theorem Covers.convex {a b c : Dirty} (hab : dirtyLe a b = true) (hbc : dirtyLe b c = true)
    (h : Covers a c) : Covers a b := by
  obtain ⟨hlib, hpre⟩ := h
  rw [dirtyLe_iff] at hab hbc
  have hlib' : a.1 = b.1 := by omega
  have hle : pathLe a.2 b.2 = true := (hab.resolve_left (by omega)).2
  have hle' : pathLe b.2 c.2 = true := (hbc.resolve_left (by omega)).2
  exact ⟨hlib', pathLe_convex _ _ _ hle hle' hpre⟩

theorem dedup_sublist : ∀ ds : List Dirty, (dedup ds).Sublist ds
  | [] => List.Sublist.refl _
  | [_] => List.Sublist.refl _
  | a :: b :: rest => by
    unfold dedup
    split
    · exact (dedup_sublist (b :: rest)).cons _
    · exact (dedup_sublist (b :: rest)).cons_cons a

/-- The order of the candidates puts what a directory covers directly after it. -/
theorem covering : Lib.Covering (fun a b : Dirty => dirtyLe a b = true) Covers where
  refl := Covers.refl
  trans := Covers.trans
  antisymm := Covers.antisymm
  le_of_covers h := dirtyLe_iff.mpr (Or.inr ⟨h.1, pathLe_of_prefix _ _ h.2⟩)
  convex := Covers.convex

theorem candidates_sorted (ds : List Dirty) :
    (dedup (ds.insertionSort fun a b => dirtyLe a b)).Pairwise fun a b => dirtyLe a b = true :=
  (List.pairwise_insertionSort (fun a b : Dirty => dirtyLe a b = true) ds).sublist
    (dedup_sublist _)

theorem eq_of_covers_of_mem_pruneNested {ds : List Dirty} {k d : Dirty} (hk : k ∈ pruneNested ds)
    (hd : d ∈ pruneNested ds) (h : Covers k d) : k = d := by
  rw [pruneNested_eq] at hk hd
  exact covering.eq_of_covers (candidates_sorted ds) hk hd h

theorem pruneNested_nodup (ds : List Dirty) : (pruneNested ds).Nodup := by
  rw [pruneNested_eq]
  exact covering.uncovered_nodup (candidates_sorted ds)

/-- Pruning leaves a minimal cover: some of the candidates, none of them twice and none beneath
another, so that every candidate lies at or beneath one of them. -/
theorem pruneNested_minimal_cover (dirty : List Dirty) :
    (pruneNested dirty).Nodup ∧ (∀ k ∈ pruneNested dirty, k ∈ dirty) ∧
      (∀ k ∈ pruneNested dirty, ∀ d ∈ pruneNested dirty, Covers k d → k = d) ∧
      ∀ d ∈ dirty, ∃ k ∈ pruneNested dirty, Covers k d := by
  refine ⟨pruneNested_nodup dirty, fun _ => mem_of_mem_pruneNested, ?_, ?_⟩
  · intro k hk d hd
    exact eq_of_covers_of_mem_pruneNested hk hd
  · intro d hd
    exact exists_pruneNested hd

/-- Pruning keeps exactly the directories that no other one covers. -/
theorem mem_pruneNested_iff {ds : List Dirty} {d : Dirty} :
    d ∈ pruneNested ds ↔ d ∈ ds ∧ ∀ k ∈ ds, Covers k d → k = d := by
  rw [pruneNested_eq, covering.mem_uncovered_iff (candidates_sorted ds)]
  simp only [mem_sorted]

/-! ## The rows that a flush writes -/

/-- A row that a reconcile inserts or updates, and the directory it is collected from. -/
structure Upsert where
  library : Library
  dir : Path
  record : VideoRecord

section Upserts
variable (decoders : Decoders) (faults : Faults) (disk : Disk)

/-- The rows of one reconcile, if it goes through. -/
def reconcileUpserts (library : Library) (generation : Int) (index : Index) (dir : Path) :
    List Upsert :=
  match reconcileDirectory decoders faults disk library generation dir index,
    disk.walk.canonicalize library.path with
  | .ok _, some root =>
    (collectDirectory decoders (disk.collect dir) library root dir).map (⟨library, dir, ·⟩)
  | _, _ => []

/-- A fold's step beside the rows that it writes. -/
def logged {α : Type} (step : Index → α → Index) (upserts : Index → α → List Upsert)
    (acc : Index × List Upsert) (a : α) : Index × List Upsert :=
  (step acc.1 a, acc.2 ++ upserts acc.1 a)

def liveUpserts (roots : List (Library × Path)) (generation : Int) (index : Index)
    (live : Dirty) : List Upsert :=
  match roots[live.1]? with
  | none => []
  | some (library, _) =>
    ((disk.walk.walkDir live.2).foldl
      (logged (reconcileOrSkip decoders faults disk library generation)
        (reconcileUpserts decoders faults disk library generation)) (index, [])).2

/-- The rows of a flush, in the order of its calls. -/
def flushUpserts (roots : List (Library × Path)) (dirty : List Dirty) (index : Index) :
    List Upsert :=
  if faults .currentGeneration then []
  else
    let generation := index.currentGeneration
    let removed := (pruneNested (vanishedDirty disk.walk dirty)).foldl
      (removeVanished faults roots) index
    ((pruneNested (liveDirty disk.walk dirty)).foldl
      (logged (reconcileLive decoders faults disk roots generation)
        (liveUpserts decoders faults disk roots generation)) (removed, [])).2

end Upserts

section Logged
variable {α : Type} {step : Index → α → Index} {upserts : Index → α → List Upsert}

theorem foldl_logged_fst (as : List α) (acc : Index × List Upsert) :
    (as.foldl (logged step upserts) acc).1 = as.foldl step acc.1 := by
  induction as generalizing acc with
  | nil => rfl
  | cons a as ih => exact ih _

/-- When what a step writes does not depend on the index, the log has it for every element. -/
theorem mem_foldl_logged {writes : α → Upsert → Prop}
    (hupserts : ∀ index a u, u ∈ upserts index a ↔ writes a u) {u : Upsert} (as : List α)
    (acc : Index × List Upsert) :
    u ∈ (as.foldl (logged step upserts) acc).2 ↔ u ∈ acc.2 ∨ ∃ a ∈ as, writes a u := by
  induction as generalizing acc with
  | nil => simp
  | cons a as ih =>
    rw [List.foldl_cons, ih]
    unfold logged
    dsimp only
    rw [List.mem_append, hupserts, or_assoc]
    simp only [List.mem_cons, exists_eq_or_imp]

/-- A row that the fold leaves was there before or has the key of a logged one. -/
theorem row_of_foldl_logged
    (hstep : ∀ (index : Index) a r, r ∈ (step index a).videos →
      r ∈ index.videos ∨ ∃ u ∈ upserts index a, u.record.key = r.key) {r : Row} (as : List α)
    (acc : Index × List Upsert) (h : r ∈ (as.foldl step acc.1).videos) :
    r ∈ acc.1.videos ∨ ∃ u ∈ (as.foldl (logged step upserts) acc).2, u.record.key = r.key := by
  induction as using List.reverseRecOn with
  | nil => exact Or.inl h
  | append_singleton as a ih =>
    rw [List.foldl_concat] at h ⊢
    have hlog : (logged step upserts (as.foldl (logged step upserts) acc) a).2 =
        (as.foldl (logged step upserts) acc).2 ++ upserts (as.foldl step acc.1) a := by
      have hfst : (as.foldl (logged step upserts) acc).1 = as.foldl step acc.1 :=
        foldl_logged_fst as acc
      rw [← hfst]
      rfl
    rw [hlog]
    rcases hstep _ _ _ h with h | ⟨u, hu, hkey⟩
    · rcases ih h with h | ⟨u, hu, hkey⟩
      · exact Or.inl h
      · exact Or.inr ⟨u, List.mem_append_left _ hu, hkey⟩
    · exact Or.inr ⟨u, List.mem_append_right _ hu, hkey⟩

end Logged

/-- The call for a directory reaches the database and fits its limit on parameters. -/
def Accepted (faults : Faults) (disk : Disk) (library : Library) (root dir : Path) : Prop :=
  faults (.reconcileDirectory library.name (relativeOf dir root)) = false ∧
    Fits (disk.collect dir) dir

/-- The reconcile of a directory goes through and writes the row. -/
def Upsert.From (u : Upsert) (decoders : Decoders) (faults : Faults) (disk : Disk)
    (library : Library) (dir : Path) : Prop :=
  u.library = library ∧ u.dir = dir ∧ ∃ root, disk.walk.canonicalize library.path = some root ∧
    Accepted faults disk library root dir ∧
    u.record ∈ collectDirectory decoders (disk.collect dir) library root dir

section Spec
variable {decoders : Decoders} {faults : Faults} {disk : Disk} {generation : Int} {index : Index}
  {library : Library} {dir : Path} {roots : List (Library × Path)} {u : Upsert}

theorem reconcileDirectory_ok_iff {root : Path}
    (hroot : disk.walk.canonicalize library.path = some root) :
    (∃ index', reconcileDirectory decoders faults disk library generation dir index =
      .ok index') ↔ Accepted faults disk library root dir := by
  unfold reconcileDirectory
  rw [hroot]
  simp only [callIndex_ok_iff, exists_and_left, Accepted]
  rw [fits_iff decoders library root generation index]

theorem mem_reconcileUpserts :
    u ∈ reconcileUpserts decoders faults disk library generation index dir ↔
      u.From decoders faults disk library dir := by
  unfold reconcileUpserts Upsert.From
  cases hroot : disk.walk.canonicalize library.path with
  | none =>
    simp only [reduceCtorEq, false_and, exists_false, and_false, iff_false]
    split
    · simp_all
    · exact List.not_mem_nil
  | some root =>
    have hok : (∃ index', reconcileDirectory decoders faults disk library generation dir index =
        .ok index') ↔ Accepted faults disk library root dir := reconcileDirectory_ok_iff hroot
    simp only [Option.some.injEq, exists_eq_left', ← hok]
    cases hcall : reconcileDirectory decoders faults disk library generation dir index with
    | error e => simp
    | ok index' =>
      simp only [List.mem_map, Except.ok.injEq, exists_eq', true_and]
      constructor
      · rintro ⟨record, hrecord, rfl⟩
        exact ⟨rfl, rfl, hrecord⟩
      · rintro ⟨rfl, rfl, hrecord⟩
        exact ⟨u.record, hrecord, rfl⟩

theorem mem_liveUpserts {live : Dirty} :
    u ∈ liveUpserts decoders faults disk roots generation index live ↔
      ∃ library root, roots[live.1]? = some (library, root) ∧
        ∃ dir ∈ disk.walk.walkDir live.2, u.From decoders faults disk library dir := by
  unfold liveUpserts
  cases hroots : roots[live.1]? with
  | none => simp
  | some r =>
    obtain ⟨library, root⟩ := r
    have hlog : ∀ i dir u, u ∈ reconcileUpserts decoders faults disk library generation i dir ↔
        u.From decoders faults disk library dir := fun _ _ _ => mem_reconcileUpserts
    dsimp only
    rw [mem_foldl_logged hlog]
    simp only [List.not_mem_nil, false_or, Option.some.injEq, Prod.mk.injEq]
    constructor
    · intro h
      exact ⟨library, root, ⟨rfl, rfl⟩, h⟩
    · rintro ⟨_, _, ⟨rfl, rfl⟩, h⟩
      exact h

/-- The rows of a flush are collected in the walks from the live directories that no other live
one covers. -/
theorem mem_flushUpserts {dirty : List Dirty} :
    u ∈ flushUpserts decoders faults disk roots dirty index ↔
      faults .currentGeneration = false ∧ ∃ live ∈ liveDirty disk.walk dirty,
        (∀ k ∈ liveDirty disk.walk dirty, Covers k live → k = live) ∧
        ∃ library root, roots[live.1]? = some (library, root) ∧
          ∃ dir ∈ disk.walk.walkDir live.2, u.From decoders faults disk library dir := by
  unfold flushUpserts
  by_cases hfault : faults .currentGeneration = true
  · simp [hfault]
  · have hlog : ∀ i live u,
        u ∈ liveUpserts decoders faults disk roots index.currentGeneration i live ↔
          ∃ library root, roots[live.1]? = some (library, root) ∧
            ∃ dir ∈ disk.walk.walkDir live.2, u.From decoders faults disk library dir :=
      fun _ _ _ => mem_liveUpserts
    rw [if_neg hfault]
    dsimp only
    rw [mem_foldl_logged hlog]
    simp only [List.not_mem_nil, false_or, mem_pruneNested_iff, and_assoc, hfault, true_and]

theorem key_of_mem_foldl_upsertRecord {r : Row} :
    ∀ (records : List VideoRecord) (videos : Lib.Table Row.key),
      r ∈ records.foldl (Index.upsertRecord generation) videos →
      r ∈ videos ∨ ∃ record ∈ records, record.key = r.key
  | [], _, h => Or.inl h
  | record :: records, videos, h => by
    rcases key_of_mem_foldl_upsertRecord records _ h with h | ⟨record', hrecord', hkey⟩
    · rcases Lib.Table.mem_upsert.mp h with ⟨h, -⟩ | rfl
      · exact Or.inl h
      · refine Or.inr ⟨record, List.mem_cons_self, ?_⟩
        symm
        apply Lib.Table.key_upserted
        exact fun _ => rfl
    · exact Or.inr ⟨record', List.mem_cons_of_mem _ hrecord', hkey⟩

theorem row_of_reconcileOrSkip {r : Row}
    (h : r ∈ (reconcileOrSkip decoders faults disk library generation index dir).videos) :
    r ∈ index.videos ∨ ∃ u ∈ reconcileUpserts decoders faults disk library generation index dir,
      u.record.key = r.key := by
  unfold reconcileOrSkip at h
  split at h
  · rename_i index' hok
    unfold reconcileUpserts
    rw [hok]
    unfold reconcileDirectory at hok
    split at hok
    · cases hok
    · rename_i root hroot
      rw [Index.reconcileDirectory_videos (callIndex_ok_iff.mp hok).2] at h
      rcases key_of_mem_foldl_upsertRecord _ _ (Lib.Table.mem_delete.mp h).1 with
        h | ⟨record, hrecord, hkey⟩
      · exact Or.inl h
      · rw [hroot]
        exact Or.inr ⟨⟨library, dir, record⟩, List.mem_map_of_mem hrecord, hkey⟩
  · exact Or.inl h

theorem row_of_reconcileLive {live : Dirty} {r : Row}
    (h : r ∈ (reconcileLive decoders faults disk roots generation index live).videos) :
    r ∈ index.videos ∨ ∃ u ∈ liveUpserts decoders faults disk roots generation index live,
      u.record.key = r.key := by
  unfold reconcileLive at h
  unfold liveUpserts
  cases hroots : roots[live.1]? with
  | none =>
    rw [hroots] at h
    exact Or.inl h
  | some root =>
    rw [hroots] at h
    exact row_of_foldl_logged (fun _ _ _ => row_of_reconcileOrSkip) _ (index, []) h

theorem row_of_removeVanished {r : Row} : ∀ (ds : List Dirty) (index : Index),
    r ∈ (ds.foldl (removeVanished faults roots) index).videos → r ∈ index.videos
  | [], _, h => h
  | d :: ds, index, h => by
    have hrest := row_of_removeVanished ds _ h
    unfold removeVanished at hrest
    split at hrest
    · exact hrest
    · dsimp only at hrest
      split at hrest
      · exact hrest
      · exact (Lib.Table.mem_delete.mp hrest).1

/-- A row after a flush was there before or is one of those it writes. -/
theorem row_of_flush {dirty : List Dirty} {r : Row}
    (h : r ∈ (flush decoders faults disk roots dirty index).videos) :
    r ∈ index.videos ∨
      ∃ u ∈ flushUpserts decoders faults disk roots dirty index, u.record.key = r.key := by
  unfold flush at h
  unfold flushUpserts
  split at h
  · exact Or.inl h
  · rename_i hfault
    rw [if_neg hfault]
    rcases row_of_foldl_logged (fun _ _ _ => row_of_reconcileLive) _ (_, []) h with h | h
    · exact Or.inl (row_of_removeVanished _ _ h)
    · exact Or.inr h

end Spec

/-! ## The boundary -/

/-- The roots that are watched: canonical, where the path can be resolved. -/
def watchRoots (t : FileTree) (libraries : List Library) : List (Library × Path) :=
  libraries.map fun library => (library, (t.canonicalize library.path).getD library.path)

/-- A path that some event dirties: its own or the parent of one, at or beneath a root. -/
def Candidate (roots : List (Library × Path)) (events : List Event) (d : Dirty) : Prop :=
  ∃ event ∈ events, event.kind ≠ .access ∧ ∃ path ∈ event.paths, isPart path = false ∧
    (d.2 = path ∨ path.parent = some d.2) ∧ owningRoot roots d.2 = some d.1

/-- A candidate that is a directory now, links followed, and beneath no other such one. -/
structure Uncovered (t : FileTree) (roots : List (Library × Path)) (events : List Event)
    (d : Dirty) : Prop where
  candidate : Candidate roots events d
  live : t.isDir d.2 = true
  uncovered : ∀ k, Candidate roots events k → t.isDir k.2 = true → Covers k d → k = d

/-- A directory that the full scan of a library visits. -/
def ScanVisits (t : FileTree) (library : Library) (dir : Path) : Prop :=
  ∃ root, t.canonicalize library.path = some root ∧ dir ∈ t.walkDir root

/-- In a walk from a path beneath the root, a directory is reached from the root exactly when
the path is. -/
theorem reachable_walk_iff {t : FileTree} {root d dir : Path} (hroot : root <+: d)
    (hdir : dir ∈ t.walkDir d) : t.ReachableDir root dir ↔ t.ReachableDir root d := by
  have hpre := FileTree.prefix_of_mem_walkDir hdir
  rw [FileTree.reachableDir_iff, FileTree.reachableDir_iff]
  constructor
  · rintro ⟨-, hnode⟩
    refine ⟨hroot, ?_⟩
    rcases Lib.PathTree.node_of_prefix hpre hnode with h | ⟨-, h⟩
    · exact h
    · exact h
  · rintro ⟨-, hnode⟩
    exact ⟨hroot.trans hpre, ((FileTree.mem_walkDir hnode).mp hdir).2⟩

section Inside
variable {t : FileTree} {libraries : List Library} {events : List Event}

theorem mem_dirty_iff_candidate {roots : List (Library × Path)} {dirty : List Dirty} {d : Dirty}
    (hdirty : ∀ d, d ∈ dirty ↔ ∃ event ∈ events, d ∈ dirtyDirectories event roots) :
    d ∈ dirty ↔ Candidate roots events d := by
  simp only [hdirty, mem_dirtyDirectories_iff, Candidate]

/-- The live candidates that no other covers. -/
theorem uncovered_iff {roots : List (Library × Path)} {dirty : List Dirty} {d : Dirty}
    (hdirty : ∀ d, d ∈ dirty ↔ ∃ event ∈ events, d ∈ dirtyDirectories event roots) :
    (d ∈ liveDirty t dirty ∧ ∀ k ∈ liveDirty t dirty, Covers k d → k = d) ↔
      Uncovered t roots events d := by
  have hmem : ∀ k, k ∈ liveDirty t dirty ↔ Candidate roots events k ∧ t.isDir k.2 = true := by
    intro k
    rw [liveDirty, List.mem_filter, mem_dirty_iff_candidate hdirty]
  constructor
  · rintro ⟨hd, hmin⟩
    obtain ⟨hcandidate, hlive⟩ := (hmem d).mp hd
    exact ⟨hcandidate, hlive, fun k hk hkdir => hmin k ((hmem k).mpr ⟨hk, hkdir⟩)⟩
  · rintro ⟨hcandidate, hlive, hmin⟩
    refine ⟨(hmem d).mpr ⟨hcandidate, hlive⟩, fun k hk => ?_⟩
    obtain ⟨hk, hkdir⟩ := (hmem k).mp hk
    exact hmin k hk hkdir

theorem getElem?_watchRoots {i : Nat} {library : Library} {root : Path} :
    (watchRoots t libraries)[i]? = some (library, root) ↔
      libraries[i]? = some library ∧ (t.canonicalize library.path).getD library.path = root := by
  unfold watchRoots
  rw [List.getElem?_map, Option.map_eq_some_iff]
  constructor
  · rintro ⟨library, h, heq⟩
    obtain ⟨rfl, rfl⟩ := Prod.mk.inj heq
    exact ⟨h, rfl⟩
  · rintro ⟨h, rfl⟩
    exact ⟨library, h, rfl⟩

/-- The rows that a flush writes are those of directories a scan visits, exactly when no live
uncovered candidate that is reached through a link has a master in its walk. -/
theorem flush_inside_iff {decoders : Decoders} {faults : Faults} {index : Index} :
    (∀ u ∈ flushUpserts decoders faults (.still t) (watchRoots t libraries)
        (events.flatMap fun event => dirtyDirectories event (watchRoots t libraries)) index,
      ScanVisits t u.library u.dir) ↔
    (faults .currentGeneration = false → ∀ d, Uncovered t (watchRoots t libraries) events d →
      ∀ library root, libraries[d.1]? = some library → t.canonicalize library.path = some root →
        ¬ t.ReachableDir root d.2 → ∀ dir ∈ t.walkDir d.2,
          Accepted faults (.still t) library root dir → masters t dir = []) := by
  have hbeneath : ∀ d, Uncovered t (watchRoots t libraries) events d →
      ∀ library root, libraries[d.1]? = some library → t.canonicalize library.path = some root →
        (watchRoots t libraries)[d.1]? = some (library, root) ∧ root <+: d.2 := by
    intro d hd library root hlibrary hroot
    obtain ⟨-, -, -, -, -, -, -, howning⟩ := hd.candidate
    have hget : (watchRoots t libraries)[d.1]? = some (library, root) :=
      getElem?_watchRoots.mpr ⟨hlibrary, by rw [hroot, Option.getD_some]⟩
    exact ⟨hget, prefix_of_owningRoot hget howning⟩
  constructor
  · intro h hfault d hd library root hlibrary hroot hnot dir hdir haccepted
    by_contra hmasters
    obtain ⟨video, hvideo⟩ := List.exists_mem_of_ne_nil _ hmasters
    obtain ⟨record, hrecord, -⟩ := exists_collect_of_mem_masters decoders library root hvideo
    obtain ⟨hget, hpre⟩ := hbeneath d hd library root hlibrary hroot
    obtain ⟨hlive, hmin⟩ := (uncovered_iff fun _ => List.mem_flatMap).mpr hd
    obtain ⟨root', hroot', hwalk⟩ := h ⟨library, dir, record⟩ (mem_flushUpserts.mpr
      ⟨hfault, d, hlive, hmin, library, root, hget, dir, hdir, rfl, rfl, root, hroot, haccepted,
        hrecord⟩)
    cases hroot.symm.trans hroot'
    have hreach := (FileTree.mem_walkDir_iff_reachable
      (FileTree.plain_of_canonicalize hroot)).mp hwalk
    exact hnot ((reachable_walk_iff hpre hdir).mp hreach)
  · intro h u hu
    obtain ⟨hfault, d, hlive, hmin, library, root₀, hget, dir, hdir, rfl, rfl, root, hroot,
      haccepted, hrecord⟩ := mem_flushUpserts.mp hu
    have hd := (uncovered_iff fun _ => List.mem_flatMap).mp ⟨hlive, hmin⟩
    have hlibrary := (getElem?_watchRoots.mp hget).1
    have hpre := (hbeneath d hd u.library root hlibrary hroot).2
    refine ⟨root, hroot, (FileTree.mem_walkDir_iff_reachable
      (FileTree.plain_of_canonicalize hroot)).mpr ?_⟩
    rw [reachable_walk_iff hpre hdir]
    by_contra hnot
    have hnone := h hfault d hd u.library root hlibrary hroot hnot u.dir hdir haccepted
    obtain ⟨video, hvideo, -⟩ := mem_collectDirectory.mp hrecord
    have hvideo : video ∈ masters t u.dir := hvideo
    rw [hnone] at hvideo
    cases hvideo

end Inside

/-! ## A library with a link to another tree -/

namespace LinkedOut
open OneVideo

def link : FileName := ⟨"link", by decide⟩

def out : FileName := ⟨"out", by decide⟩

def more : FileName := ⟨"more", by decide⟩

/-- The library holds only a link; the movie lies in a directory of the tree it names. -/
def tree : FileTree :=
  .ofNodes [([], .dir), ([lib], .dir), ([lib, link], .symlink [out]), ([out], .dir),
    ([out, more], .dir), ([out, more, movie], .file ⟨[1, 2, 3], 5⟩)] (by decide) (by decide)

/-- The movie was written, as the watcher reports it through the link. -/
def events : List Event := [⟨.create, [[lib, link, more, movie]]⟩]

def upserts : List Upsert :=
  flushUpserts OneVideo.decoders Faults.none (.still tree) (watchRoots tree [library])
    (events.flatMap fun event => dirtyDirectories event (watchRoots tree [library]))
    Index.openInMemory

theorem flush_leaves_library :
    ¬ ∀ (decoders : Decoders) (faults : Faults) (t : FileTree) (libraries : List Library)
      (events : List Event) (index : Index),
      ∀ u ∈ flushUpserts decoders faults (.still t) (watchRoots t libraries)
        (events.flatMap fun event => dirtyDirectories event (watchRoots t libraries)) index,
      ScanVisits t u.library u.dir := by
  intro h
  have hwritten : (library, [lib, link, more]) ∈
      upserts.map fun u => (u.library, u.dir) := by decide
  obtain ⟨u, hu, heq⟩ := List.mem_map.mp hwritten
  obtain ⟨hlibrary, hdir⟩ := Prod.mk.inj heq
  obtain ⟨root, hroot, hwalk⟩ := h _ _ _ _ _ _ u hu
  rw [hlibrary] at hroot
  rw [hdir] at hwalk
  have hcanonical : tree.canonicalize library.path = some [lib] := by decide
  cases hcanonical.symm.trans hroot
  exact absurd hwalk (by decide)

end LinkedOut

end Loku
