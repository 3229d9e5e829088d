import Loku.Index.Listing
import Loku.Lib.Cover

/-!
# What a flush leaves

Pruning drops a directory only when an ancestor of it is kept (`exists_pruneNested`). Removing
the tree of an ancestor removes at least as much (`inTree_of_beneath`), so of the vanished
directories all count; of the live ones those count whose walk is made. `Lists.flush` puts
the two folds together.
-/

namespace Loku

/-! ## Dirty directories -/

theorem mem_dirtyDirectories_iff {event : Event} {roots : List (Library × Path)} {d : Dirty} :
    d ∈ dirtyDirectories event roots ↔ event.kind ≠ .access ∧ ∃ path ∈ event.paths,
      isPart path = false ∧ (d.2 = path ∨ path.parent = some d.2) ∧
        owningRoot roots d.2 = some d.1 := by
  unfold dirtyDirectories
  split
  · rename_i h
    simp [h]
  · rename_i h
    simp only [List.mem_filterMap, List.mem_flatMap, List.mem_filter, Option.map_eq_some_iff,
      List.mem_cons, Option.mem_toList, ne_eq, h, not_false_eq_true, true_and, Bool.not_eq_true']
    constructor
    · rintro ⟨dir, ⟨path, ⟨hpath, hpart⟩, hdir⟩, i, hi, rfl⟩
      exact ⟨path, hpath, hpart, hdir, hi⟩
    · rintro ⟨path, hpath, hpart, hdir, hi⟩
      exact ⟨d.2, ⟨path, ⟨hpath, hpart⟩, hdir⟩, d.1, hi, rfl⟩

theorem prefix_of_owningRoot {roots : List (Library × Path)} {i : Nat} {library : Library}
    {root dir : Path} (hroots : roots[i]? = some (library, root))
    (h : owningRoot roots dir = some i) : root <+: dir := by
  unfold owningRoot at h
  obtain ⟨hi, hstarts, -⟩ := List.findIdx?_eq_some_iff_getElem.mp h
  obtain ⟨hi', hget⟩ := List.getElem?_eq_some_iff.mp hroots
  rw [hget, Path.startsWith_iff] at hstarts
  exact hstarts

theorem Debounce.mem_pending_recordAll {debounce : Debounce} {keys : List Dirty} {now : Nat}
    {d : Dirty} : d ∈ (debounce.recordAll keys now).pending ↔ d ∈ debounce.pending ∨ d ∈ keys := by
  unfold Debounce.recordAll
  induction keys generalizing debounce with
  | nil => simp
  | cons key keys ih =>
    rw [List.foldl_cons, ih]
    unfold Debounce.record
    rw [List.mem_insert_iff, List.mem_cons]
    tauto

/-! ## Pruning -/

theorem mem_dedup {d : Dirty} : ∀ {ds : List Dirty}, d ∈ dedup ds ↔ d ∈ ds
  | [] => Iff.rfl
  | [_] => Iff.rfl
  | a :: b :: rest => by
    unfold dedup
    split
    · rename_i h
      subst h
      rw [mem_dedup]
      simp
    · rw [List.mem_cons, mem_dedup, List.mem_cons (l := b :: rest)]

/-- A directory of the same library at or above another. -/
def Covers (k d : Dirty) : Prop := k.1 = d.1 ∧ k.2 <+: d.2

instance : DecidableRel Covers := fun k d => inferInstanceAs (Decidable (k.1 = d.1 ∧ k.2 <+: d.2))

theorem Covers.refl (a : Dirty) : Covers a a := ⟨rfl, List.prefix_rfl⟩

theorem keepUncovered_eq : keepUncovered = Lib.keepUncovered Covers := by
  funext kept d
  unfold keepUncovered Lib.keepUncovered
  congr 3
  funext k
  rw [Bool.eq_iff_iff, Bool.and_eq_true, beq_iff_eq, Path.startsWith_iff, decide_eq_true_iff]
  exact Iff.rfl

theorem pruneNested_eq (dirty : List Dirty) : pruneNested dirty =
    Lib.uncovered Covers (dedup (dirty.insertionSort fun a b => dirtyLe a b)) := by
  unfold pruneNested Lib.uncovered
  rw [keepUncovered_eq]

theorem mem_sorted {d : Dirty} {dirty : List Dirty} :
    d ∈ dedup (dirty.insertionSort fun a b => dirtyLe a b) ↔ d ∈ dirty := by
  rw [mem_dedup, List.mem_insertionSort]

theorem mem_of_mem_pruneNested {d : Dirty} {dirty : List Dirty} (h : d ∈ pruneNested dirty) :
    d ∈ dirty := by
  rw [pruneNested_eq] at h
  exact mem_sorted.mp (Lib.mem_of_mem_uncovered h)

/-- Pruning keeps every directory or an ancestor of it in the same library. -/
theorem exists_pruneNested {d : Dirty} {dirty : List Dirty} (h : d ∈ dirty) :
    ∃ k ∈ pruneNested dirty, Covers k d := by
  rw [pruneNested_eq]
  exact Lib.exists_covers Covers.refl (mem_sorted.mpr h)

/-- The tree of an ancestor beneath the root contains the tree of a directory. -/
theorem inTree_of_beneath {root a b : Path} {parent : String} (hroot : root <+: a) (hne : a ≠ root)
    (hab : a <+: b) (h : Index.inTree (relativeOf b root) parent = true) :
    Index.inTree (relativeOf a root) parent = true := by
  obtain ⟨r, rfl⟩ := hroot
  obtain ⟨q, rfl⟩ := hab
  have hr : r ≠ [] := by
    rintro rfl
    exact hne (List.append_nil root)
  rw [List.append_assoc, relativeOf_append] at h
  rw [relativeOf_append]
  by_cases hq : q = []
  · rwa [hq, List.append_nil] at h
  · have htext := Path.toList_relText_append hr hq
    rw [Index.inTree_iff] at h ⊢
    right
    rcases h with rfl | ⟨head, tail, happ, hfold⟩
    · exact ⟨_, _, htext, rfl⟩
    · rw [htext, List.map_append, List.map_cons] at hfold
      obtain ⟨first, last, rfl, hfirst, hlast⟩ := List.map_eq_append_iff.mp hfold
      obtain ⟨c, rest, rfl, hc, -⟩ := List.map_eq_cons_iff.mp hlast
      have hslash : Lib.asciiFold '/' = '/' := by decide
      have hcslash := Lib.eq_of_asciiFold_eq (by decide) (hc.trans hslash)
      refine ⟨first, rest ++ '/' :: tail, ?_, hfirst⟩
      rw [happ, hcslash]
      simp

/-! ## The two folds -/

/-- The dirty directories of one library that are directories now, and those that are not. -/
def liveDirty (t : FileTree) (dirty : List Dirty) : List Dirty := dirty.filter fun d => t.isDir d.2

def vanishedDirty (t : FileTree) (dirty : List Dirty) : List Dirty :=
  dirty.filter fun d => !t.isDir d.2

/-- The rows of a directory are removed with those of a vanished one. -/
def RowsRemoved (t : FileTree) (dirty : List Dirty) (i : Nat) (root dir : Path) : Prop :=
  ∃ d ∈ vanishedDirty t dirty, d.1 = i ∧
    Index.inTree (relativeOf d.2 root) (relativeOf dir root) = true

/-- The walks of some live directories visit a directory, and it is reconciled. -/
def Visited (t : FileTree) (ds : List Dirty) (i : Nat) (dir : Path) : Prop :=
  (∃ d ∈ ds, d.1 = i ∧ dir ∈ t.walkDir d.2) ∧ Fits t dir

/-- A flush reconciles a directory. -/
def Refreshed (t : FileTree) (dirty : List Dirty) (i : Nat) (dir : Path) : Prop :=
  Visited t (pruneNested (liveDirty t dirty)) i dir

namespace Lists

section Flush
variable {decoders : Decoders} {t : FileTree} {roots : List (Library × Path)} {i : Nat}
  {library : Library} {root : Path} {generation : Int} {index : Index} {videos : Set Video}

/-- The libraries at other positions have other names. -/
theorem name_ne_of_ne (hroots : roots[i]? = some (library, root))
    (hnames : (roots.map fun r => r.1.name).Nodup) {j : Nat} {other : Library × Path}
    (hj : roots[j]? = some other) (hne : j ≠ i) : other.1.name ≠ library.name := by
  intro heq
  obtain ⟨hi, higet⟩ := List.getElem?_eq_some_iff.mp hroots
  obtain ⟨hj', hjget⟩ := List.getElem?_eq_some_iff.mp hj
  have hj'' : j < (roots.map fun r => r.1.name).length := by simpa using hj'
  have hi' : i < (roots.map fun r => r.1.name).length := by simpa using hi
  have hsame : (roots.map fun r => r.1.name)[j] = (roots.map fun r => r.1.name)[i] := by
    simp [higet, hjget, heq]
  exact hne ((List.Nodup.getElem_inj_iff hnames).mp hsame)

theorem foldl_removeVanished (hroots : roots[i]? = some (library, root))
    (hnames : (roots.map fun r => r.1.name).Nodup) :
    ∀ (ds : List Dirty) (index : Index) (videos : Set Video),
      Lists index library.name root videos →
      Lists (ds.foldl (removeVanished Faults.none roots) index) library.name root
        {p ∈ videos | ∀ d ∈ ds, d.1 = i →
          ¬ Index.inTree (relativeOf d.2 root) (relativeOf p.1 root)}
  | [], index, videos, h => by simpa using h
  | d :: ds, index, videos, h => by
    rw [List.foldl_cons]
    by_cases hd : d.1 = i
    · have hstep : removeVanished Faults.none roots index d =
          (index.removeTree library.name (relativeOf d.2 root)).1 := by
        unfold removeVanished
        rw [hd, hroots]
        rfl
      rw [hstep]
      have hrest := foldl_removeVanished hroots hnames ds _ _
        (h.removeTree (relativeOf d.2 root))
      have hset : {p ∈ videos | ∀ e ∈ d :: ds, e.1 = i →
            ¬ Index.inTree (relativeOf e.2 root) (relativeOf p.1 root)} =
          {p ∈ {p ∈ videos | ¬ Index.inTree (relativeOf d.2 root) (relativeOf p.1 root)} |
            ∀ e ∈ ds, e.1 = i → ¬ Index.inTree (relativeOf e.2 root) (relativeOf p.1 root)} := by
        ext p
        simp [hd, and_assoc]
      rw [hset]
      exact hrest
    · have hstep : Lists (removeVanished Faults.none roots index d) library.name root videos := by
        unfold removeVanished
        split
        · exact h
        · rename_i other root' hother
          exact h.removeTree_other (name_ne_of_ne hroots hnames hother hd) _
      have hset : {p ∈ videos | ∀ e ∈ d :: ds, e.1 = i →
            ¬ Index.inTree (relativeOf e.2 root) (relativeOf p.1 root)} =
          {p ∈ videos | ∀ e ∈ ds, e.1 = i →
            ¬ Index.inTree (relativeOf e.2 root) (relativeOf p.1 root)} := by
        ext p
        simp [hd]
      rw [hset]
      exact foldl_removeVanished hroots hnames ds _ _ hstep

theorem foldl_reconcileLive (hroots : roots[i]? = some (library, root))
    (hnames : (roots.map fun r => r.1.name).Nodup)
    (hroot : t.canonicalize library.path = some root) :
    ∀ (ds : List Dirty) (index : Index) (videos : Set Video),
      Lists index library.name root videos → (∀ d ∈ ds, d.1 = i → root <+: d.2) →
      Lists (ds.foldl (reconcileLive decoders Faults.none (.still t) roots generation) index)
        library.name root
        {p | (Visited t ds i p.1 ∧ p.2 ∈ masters t p.1) ∨ (¬ Visited t ds i p.1 ∧ p ∈ videos)}
  | [], index, videos, h, _ => by simpa [Visited] using h
  | d :: ds, index, videos, h, hunder => by
    rw [List.foldl_cons]
    have hrest : ∀ e ∈ ds, e.1 = i → root <+: e.2 := fun e he =>
      hunder e (List.mem_cons_of_mem _ he)
    by_cases hd : d.1 = i
    · have hstep : reconcileLive decoders Faults.none (.still t) roots generation index d =
          (t.walkDir d.2).foldl
            (Loku.reconcileOrSkip decoders Faults.none (.still t) library generation) index := by
        unfold reconcileLive
        rw [hd, hroots]
        rfl
      rw [hstep]
      have hwalk := foldl_reconcileOrSkip decoders generation hroot (t.walkDir d.2) index videos h
        fun dir hdir =>
          (hunder d List.mem_cons_self hd).trans (FileTree.prefix_of_mem_walkDir hdir)
      have hset : {p : Video | (Visited t (d :: ds) i p.1 ∧ p.2 ∈ masters t p.1) ∨
            (¬ Visited t (d :: ds) i p.1 ∧ p ∈ videos)} =
          {p | (Visited t ds i p.1 ∧ p.2 ∈ masters t p.1) ∨ (¬ Visited t ds i p.1 ∧
            p ∈ {p : Video | if p.1 ∈ t.walkDir d.2 ∧ Fits t p.1 then p.2 ∈ masters t p.1
              else p ∈ videos})} := by
        ext p
        have hvisited : Visited t (d :: ds) i p.1 ↔
            (p.1 ∈ t.walkDir d.2 ∧ Fits t p.1) ∨ Visited t ds i p.1 := by
          unfold Visited
          rw [List.exists_mem_cons_iff, or_and_right]
          simp [hd]
        simp only [Set.mem_ofPred_eq, hvisited]
        by_cases hw : p.1 ∈ t.walkDir d.2 ∧ Fits t p.1
        · rw [if_pos hw]
          by_cases hv : Visited t ds i p.1 <;> simp [hw, hv]
        · rw [if_neg hw]
          simp [hw]
      rw [hset]
      exact foldl_reconcileLive hroots hnames hroot ds _ _ hwalk hrest
    · have hstep : Lists (reconcileLive decoders Faults.none (.still t) roots generation index d)
          library.name root videos := by
        unfold reconcileLive
        split
        · exact h
        · rename_i other root' hother
          have hname := name_ne_of_ne hroots hnames hother hd
          generalize (Disk.still t).walk.walkDir d.2 = dirs
          induction dirs generalizing index with
          | nil => exact h
          | cons dir dirs ih => exact ih _ (h.reconcileOrSkip_other hname)
      have hset : {p : Video | (Visited t (d :: ds) i p.1 ∧ p.2 ∈ masters t p.1) ∨
            (¬ Visited t (d :: ds) i p.1 ∧ p ∈ videos)} =
          {p | (Visited t ds i p.1 ∧ p.2 ∈ masters t p.1) ∨
            (¬ Visited t ds i p.1 ∧ p ∈ videos)} := by
        ext p
        have hvisited : Visited t (d :: ds) i p.1 ↔ Visited t ds i p.1 := by
          unfold Visited
          simp [hd]
        simp only [Set.mem_ofPred_eq, hvisited]
      rw [hset]
      exact foldl_reconcileLive hroots hnames hroot ds _ _ hstep hrest

/-- Of the vanished directories of a library, all remove their trees. -/
theorem rowsRemoved_iff {dirty : List Dirty} {dir : Path} (hnode : t.isDir root = true)
    (hdirty : ∀ d ∈ dirty, d.1 = i → root <+: d.2) :
    RowsRemoved t dirty i root dir ↔ ∃ d ∈ pruneNested (vanishedDirty t dirty), d.1 = i ∧
      Index.inTree (relativeOf d.2 root) (relativeOf dir root) = true := by
  constructor
  · rintro ⟨d, hd, hi, htree⟩
    obtain ⟨k, hk, hkd, hpre⟩ := exists_pruneNested hd
    obtain ⟨hmem, hgone⟩ := List.mem_filter.mp (mem_of_mem_pruneNested hk)
    refine ⟨k, hk, hkd.trans hi, inTree_of_beneath (hdirty k hmem (hkd.trans hi)) ?_ hpre htree⟩
    rintro heq
    rw [heq, hnode] at hgone
    cases hgone
  · rintro ⟨d, hd, hi, htree⟩
    exact ⟨d, mem_of_mem_pruneNested hd, hi, htree⟩

/-- What a flush leaves of a library: the masters of what it reconciles, and elsewhere what was
listed and is not removed. -/
theorem flush (decoders : Decoders) {dirty : List Dirty}
    (h : Lists index library.name root videos)
    (hroots : roots[i]? = some (library, root)) (hnames : (roots.map fun r => r.1.name).Nodup)
    (hroot : t.canonicalize library.path = some root) (hnode : t.isDir root = true)
    (hdirty : ∀ d ∈ dirty, d.1 = i → root <+: d.2) :
    Lists (Loku.flush decoders Faults.none (.still t) roots dirty index) library.name root
      {p | (Refreshed t dirty i p.1 ∧ p.2 ∈ masters t p.1) ∨
        (¬ Refreshed t dirty i p.1 ∧ p ∈ videos ∧ ¬ RowsRemoved t dirty i root p.1)} := by
  have hremoved := foldl_removeVanished hroots hnames (pruneNested (vanishedDirty t dirty)) index
    videos h
  have hset : {p ∈ videos | ∀ d ∈ pruneNested (vanishedDirty t dirty), d.1 = i →
        ¬ Index.inTree (relativeOf d.2 root) (relativeOf p.1 root)} =
      {p ∈ videos | ¬ RowsRemoved t dirty i root p.1} := by
    ext p
    rw [Set.mem_ofPred_eq, Set.mem_ofPred_eq, rowsRemoved_iff hnode hdirty]
    push Not
    rfl
  rw [hset] at hremoved
  exact foldl_reconcileLive hroots hnames hroot _ _ _ hremoved fun d hd =>
    hdirty d (List.mem_filter.mp (mem_of_mem_pruneNested hd)).1

end Flush

end Lists

end Loku
