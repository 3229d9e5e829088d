import Loku.Lib.Table
import Mathlib.Data.List.Infix
import Mathlib.Data.List.Perm.Basic

/-!
# Trees of named nodes

A `PathTree inner` is a finite tree whose nodes are reached by lists of names. It is stored
as the table of its nodes, keyed by path, with the invariant that every node but the root has
a parent and that this parent is the inner node `inner` (`closed`), so no tree with a
dangling node can be built. The tree operations are those of a file system: `put` one node,
`remove` a node with everything beneath it, `move` a node with everything beneath it.

Each operation is described by the node it leaves at every path (`node_put`, `node_remove`,
`node_move`).
-/

namespace Lib

/-- A finite tree of nodes, inner nodes being `inner`. -/
structure PathTree {ν α : Type} (inner : α) where
  table : Table (Prod.fst : List ν × α → List ν)
  closed : ∀ e ∈ table, e.1 ≠ [] → (e.1.dropLast, inner) ∈ table

namespace PathTree

variable {ν α : Type} {inner : α} [DecidableEq ν]

/-- The node at a path. -/
def node (t : PathTree (ν := ν) inner) (p : List ν) : Option α := (t.table.find? p).map Prod.snd

theorem node_eq_some_iff {t : PathTree (ν := ν) inner} {p : List ν} {a : α} :
    t.node p = some a ↔ (p, a) ∈ t.table := by
  unfold node
  rw [Option.map_eq_some_iff]
  constructor
  · rintro ⟨⟨q, b⟩, h, rfl⟩
    obtain ⟨hmem, rfl⟩ := Table.find?_eq_some_iff.mp h
    exact hmem
  · intro h
    exact ⟨(p, a), Table.find?_eq_some_iff.mpr ⟨h, rfl⟩, rfl⟩

/-- The parent of a node is an inner node. -/
theorem node_dropLast {t : PathTree (ν := ν) inner} {p : List ν} {a : α}
    (h : t.node p = some a) (hp : p ≠ []) : t.node p.dropLast = some inner :=
  node_eq_some_iff.mpr (t.closed _ (node_eq_some_iff.mp h) hp)

/-- Every proper ancestor of a node is an inner node. -/
theorem node_of_append {t : PathTree (ν := ν) inner} {p q : List ν} {a : α} (hq : q ≠ [])
    (h : t.node (p ++ q) = some a) : t.node p = some inner := by
  induction q using List.reverseRecOn generalizing a with
  | nil => exact absurd rfl hq
  | append_singleton q n ih =>
    rw [← List.append_assoc] at h
    have hpar := node_dropLast h (by simp)
    rw [List.dropLast_concat] at hpar
    by_cases hq' : q = []
    · rwa [hq', List.append_nil] at hpar
    · exact ih hq' hpar

theorem node_of_prefix {t : PathTree (ν := ν) inner} {p q : List ν} {a : α} (hpq : p <+: q)
    (h : t.node q = some a) : t.node p = some inner ∨ (p = q ∧ t.node p = some a) := by
  obtain ⟨r, rfl⟩ := hpq
  by_cases hr : r = []
  · subst hr
    rw [List.append_nil] at h
    exact Or.inr ⟨(List.append_nil p).symm, h⟩
  · exact Or.inl (node_of_append hr h)

/-- The longest path of a node. -/
def height (t : PathTree (ν := ν) inner) : Nat := (t.table.rows.map fun e => e.1.length).foldr max 0

theorem length_le_height {t : PathTree (ν := ν) inner} {p : List ν} {a : α}
    (h : t.node p = some a) : p.length ≤ t.height := by
  have hmem := node_eq_some_iff.mp h
  unfold height
  rw [Table.mem_def] at hmem
  generalize t.table.rows = rows at hmem
  induction rows with
  | nil => cases hmem
  | cons e rows ih =>
    rw [List.map_cons, List.foldr_cons]
    rcases List.mem_cons.mp hmem with rfl | hmem
    · exact Nat.le_max_left _ _
    · exact (ih hmem).trans (Nat.le_max_right _ _)

/-! ## Children -/

/-- The last name of a path directly below `d`. -/
def childName (d p : List ν) : Option ν := if p.dropLast = d then p.getLast? else none

theorem childName_eq_some_iff {d p : List ν} {n : ν} :
    childName d p = some n ↔ p = d ++ [n] := by
  unfold childName
  constructor
  · intro h
    split at h
    · rename_i hd
      rw [← hd]
      obtain ⟨ys, rfl⟩ := List.getLast?_eq_some_iff.mp h
      simp
    · cases h
  · rintro rfl
    simp

/-- The names directly below `d`, in the order of the table. -/
def children (t : PathTree (ν := ν) inner) (d : List ν) : List ν :=
  t.table.rows.filterMap fun e => childName d e.1

theorem mem_children {t : PathTree (ν := ν) inner} {d : List ν} {n : ν} :
    n ∈ t.children d ↔ ∃ a, t.node (d ++ [n]) = some a := by
  simp only [children, List.mem_filterMap, childName_eq_some_iff, node_eq_some_iff, Table.mem_def]
  constructor
  · rintro ⟨⟨p, a⟩, hmem, rfl⟩
    exact ⟨a, hmem⟩
  · rintro ⟨a, hmem⟩
    exact ⟨_, hmem, rfl⟩

theorem nodup_children (t : PathTree (ν := ν) inner) (d : List ν) : (t.children d).Nodup := by
  have h := t.table.nodup
  unfold children
  generalize t.table.rows = rows at h
  have hcomp : rows.filterMap (fun e => childName d e.1) =
      (rows.map Prod.fst).filterMap (childName d) := by
    rw [List.filterMap_map]
    rfl
  rw [hcomp]
  apply h.filterMap
  intro p q n hp hq
  rw [Option.mem_def, childName_eq_some_iff] at hp hq
  rw [hp, hq]

/-! ## Writing one node -/

/-- Whether a node may be written at `p`: the parent is an inner node and no inner node is
replaced by another node. -/
def CanPut (t : PathTree (ν := ν) inner) (p : List ν) (a : α) : Prop :=
  p ≠ [] ∧ t.node p.dropLast = some inner ∧ (t.node p = some inner → a = inner)

instance [DecidableEq α] (t : PathTree (ν := ν) inner) (p : List ν) (a : α) :
    Decidable (t.CanPut p a) := inferInstanceAs (Decidable (_ ∧ _ ∧ (_ → _)))

/-- Write the node `a` at `p`. -/
def put (t : PathTree (ν := ν) inner) (p : List ν) (a : α) (h : t.CanPut p a) :
    PathTree (ν := ν) inner where
  table := t.table.upsert (p, a) (fun e => (e.1, a)) (fun _ => rfl)
  closed := by
    -- an inner node stays where it was: the only other case would replace one by `a`
    have hkeep : ∀ q, (q, inner) ∈ t.table →
        (q, inner) ∈ t.table.upsert (p, a) (fun e => (e.1, a)) (fun _ => rfl) := by
      intro q hq
      rw [Table.mem_upsert]
      by_cases hqp : q = p
      · right
        have hf : t.table.find? p = some (q, inner) :=
          Table.find?_eq_some_iff.mpr ⟨hq, hqp⟩
        have ha := h.2.2 (node_eq_some_iff.mpr (hqp ▸ hq))
        simp [Table.upserted, hf, ha]
      · exact Or.inl ⟨hq, hqp⟩
    intro e he hne
    rcases Table.mem_upsert.mp he with ⟨he, -⟩ | rfl
    · exact hkeep _ (t.closed e he hne)
    · have hkey : (t.table.upserted (p, a) fun e => (e.1, a)).1 = p :=
        Table.key_upserted fun _ => rfl
      rw [hkey]
      exact hkeep _ (node_eq_some_iff.mp h.2.1)

theorem node_put {t : PathTree (ν := ν) inner} {p : List ν} {a : α} (h : t.CanPut p a)
    (q : List ν) : (t.put p a h).node q = if q = p then some a else t.node q := by
  by_cases hq : q = p
  · subst hq
    rw [if_pos rfl]
    unfold node put
    rw [Table.find?_upsert_self]
    unfold Table.upserted
    cases t.table.find? q <;> rfl
  · rw [if_neg hq]
    unfold node put
    rw [Table.find?_upsert_of_ne hq]

/-! ## Removing a node with everything beneath it -/

/-- Remove `p` and every node beneath it. -/
def remove (t : PathTree (ν := ν) inner) (p : List ν) : PathTree (ν := ν) inner where
  table := t.table.delete fun e => p.isPrefixOf e.1
  closed := by
    intro e he hne
    rw [Table.mem_delete] at he ⊢
    refine ⟨t.closed e he.1 hne, ?_⟩
    rw [← Bool.not_eq_true, List.isPrefixOf_iff_prefix] at he ⊢
    exact fun hp => he.2 (hp.trans (List.dropLast_prefix _))

theorem node_remove (t : PathTree (ν := ν) inner) (p q : List ν) :
    (t.remove p).node q = if p <+: q then none else t.node q := by
  have hmem : ∀ a, (q, a) ∈ (t.remove p).table ↔ (q, a) ∈ t.table ∧ ¬ p <+: q := by
    intro a
    unfold remove
    rw [Table.mem_delete, ← Bool.not_eq_true, List.isPrefixOf_iff_prefix]
  apply Option.ext
  intro a
  rw [node_eq_some_iff, hmem]
  split
  · rename_i hp
    simp [hp]
  · rename_i hp
    rw [node_eq_some_iff]
    simp [hp]

/-! ## Moving a node with everything beneath it -/

/-- Where a move from `a` to `b` takes a path. -/
def relocate (a b p : List ν) : List ν := if a <+: p then b ++ p.drop a.length else p

/-- Whether `a` may be moved to `b`: `a` is a node other than the root, `b` is neither at nor
beneath `a`, has an inner parent, and no node is at or beneath `b`. -/
def CanMove (t : PathTree (ν := ν) inner) (a b : List ν) : Prop :=
  a ≠ [] ∧ t.node a ≠ none ∧ ¬ a <+: b ∧ b ≠ [] ∧ t.node b.dropLast = some inner ∧
    ∀ e ∈ t.table.rows, ¬ b <+: e.1

instance [DecidableEq α] (t : PathTree (ν := ν) inner) (a b : List ν) :
    Decidable (t.CanMove a b) := inferInstanceAs (Decidable (_ ∧ _ ∧ _ ∧ _ ∧ _ ∧ _))

theorem relocate_append (a b r : List ν) : relocate a b (a ++ r) = b ++ r := by
  simp [relocate]

theorem relocate_of_not_beneath {a b p : List ν} (h : ¬ a <+: p) : relocate a b p = p := if_neg h

theorem relocate_eq_iff {a b p q : List ν} (hp : ¬ b <+: p) (hq : ¬ b <+: q)
    (h : relocate a b p = relocate a b q) : p = q := by
  by_cases hpa : a <+: p <;> by_cases hqa : a <+: q
  · obtain ⟨r, rfl⟩ := hpa
    obtain ⟨s, rfl⟩ := hqa
    rw [relocate_append, relocate_append] at h
    rw [List.append_cancel_left h]
  · obtain ⟨r, rfl⟩ := hpa
    rw [relocate_append, relocate_of_not_beneath hqa] at h
    exact absurd ⟨r, h⟩ hq
  · obtain ⟨s, rfl⟩ := hqa
    rw [relocate_append, relocate_of_not_beneath hpa] at h
    exact absurd ⟨s, h.symm⟩ hp
  · rwa [relocate_of_not_beneath hpa, relocate_of_not_beneath hqa] at h

/-- Move `a`, and what is beneath it, to `b`. -/
def move (t : PathTree (ν := ν) inner) (a b : List ν) (h : t.CanMove a b) :
    PathTree (ν := ν) inner where
  table :=
    { rows := t.table.rows.map fun e => (relocate a b e.1, e.2)
      nodup := by
        rw [List.map_map]
        have hcomp : (Prod.fst ∘ fun e : List ν × α => (relocate a b e.1, e.2)) =
            relocate a b ∘ Prod.fst := rfl
        rw [hcomp, ← List.map_map]
        refine List.Nodup.map_on ?_ t.table.nodup
        intro p hp q hq
        obtain ⟨e, he, rfl⟩ := List.mem_map.mp hp
        obtain ⟨f, hf, rfl⟩ := List.mem_map.mp hq
        exact relocate_eq_iff (h.2.2.2.2.2 e he) (h.2.2.2.2.2 f hf) }
  closed := by
    intro e he hne
    obtain ⟨⟨p, x⟩, hp, rfl⟩ := List.mem_map.mp he
    obtain ⟨ha, -, hab, hb, hpar, -⟩ := h
    dsimp only at hne ⊢
    by_cases hpa : a <+: p
    · obtain ⟨r, rfl⟩ := hpa
      rw [relocate_append] at hne ⊢
      rcases List.eq_nil_or_concat r with rfl | ⟨r', n, rfl⟩
      · -- the moved node itself: its new parent is the parent of `b`
        rw [List.append_nil]
        refine List.mem_map.mpr ⟨(b.dropLast, inner), node_eq_some_iff.mp hpar, ?_⟩
        rw [relocate_of_not_beneath fun hpre => hab (hpre.trans (List.dropLast_prefix b))]
      · have hparent := t.closed _ hp (by simp)
        simp only [List.concat_eq_append, ← List.append_assoc, List.dropLast_concat] at hparent ⊢
        exact List.mem_map.mpr ⟨_, hparent, by rw [relocate_append]⟩
    · rw [relocate_of_not_beneath hpa] at hne ⊢
      refine List.mem_map.mpr ⟨_, t.closed _ hp hne, ?_⟩
      rw [relocate_of_not_beneath fun hpre => hpa (hpre.trans (List.dropLast_prefix p))]

theorem node_move {t : PathTree (ν := ν) inner} {a b : List ν} (h : t.CanMove a b) (q : List ν) :
    (t.move a b h).node q =
      if b <+: q then t.node (a ++ q.drop b.length) else if a <+: q then none else t.node q := by
  have hmem : ∀ x, (q, x) ∈ (t.move a b h).table ↔
      ∃ p, (p, x) ∈ t.table ∧ relocate a b p = q := by
    intro x
    unfold move
    simp only [Table.mem_def, List.mem_map, Prod.mk.injEq, Prod.exists]
    constructor
    · rintro ⟨p, y, hp, hpq, rfl⟩
      exact ⟨p, hp, hpq⟩
    · rintro ⟨p, hp, hpq⟩
      exact ⟨p, x, hp, hpq, rfl⟩
  have hfree : ∀ p x, (p, x) ∈ t.table → ¬ b <+: p := fun p x hp => h.2.2.2.2.2 (p, x) hp
  apply Option.ext
  intro x
  rw [node_eq_some_iff, hmem]
  split
  · rename_i hb
    obtain ⟨r, rfl⟩ := hb
    rw [List.drop_left, node_eq_some_iff]
    constructor
    · rintro ⟨p, hp, hpq⟩
      by_cases hpa : a <+: p
      · obtain ⟨s, rfl⟩ := hpa
        rw [relocate_append] at hpq
        rwa [List.append_cancel_left hpq] at hp
      · rw [relocate_of_not_beneath hpa] at hpq
        exact absurd ⟨r, hpq.symm⟩ (hfree p x hp)
    · intro hp
      exact ⟨_, hp, relocate_append a b r⟩
  · rename_i hb
    split
    · rename_i ha
      constructor
      · rintro ⟨p, hp, hpq⟩
        by_cases hpa : a <+: p
        · obtain ⟨s, rfl⟩ := hpa
          rw [relocate_append] at hpq
          exact absurd ⟨s, hpq⟩ hb
        · rw [relocate_of_not_beneath hpa] at hpq
          exact absurd (hpq ▸ ha) hpa
      · intro hx
        cases hx
    · rename_i ha
      rw [node_eq_some_iff]
      constructor
      · rintro ⟨p, hp, hpq⟩
        by_cases hpa : a <+: p
        · obtain ⟨s, rfl⟩ := hpa
          rw [relocate_append] at hpq
          exact absurd ⟨s, hpq⟩ hb
        · rw [relocate_of_not_beneath hpa] at hpq
          exact hpq ▸ hp
      · intro hq
        exact ⟨q, hq, relocate_of_not_beneath ha⟩

end PathTree

end Lib
