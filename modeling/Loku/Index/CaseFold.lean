import Loku.Index.Rows
import Loku.FileTree
import Loku.Library

/-!
# The trees that differ in letter case

`LIKE` ignores the case of ASCII letters, so the tree of a vanished path takes in the
directories beneath a path that only differs from it in case (`inTree_relText_iff`). The path of
a file is a vanished one as well. Where no two directories differ only in case, what it takes in
lies beneath the directory that holds the file (`prefix_of_inTree`).
-/

namespace Loku

/-- Two paths that only differ in the case of ASCII letters. -/
def SameUpToCase (p q : Path) : Prop :=
  p.map (fun n => n.text.toList.map Lib.asciiFold) = q.map fun n => n.text.toList.map Lib.asciiFold

instance : DecidableRel SameUpToCase := fun _ _ => inferInstanceAs (Decidable (_ = _))

namespace SameUpToCase

variable {p q : Path}

theorem append_left (h : SameUpToCase p q) (root : Path) :
    SameUpToCase (root ++ p) (root ++ q) := by
  unfold SameUpToCase at h ⊢
  rw [List.map_append, List.map_append, h]

theorem dropLast (h : SameUpToCase p q) : SameUpToCase p.dropLast q.dropLast := by
  unfold SameUpToCase at h ⊢
  rw [List.map_dropLast, List.map_dropLast, h]

end SameUpToCase

/-- No two directories at or beneath `root` only differ in case. -/
def DistinctUpToCase (t : FileTree) (root : Path) : Prop :=
  ∀ d d', root <+: d → root <+: d' → t.node d = some .dir → t.node d' = some .dir →
    SameUpToCase d d' → d = d'

theorem distinctUpToCase_iff {t : FileTree} {root : Path} : DistinctUpToCase t root ↔
    ∀ e ∈ t.table.rows, ∀ e' ∈ t.table.rows, ¬ (root <+: e.1 ∧ root <+: e'.1 ∧ e.2 = .dir ∧
      e'.2 = .dir ∧ SameUpToCase e.1 e'.1 ∧ e.1 ≠ e'.1) := by
  constructor
  · rintro h ⟨d, a⟩ he ⟨d', a'⟩ he' ⟨hd, hd', rfl, rfl, hsame, hne⟩
    exact hne (h d d' hd hd' (Lib.PathTree.node_eq_some_iff.mpr he)
      (Lib.PathTree.node_eq_some_iff.mpr he') hsame)
  · intro h d d' hd hd' hnode hnode' hsame
    by_contra hne
    exact h _ (Lib.PathTree.node_eq_some_iff.mp hnode) _ (Lib.PathTree.node_eq_some_iff.mp hnode')
      ⟨hd, hd', rfl, rfl, hsame, hne⟩

instance (t : FileTree) (root : Path) : Decidable (DistinctUpToCase t root) :=
  decidable_of_iff _ distinctUpToCase_iff.symm

theorem SameUpToCase.relText {p q : Path} (h : SameUpToCase p q) :
    p.relText.toList.map Lib.asciiFold = q.relText.toList.map Lib.asciiFold := by
  have hfold : ∀ p : Path, p.relText.toList.map Lib.asciiFold =
      [Lib.asciiFold '/'].intercalate (p.map fun n => n.text.toList.map Lib.asciiFold) := by
    intro p
    rw [Path.toList_relText, Lib.map_intercalate, List.map_map]
    rfl
  rw [hfold, hfold, h]

/-- The path itself, or one beneath a path that only differs from it in case. -/
def InTreeUpToCase (p dir : Path) : Prop :=
  dir = p ∨ ∃ a rest, rest ≠ [] ∧ dir = a ++ rest ∧ SameUpToCase a p

/-- What is removed with a path is its tree up to case. -/
theorem inTree_relText_iff {r q : Path} (hr : r ≠ []) :
    Index.inTree r.relText q.relText = true ↔ InTreeUpToCase r q := by
  rw [Index.inTree_iff]
  constructor
  · rintro (h | ⟨head, tail, happ, hfold⟩)
    · exact Or.inl (Path.relText_inj.mp h)
    · right
      have hq : q ≠ [] := by
        rintro rfl
        simp [Path.relText] at happ
      have hsplit := Path.splitOn_relText hq
      rw [happ, List.splitOn_append_cons_self] at hsplit
      obtain ⟨a, b, rfl, ha, hb⟩ := List.map_eq_append_iff.mp hsplit.symm
      refine ⟨a, b, ?_, rfl, ?_⟩
      · rintro rfl
        exact List.splitOn_ne_nil '/' tail hb.symm
      · -- the head splits into the names of the path, up to case
        have hhead := congrArg (List.map (List.map Lib.asciiFold)) ha
        rw [← Lib.splitOn_map Lib.asciiFold_eq_slash_iff, hfold,
          Lib.splitOn_map Lib.asciiFold_eq_slash_iff, Path.splitOn_relText hr, List.map_map,
          List.map_map] at hhead
        exact hhead
  · rintro (rfl | ⟨a, rest, hrest, rfl, hsame⟩)
    · exact Or.inl rfl
    · right
      have ha : a ≠ [] := by
        rintro rfl
        exact hr (List.map_eq_nil_iff.mp (Eq.symm hsame))
      exact ⟨_, _, Path.toList_relText_append ha hrest, hsame.relText⟩

theorem inTreeUpToCase_append {root r q : Path} :
    InTreeUpToCase (root ++ r) (root ++ q) ↔ InTreeUpToCase r q := by
  unfold InTreeUpToCase
  rw [List.append_right_inj]
  apply or_congr_right
  constructor
  · rintro ⟨a, rest, hrest, happ, hsame⟩
    -- a path that differs in case is as long, so the root is part of it
    have hlen : root.length ≤ a.length := by
      have hmap := congrArg List.length hsame
      rw [List.length_map, List.length_map, List.length_append] at hmap
      omega
    obtain ⟨a', rfl⟩ := List.prefix_of_prefix_length_le (List.prefix_append root q)
      (happ ▸ List.prefix_append a rest) hlen
    rw [List.append_assoc, List.append_right_inj] at happ
    refine ⟨a', rest, hrest, happ, ?_⟩
    unfold SameUpToCase at hsame
    rw [List.map_append, List.map_append, List.append_right_inj] at hsame
    exact hsame
  · rintro ⟨a, rest, hrest, rfl, hsame⟩
    exact ⟨root ++ a, rest, hrest, (List.append_assoc _ _ _).symm, hsame.append_left root⟩

/-- The same of paths beneath a root. -/
theorem inTree_relativeOf_iff {root p dir : Path} (hp : root <+: p) (hne : p ≠ root)
    (hdir : root <+: dir) :
    Index.inTree (relativeOf p root) (relativeOf dir root) = true ↔ InTreeUpToCase p dir := by
  obtain ⟨r, rfl⟩ := hp
  obtain ⟨q, rfl⟩ := hdir
  have hr : r ≠ [] := by
    rintro rfl
    exact hne (List.append_nil root)
  rw [relativeOf_append, relativeOf_append, inTree_relText_iff hr, inTreeUpToCase_append]

/-- Removing the tree of a path in a directory touches no directory elsewhere. -/
theorem prefix_of_inTree {t : FileTree} {root v dir : Path} (hdistinct : DistinctUpToCase t root)
    (hv : root <+: v) (hne : v ≠ root) (hparent : t.node v.dropLast = some .dir)
    (hdir : root <+: dir) (hnode : t.node dir = some .dir)
    (h : Index.inTree (relativeOf v root) (relativeOf dir root) = true) : v.dropLast <+: dir := by
  obtain ⟨r, rfl⟩ := hv
  obtain ⟨q, rfl⟩ := hdir
  have hr : r ≠ [] := by
    rintro rfl
    exact hne (List.append_nil root)
  rw [relativeOf_append, relativeOf_append] at h
  obtain ⟨a, ha, hsame⟩ : ∃ a, a <+: q ∧ SameUpToCase a r := by
    rcases (inTree_relText_iff hr).mp h with rfl | ⟨a, rest, -, rfl, hsame⟩
    · exact ⟨q, List.prefix_rfl, rfl⟩
    · exact ⟨a, List.prefix_append _ _, hsame⟩
  rw [List.dropLast_append_of_ne_nil hr] at hparent ⊢
  have hpre : root ++ a.dropLast <+: root ++ q :=
    (List.prefix_append_right_inj root).mpr ((List.dropLast_prefix a).trans ha)
  have hanode : t.node (root ++ a.dropLast) = some .dir :=
    (Lib.PathTree.node_of_prefix hpre hnode).elim id And.right
  have hparents := hdistinct _ _ (List.prefix_append _ _) (List.prefix_append _ _) hanode hparent
    (hsame.dropLast.append_left root)
  rwa [← hparents]

end Loku
