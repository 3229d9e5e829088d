import Mathlib.Data.List.Destutter
import Mathlib.Data.List.Sort
import Mathlib.Order.Basic

/-!
# Sorted groups and sorted sets of a list

`groupBy key as` splits a list into groups by an optional key, in key order, each group in the
list's own order, and the elements without a key. The groups are the ones of an ordered map
that is filled with `entry(key).or_default().push(a)`: their keys ascend
(`groupBy_sorted`), a group is exactly the elements of its key (`mem_groupBy_iff`), and nothing
is lost or repeated (`groupBy_perm`).

`sortDedup` sorts a list and drops neighbouring repetitions, which leaves a strictly ascending
list with the same elements.
-/

namespace Lib

variable {α κ : Type} [LinearOrder κ]

/-! ## Groups -/

/-- Push an element to the group of its key, creating the group in its place. -/
def pushGroup (k : κ) (a : α) : List (κ × List α) → List (κ × List α)
  | [] => [(k, [a])]
  | (k', as) :: groups =>
    if k < k' then (k, [a]) :: (k', as) :: groups
    else if k = k' then (k', as ++ [a]) :: groups
    else (k', as) :: pushGroup k a groups

/-- One element, to its group or to the elements without a key. -/
def groupStep (key : α → Option κ) (acc : List (κ × List α) × List α) (a : α) :
    List (κ × List α) × List α :=
  match key a with
  | some k => (pushGroup k a acc.1, acc.2)
  | none => (acc.1, acc.2 ++ [a])

/-- The groups of a list by an optional key, and the elements without one. -/
def groupBy (key : α → Option κ) (as : List α) : List (κ × List α) × List α :=
  as.foldl (groupStep key) ([], [])

/-- The keys ascend. -/
def KeysAscend (groups : List (κ × List α)) : Prop := groups.Pairwise fun g g' => g.1 < g'.1

theorem key_of_mem_pushGroup {k : κ} {a : α} {groups : List (κ × List α)} {g : κ × List α}
    (h : g ∈ pushGroup k a groups) : g.1 = k ∨ ∃ g' ∈ groups, g'.1 = g.1 := by
  induction groups with
  | nil =>
    rw [pushGroup, List.mem_singleton] at h
    exact Or.inl (h ▸ rfl)
  | cons g' groups ih =>
    obtain ⟨k', as⟩ := g'
    unfold pushGroup at h
    split at h
    · rcases List.mem_cons.mp h with rfl | h
      · exact Or.inl rfl
      · exact Or.inr ⟨g, h, rfl⟩
    · split at h
      · rcases List.mem_cons.mp h with rfl | h
        · exact Or.inr ⟨_, List.mem_cons_self, rfl⟩
        · exact Or.inr ⟨g, List.mem_cons_of_mem _ h, rfl⟩
      · rcases List.mem_cons.mp h with rfl | h
        · exact Or.inr ⟨_, List.mem_cons_self, rfl⟩
        · rcases ih h with hk | ⟨g', hg', hk⟩
          · exact Or.inl hk
          · exact Or.inr ⟨g', List.mem_cons_of_mem _ hg', hk⟩

theorem KeysAscend.pushGroup {k : κ} {a : α} {groups : List (κ × List α)}
    (h : KeysAscend groups) : KeysAscend (pushGroup k a groups) := by
  unfold KeysAscend at h ⊢
  induction groups with
  | nil => exact List.pairwise_singleton _ _
  | cons g groups ih =>
    obtain ⟨k', as⟩ := g
    obtain ⟨hhead, htail⟩ := List.pairwise_cons.mp h
    unfold Lib.pushGroup
    split
    · rename_i hlt
      refine List.pairwise_cons.mpr ⟨?_, h⟩
      intro g hg
      rcases List.mem_cons.mp hg with rfl | hg
      · exact hlt
      · exact hlt.trans (hhead g hg)
    · rename_i hge
      split
      · exact List.pairwise_cons.mpr ⟨hhead, htail⟩
      · rename_i hne
        refine List.pairwise_cons.mpr ⟨?_, ih htail⟩
        intro g hg
        rcases key_of_mem_pushGroup hg with hk | ⟨g', hg', hk⟩
        · show k' < g.1
          rw [hk]
          exact lt_of_le_of_ne (not_lt.mp hge) (Ne.symm hne)
        · show k' < g.1
          rw [← hk]
          exact hhead g' hg'

/-- The members of the group of a key; none when there is no such group. -/
def groupAt (k : κ) (groups : List (κ × List α)) : List α := (groups.lookup k).getD []

theorem groupAt_of_forall_lt {k : κ} {groups : List (κ × List α)} (h : ∀ g ∈ groups, k < g.1) :
    groupAt k groups = [] := by
  unfold groupAt
  have hnone : groups.lookup k = none := by
    rw [List.lookup_eq_none_iff]
    intro g hg
    simpa using (h g hg).ne
  rw [hnone]
  rfl

theorem groupAt_cons (k k' : κ) (as : List α) (groups : List (κ × List α)) :
    groupAt k ((k', as) :: groups) = if k = k' then as else groupAt k groups := by
  unfold groupAt
  by_cases h : k = k'
  · subst h
    simp
  · rw [List.lookup_cons, beq_false_of_ne h, if_neg h]

/-- A push changes the group of its key only. -/
theorem groupAt_pushGroup {k k' : κ} {a : α} {groups : List (κ × List α)}
    (h : KeysAscend groups) :
    groupAt k (pushGroup k' a groups) =
      if k = k' then groupAt k groups ++ [a] else groupAt k groups := by
  induction groups with
  | nil =>
    rw [pushGroup, groupAt_cons]
    split <;> simp [groupAt]
  | cons g groups ih =>
    obtain ⟨k₁, as⟩ := g
    obtain ⟨hhead, htail⟩ := List.pairwise_cons.mp h
    unfold pushGroup
    split
    · rename_i hlt
      rw [groupAt_cons]
      split
      · rename_i hk
        have hnone : groupAt k ((k₁, as) :: groups) = [] := by
          apply groupAt_of_forall_lt
          intro g hg
          rcases List.mem_cons.mp hg with rfl | hg
          · exact hk ▸ hlt
          · exact (hk ▸ hlt).trans (hhead g hg)
        rw [hnone]
        rfl
      · rfl
    · split
      · rename_i hk
        rw [groupAt_cons, groupAt_cons, hk]
        split <;> rfl
      · rename_i hne
        rw [groupAt_cons, groupAt_cons, ih htail]
        split
        · rename_i hk
          rw [if_neg]
          rintro rfl
          exact hne hk
        · rfl

theorem groupAt_of_mem {k : κ} {as : List α} {groups : List (κ × List α)}
    (h : KeysAscend groups) (hmem : (k, as) ∈ groups) : groupAt k groups = as := by
  induction groups with
  | nil => cases hmem
  | cons g groups ih =>
    obtain ⟨hhead, htail⟩ := List.pairwise_cons.mp h
    rw [groupAt_cons]
    rcases List.mem_cons.mp hmem with rfl | hmem
    · exact if_pos rfl
    · rw [if_neg (hhead _ hmem).ne', ih htail hmem]

/-- A key has one group. -/
theorem KeysAscend.filter_key {groups : List (κ × List α)} (h : KeysAscend groups) (k : κ) :
    groups.filter (fun g => g.1 = k) =
      if groups.lookup k = none then [] else [(k, groupAt k groups)] := by
  induction groups with
  | nil => rfl
  | cons g groups ih =>
    obtain ⟨k', as⟩ := g
    obtain ⟨hhead, htail⟩ := List.pairwise_cons.mp h
    rw [List.filter_cons, groupAt_cons]
    by_cases hk : k = k'
    · subst hk
      have hnone : groups.filter (fun g => g.1 = k) = [] := by
        rw [List.filter_eq_nil_iff]
        intro g hg
        simpa using (hhead g hg).ne'
      simp [hnone]
    · rw [List.lookup_cons, beq_false_of_ne hk, if_neg hk, ih htail]
      simp [Ne.symm hk]

theorem mem_of_groupAt_ne_nil {k : κ} {groups : List (κ × List α)}
    (h : groupAt k groups ≠ []) : (k, groupAt k groups) ∈ groups := by
  unfold groupAt at h ⊢
  cases hlookup : groups.lookup k with
  | none => simp [hlookup] at h
  | some as =>
    obtain ⟨l₁, l₂, rfl, -⟩ := List.lookup_eq_some_iff.mp hlookup
    simp

theorem ne_nil_of_mem_pushGroup {k : κ} {a : α} {groups : List (κ × List α)}
    (h : ∀ g ∈ groups, g.2 ≠ []) : ∀ g ∈ pushGroup k a groups, g.2 ≠ [] := by
  induction groups with
  | nil => simp [pushGroup]
  | cons g groups ih =>
    obtain ⟨k', as⟩ := g
    intro g hg
    have htail := ih fun g' hg' => h g' (List.mem_cons_of_mem _ hg')
    unfold pushGroup at hg
    split at hg
    · rcases List.mem_cons.mp hg with rfl | hg
      · exact List.cons_ne_nil _ _
      · exact h g hg
    · split at hg
      · rcases List.mem_cons.mp hg with rfl | hg
        · simp
        · exact h g (List.mem_cons_of_mem _ hg)
      · rcases List.mem_cons.mp hg with rfl | hg
        · exact h _ List.mem_cons_self
        · exact htail g hg

theorem pushGroup_perm (k : κ) (a : α) (groups : List (κ × List α)) :
    ((pushGroup k a groups).flatMap Prod.snd).Perm (groups.flatMap Prod.snd ++ [a]) := by
  induction groups with
  | nil => simp [pushGroup]
  | cons g groups ih =>
    obtain ⟨k', as⟩ := g
    unfold pushGroup
    split
    · simp only [List.flatMap_cons, List.cons_append, List.nil_append]
      exact (List.perm_append_singleton a _).symm
    · split
      · simp only [List.flatMap_cons, List.append_assoc]
        exact List.perm_append_comm.append_left as
      · simp only [List.flatMap_cons, List.append_assoc]
        exact ih.append_left as

/-! ## All elements -/

section GroupBy
variable (key : α → Option κ)

theorem groupBy_concat (as : List α) (a : α) :
    groupBy key (as ++ [a]) = groupStep key (groupBy key as) a := by
  unfold groupBy
  rw [List.foldl_append]
  rfl

theorem groupBy_sorted (as : List α) : KeysAscend (groupBy key as).1 := by
  induction as using List.reverseRecOn with
  | nil => exact List.Pairwise.nil
  | append_singleton as a ih =>
    rw [groupBy_concat]
    unfold groupStep
    split
    · exact ih.pushGroup
    · exact ih

theorem groupAt_groupBy (k : κ) (as : List α) :
    groupAt k (groupBy key as).1 = as.filter fun a => key a = some k := by
  induction as using List.reverseRecOn with
  | nil => rfl
  | append_singleton as a ih =>
    rw [groupBy_concat, List.filter_append, ← ih]
    unfold groupStep
    split
    · rename_i k' hk
      rw [groupAt_pushGroup (groupBy_sorted key as)]
      by_cases h : k = k'
      · subst h
        simp [hk]
      · simp [h, hk, Ne.symm h]
    · rename_i hk
      simp [hk]

theorem groupBy_ne_nil (as : List α) : ∀ g ∈ (groupBy key as).1, g.2 ≠ [] := by
  induction as using List.reverseRecOn with
  | nil => simp [groupBy]
  | append_singleton as a ih =>
    rw [groupBy_concat]
    unfold groupStep
    split
    · exact ne_nil_of_mem_pushGroup ih
    · exact ih

/-- A group is the elements of its key. -/
theorem mem_groupBy_iff {k : κ} {as members : List α} :
    (k, members) ∈ (groupBy key as).1 ↔
      members = (as.filter fun a => key a = some k) ∧ members ≠ [] := by
  rw [← groupAt_groupBy]
  constructor
  · intro h
    exact ⟨(groupAt_of_mem (groupBy_sorted key as) h).symm, groupBy_ne_nil key as _ h⟩
  · rintro ⟨rfl, h⟩
    exact mem_of_groupAt_ne_nil h

/-- Grouping keeps every element. -/
theorem groupBy_perm (as : List α) :
    ((groupBy key as).1.flatMap Prod.snd ++ (groupBy key as).2).Perm as := by
  induction as using List.reverseRecOn with
  | nil => exact List.Perm.refl _
  | append_singleton as a ih =>
    rw [groupBy_concat]
    unfold groupStep
    split
    · refine ((pushGroup_perm _ a _).append_right _).trans ?_
      rw [List.append_assoc]
      refine (List.perm_append_comm.append_left _).trans ?_
      rw [← List.append_assoc]
      exact ih.append_right [a]
    · rw [← List.append_assoc]
      exact ih.append_right [a]

end GroupBy

/-! ## Sorted and without repetition -/

/-- `sort` followed by `dedup`. -/
def sortDedup (ks : List κ) : List κ := (ks.insertionSort (· ≤ ·)).destutter (· ≠ ·)

theorem mem_destutter'_ne {a x : κ} {ks : List κ} :
    x ∈ ks.destutter' (· ≠ ·) a ↔ x = a ∨ x ∈ ks := by
  induction ks generalizing a with
  | nil => simp
  | cons k ks ih =>
    by_cases h : a ≠ k
    · rw [List.destutter'_cons_pos _ h, List.mem_cons, List.mem_cons, ih]
    · rw [List.destutter'_cons_neg _ h, ih, List.mem_cons, ← not_not.mp h]
      tauto

theorem mem_sortDedup {x : κ} {ks : List κ} : x ∈ sortDedup ks ↔ x ∈ ks := by
  have hdestutter : ∀ l : List κ, x ∈ l.destutter (· ≠ ·) ↔ x ∈ l := by
    intro l
    cases l with
    | nil => simp
    | cons a l => rw [List.destutter_cons', mem_destutter'_ne, List.mem_cons]
  unfold sortDedup
  rw [hdestutter, List.mem_insertionSort]

theorem pairwise_lt_of_le_of_ne {ks : List κ} (hle : ks.Pairwise (· ≤ ·))
    (hne : ks.IsChain (· ≠ ·)) : ks.Pairwise (· < ·) := by
  induction ks with
  | nil => exact List.Pairwise.nil
  | cons a ks ih =>
    obtain ⟨hhead, htail⟩ := List.pairwise_cons.mp hle
    cases ks with
    | nil => exact List.pairwise_singleton _ _
    | cons b ks =>
      obtain ⟨hab, hchain⟩ := List.isChain_cons_cons.mp hne
      have hlt : a < b := lt_of_le_of_ne (hhead b List.mem_cons_self) hab
      refine List.pairwise_cons.mpr ⟨?_, ih htail hchain⟩
      intro c hc
      rcases List.mem_cons.mp hc with rfl | hc
      · exact hlt
      · exact hlt.trans_le ((List.pairwise_cons.mp htail).1 c hc)

theorem sortDedup_ascending (ks : List κ) : (sortDedup ks).Pairwise (· < ·) :=
  pairwise_lt_of_le_of_ne
    ((List.pairwise_insertionSort (· ≤ ·) ks).sublist (List.destutter_sublist _ _))
    (List.isChain_destutter _ _)

end Lib
