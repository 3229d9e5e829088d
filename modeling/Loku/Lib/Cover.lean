import Mathlib.Data.List.Chain
import Mathlib.Data.List.Basic

/-!
# Minimal covers of a sorted list

A list is read from the left, and an element is kept unless the last one kept covers it. Every
element is covered by a kept one (`exists_covers`). If the list is sorted so that all that an
element covers comes directly after it (`Covering`), a look at the last one kept is enough: the kept
elements are exactly those that no other covers (`mem_uncovered_iff`).
-/

namespace Lib

variable {α : Type}

/-- Covering is an order, and what comes between an element and one that it covers is covered. -/
structure Covering (le covers : α → α → Prop) : Prop where
  refl : ∀ a, covers a a
  trans : ∀ {a b c}, covers a b → covers b c → covers a c
  antisymm : ∀ {a b}, covers a b → covers b a → a = b
  le_of_covers : ∀ {a b}, covers a b → le a b
  convex : ∀ {a b c}, le a b → le b c → covers a c → covers a b

/-- In a sorted list it is enough to look at neighbours. -/
theorem Covering.pairwise_of_isChain {le covers : α → α → Prop} (h : Covering le covers) :
    ∀ l : List α, (l.IsChain fun a b => ¬ covers a b) → l.Pairwise le →
      l.Pairwise fun a b => ¬ covers a b
  | [], _, _ => List.Pairwise.nil
  | [a], _, _ => List.pairwise_singleton _ a
  | a :: b :: l, hchain, hsorted => by
    rw [List.isChain_cons_cons] at hchain
    rw [List.pairwise_cons] at hsorted ⊢
    refine ⟨fun c hc hcovers => ?_, h.pairwise_of_isChain (b :: l) hchain.2 hsorted.2⟩
    have hab := hsorted.1 b List.mem_cons_self
    rcases List.mem_cons.mp hc with rfl | hc
    · exact hchain.1 hcovers
    · exact hchain.1 (h.convex hab ((List.pairwise_cons.mp hsorted.2).1 c hc) hcovers)

variable (covers : α → α → Prop) [DecidableRel covers]

/-- Keep an element unless the last one kept covers it. -/
def keepUncovered (kept : List α) (a : α) : List α :=
  if kept.getLast?.any fun k => covers k a then kept else kept ++ [a]

/-- What is kept of a list. -/
def uncovered (l : List α) : List α := l.foldl (keepUncovered covers) []

/-- An element is kept unless one that covers it is. -/
theorem keepUncovered_cases (kept : List α) (a : α) :
    (keepUncovered covers kept a = kept ∧ ∃ k ∈ kept.getLast?, covers k a) ∨
      (keepUncovered covers kept a = kept ++ [a] ∧ ∀ k ∈ kept.getLast?, ¬ covers k a) := by
  unfold keepUncovered
  cases hlast : kept.getLast? with
  | none => exact Or.inr ⟨rfl, fun k hk => by cases hk⟩
  | some k =>
    rw [Option.any_some]
    split
    · rename_i hka
      exact Or.inl ⟨rfl, k, rfl, of_decide_eq_true hka⟩
    · rename_i hnot
      refine Or.inr ⟨rfl, fun k' hk' hka => hnot ?_⟩
      cases hk'
      exact decide_eq_true hka

/-! ## What is kept covers the list -/

theorem foldl_keepUncovered_sublist (l : List α) :
    ∀ kept : List α, (l.foldl (keepUncovered covers) kept).Sublist (kept ++ l) := by
  induction l with
  | nil =>
    intro kept
    rw [List.append_nil]
    exact List.Sublist.refl _
  | cons a l ih =>
    intro kept
    refine (ih (keepUncovered covers kept a)).trans ?_
    rcases keepUncovered_cases covers kept a with ⟨hkeep, -⟩ | ⟨hkeep, -⟩
    · rw [hkeep]
      exact (List.sublist_cons_self a l).append_left kept
    · rw [hkeep, List.append_assoc]
      exact List.Sublist.refl _

theorem prefix_foldl_keepUncovered (l : List α) :
    ∀ kept : List α, kept <+: l.foldl (keepUncovered covers) kept := by
  induction l with
  | nil => exact fun kept => List.prefix_rfl
  | cons a l ih =>
    intro kept
    refine List.IsPrefix.trans ?_ (ih (keepUncovered covers kept a))
    rcases keepUncovered_cases covers kept a with ⟨hkeep, -⟩ | ⟨hkeep, -⟩
    · exact ⟨[], (List.append_nil kept).trans hkeep.symm⟩
    · exact ⟨[a], hkeep.symm⟩

variable {covers}

theorem covered_foldl_keepUncovered (hrefl : ∀ a, covers a a) {a : α} (l : List α) :
    ∀ kept : List α, a ∈ l → ∃ k ∈ l.foldl (keepUncovered covers) kept, covers k a := by
  induction l with
  | nil => exact fun kept h => absurd h List.not_mem_nil
  | cons b l ih =>
    intro kept h
    rw [List.foldl_cons]
    rcases List.mem_cons.mp h with rfl | h
    · have hpre := prefix_foldl_keepUncovered covers l (keepUncovered covers kept a)
      rcases keepUncovered_cases covers kept a with ⟨hkeep, k, hk, hka⟩ | ⟨hkeep, -⟩
      · refine ⟨k, hpre.subset ?_, hka⟩
        rw [hkeep]
        exact List.mem_of_getLast? hk
      · refine ⟨a, hpre.subset ?_, hrefl a⟩
        rw [hkeep]
        exact List.mem_append_right _ List.mem_cons_self
    · exact ih _ h

theorem mem_of_mem_uncovered {l : List α} {k : α} (h : k ∈ uncovered covers l) : k ∈ l :=
  (foldl_keepUncovered_sublist _ l []).subset h

/-- Every element is covered by a kept one. -/
theorem exists_covers (hrefl : ∀ a, covers a a) {l : List α} {a : α} (h : a ∈ l) :
    ∃ k ∈ uncovered covers l, covers k a :=
  covered_foldl_keepUncovered hrefl l [] h

/-! ## No kept element covers another -/

/-- No kept element covers the next one. -/
theorem isChain_foldl_keepUncovered (l : List α) :
    ∀ kept : List α, (kept.IsChain fun a b => ¬ covers a b) →
      (l.foldl (keepUncovered covers) kept).IsChain fun a b => ¬ covers a b := by
  induction l with
  | nil => exact fun kept h => h
  | cons a l ih =>
    intro kept h
    refine ih _ ?_
    rcases keepUncovered_cases covers kept a with ⟨hkeep, -⟩ | ⟨hkeep, hnot⟩
    · rwa [hkeep]
    · rw [hkeep, List.isChain_append]
      refine ⟨h, List.isChain_singleton a, fun k hk b hb => ?_⟩
      obtain rfl : b = a := by simpa using hb.symm
      exact hnot k hk

section Sorted
variable {le : α → α → Prop} {l : List α}

theorem uncovered_sorted (hsorted : l.Pairwise le) : (uncovered covers l).Pairwise le :=
  hsorted.sublist (foldl_keepUncovered_sublist _ l [])

/-- A kept element covers no later one, itself included: none is kept twice. -/
theorem Covering.pairwise_uncovered (h : Covering le covers) (hsorted : l.Pairwise le) :
    (uncovered covers l).Pairwise fun a b => ¬ covers a b :=
  h.pairwise_of_isChain _ (isChain_foldl_keepUncovered l [] .nil) (uncovered_sorted hsorted)

theorem Covering.uncovered_nodup (h : Covering le covers) (hsorted : l.Pairwise le) :
    (uncovered covers l).Nodup := by
  refine (h.pairwise_uncovered hsorted).imp fun {a b} hnot heq => ?_
  subst heq
  exact hnot (h.refl a)

theorem Covering.eq_of_covers (h : Covering le covers) (hsorted : l.Pairwise le) {k a : α}
    (hk : k ∈ uncovered covers l) (ha : a ∈ uncovered covers l) (hka : covers k a) : k = a := by
  refine List.Pairwise.forall_of_forall_of_flip (R := fun a b => covers a b → a = b)
    (fun _ _ _ => rfl)
    ((h.pairwise_uncovered hsorted).imp fun hnot hc => absurd hc hnot) ?_ hk ha hka
  -- a cover comes before what it covers
  refine (uncovered_sorted hsorted).imp fun {a b} hab hc => ?_
  exact h.antisymm hc (h.convex hab (h.le_of_covers hc) (h.refl a))

/-- What is kept are exactly the elements that no other one covers. -/
theorem Covering.mem_uncovered_iff (h : Covering le covers) (hsorted : l.Pairwise le) {a : α} :
    a ∈ uncovered covers l ↔ a ∈ l ∧ ∀ k ∈ l, covers k a → k = a := by
  constructor
  · intro ha
    refine ⟨mem_of_mem_uncovered ha, fun k hk hka => ?_⟩
    obtain ⟨m, hm, hmk⟩ := exists_covers h.refl hk
    obtain rfl := h.eq_of_covers hsorted hm ha (h.trans hmk hka)
    exact h.antisymm hka hmk
  · rintro ⟨ha, hmin⟩
    obtain ⟨k, hk, hka⟩ := exists_covers h.refl ha
    rwa [← hmin k (mem_of_mem_uncovered hk) hka]

end Sorted

end Lib
