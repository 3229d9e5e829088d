import Mathlib.Data.List.Nodup
import Mathlib.Data.List.Sort
import Mathlib.Data.Prod.Lex

/-!
# Paging through a ranked list

Each page is cut from an answer of its own: all elements by rank, equal ranks in any order
(`Answer`). If the pages are to hold every element exactly once whatever the answers are, they
must reach the end, and no group of equally ranked elements may go over a page boundary
(`pages_perm_iff`): what a cut between two ranks leaves before it is the same in every answer
(`Answer.take_perm`), while a cut inside a group can leave one element on both sides.
-/

namespace Lib

section Paging
variable {α β : Type} [LinearOrder β] {rank : α → β}

/-- An answer to a query by rank. -/
structure Answer (rank : α → β) (l answer : List α) : Prop where
  perm : answer.Perm l
  sorted : answer.Pairwise fun a b => rank a ≤ rank b

/-- The page of `k` elements with the number `j`. -/
def page (answer : List α) (k j : Nat) : List α := (answer.drop (j * k)).take k

/-- The first `n` pages, each of its own answer. -/
def pages (answers : Nat → List α) (k n : Nat) : List α :=
  (List.range n).flatMap fun j => page (answers j) k j

/-- No group of equally ranked elements goes over a boundary between two pages. -/
def TiesOnOnePage (rank : α → β) (l : List α) (k : Nat) : Prop :=
  ∀ a ∈ l, ∀ j, ¬ (l.countP (fun b => rank b < rank a) < j * k ∧
    j * k < l.countP fun b => rank b ≤ rank a)

/-! ## Cuts between two ranks -/

/-- Up to an element that a lower set of ranks holds, it holds all elements. -/
theorem lt_countP {l : List α} (hsorted : l.Pairwise fun a b => rank a ≤ rank b) {i : Nat}
    (hi : i < l.length) {p : α → Bool} (hp : ∀ a, rank a ≤ rank l[i] → p a = true) :
    i < l.countP p := by
  have hall : ∀ a ∈ l.take (i + 1), p a = true := by
    intro a ha
    obtain ⟨m, hm, rfl⟩ := List.mem_iff_getElem.mp ha
    rw [List.length_take] at hm
    rw [List.getElem_take]
    apply hp
    rcases Nat.lt_or_ge m i with hlt | hge
    · exact List.pairwise_iff_getElem.mp hsorted m i (by omega) hi hlt
    · obtain rfl : m = i := by omega
      exact le_rfl
  have hcount : (l.take (i + 1)).countP p = (l.take (i + 1)).length :=
    List.countP_eq_length.mpr hall
  have hle : (l.take (i + 1)).countP p ≤ l.countP p := (List.take_sublist _ _).countP_le
  rw [hcount, List.length_take] at hle
  omega

/-- From an element on that a lower set of ranks does not hold, it holds none. -/
theorem countP_le {l : List α} (hsorted : l.Pairwise fun a b => rank a ≤ rank b) {i : Nat}
    (hi : i < l.length) {p : α → Bool} (hp : ∀ a, rank l[i] ≤ rank a → p a = false) :
    l.countP p ≤ i := by
  have hnone : (l.drop i).countP p = 0 := by
    rw [List.countP_eq_zero]
    intro a ha
    obtain ⟨m, hm, rfl⟩ := List.mem_iff_getElem.mp ha
    rw [List.length_drop] at hm
    rw [List.getElem_drop, hp _ ?_]
    · exact Bool.false_ne_true
    · rcases Nat.eq_zero_or_pos m with rfl | hpos
      · exact le_rfl
      · exact List.pairwise_iff_getElem.mp hsorted i (i + m) hi (by omega) (by omega)
  have hsplit : l.countP p = (l.take i).countP p + (l.drop i).countP p := by
    rw [← List.countP_append, List.take_append_drop]
  have hle : (l.take i).countP p ≤ (l.take i).length := List.countP_le_length
  rw [List.length_take] at hle
  omega

/-- The elements below a rank come first. -/
theorem filter_lt_eq_take {l : List α} (hsorted : l.Pairwise fun a b => rank a ≤ rank b) (x : β) :
    l.filter (fun b => rank b < x) = l.take (l.countP fun b => rank b < x) := by
  induction l with
  | nil => rfl
  | cons a l ih =>
    rw [List.pairwise_cons] at hsorted
    by_cases ha : rank a < x
    · simp [ha, ih hsorted.2]
    · have hnone : ∀ b ∈ l, ¬ rank b < x := fun b hb hlt => ha ((hsorted.1 b hb).trans_lt hlt)
      have hfilter : l.filter (fun b => decide (rank b < x)) = [] :=
        List.filter_eq_nil_iff.mpr fun b hb => by simpa using hnone b hb
      simp [ha, hfilter, List.countP_eq_length_filter]

/-- What stands before a cut that divides no group is the same in every answer. -/
theorem Answer.take_perm {l answer answer' : List α} (h : Answer rank l answer)
    (h' : Answer rank l answer') {m : Nat}
    (hcut : ∀ a ∈ l, ¬ (l.countP (fun b => rank b < rank a) < m ∧
      m < l.countP fun b => rank b ≤ rank a)) :
    (answer.take m).Perm (answer'.take m) := by
  rcases Nat.lt_or_ge m answer.length with hm | hm
  · have hmem : answer[m] ∈ l := h.perm.mem_iff.mp (List.getElem_mem hm)
    have hlow : answer.countP (fun b => rank b < rank answer[m]) ≤ m :=
      countP_le h.sorted hm fun a ha => by simpa using ha
    have hhigh : m < answer.countP fun b => rank b ≤ rank answer[m] :=
      lt_countP h.sorted hm fun a ha => by simpa using ha
    rw [h.perm.countP_eq] at hlow hhigh
    have hcount : l.countP (fun b => rank b < rank answer[m]) = m := by
      have hgroup := hcut _ hmem
      omega
    have htake : ∀ {o : List α}, Answer rank l o →
        o.take m = o.filter fun b => rank b < rank answer[m] := by
      intro o ho
      rw [filter_lt_eq_take ho.sorted, ho.perm.countP_eq, hcount]
    rw [htake h, htake h']
    exact (h.perm.trans h'.perm.symm).filter _
  · have hlen := h.perm.length_eq.trans h'.perm.length_eq.symm
    rw [List.take_of_length_le hm, List.take_of_length_le (hlen ▸ hm)]
    exact h.perm.trans h'.perm.symm

theorem pages_perm_take {l first : List α} {k : Nat} (hfirst : Answer rank l first)
    {answers : Nat → List α} (h : ∀ j, Answer rank l (answers j)) (hties : TiesOnOnePage rank l k)
    (n : Nat) : (pages answers k n).Perm (first.take (n * k)) := by
  induction n with
  | zero => simp [pages]
  | succ n ih =>
    have hbefore := (h n).take_perm hfirst fun a ha => hties a ha n
    have hafter := (h n).take_perm hfirst fun a ha => hties a ha (n + 1)
    have hpages : pages answers k (n + 1) = pages answers k n ++ page (answers n) k n := by
      simp [pages, List.range_succ]
    have hsplit : (answers n).take ((n + 1) * k) =
        (answers n).take (n * k) ++ page (answers n) k n := by
      rw [Nat.succ_mul, List.take_add, page]
    rw [hpages]
    refine .trans ?_ hafter
    rw [hsplit]
    exact (ih.trans hbefore.symm).append_right _

/-! ## Sorting by rank -/

/-- A sort whose order agrees with the ranks gives an answer, whatever it does with equal ones. -/
theorem answer_insertionSort {r : α → α → Prop} [DecidableRel r]
    (hle : ∀ a b, r a b → rank a ≤ rank b) (hge : ∀ a b, ¬ r a b → rank b ≤ rank a)
    (l : List α) : Answer rank l (l.insertionSort r) where
  perm := List.perm_insertionSort r l
  sorted := by
    have hinsert : ∀ (a : α) (o : List α), (o.Pairwise fun b c => rank b ≤ rank c) →
        (o.orderedInsert r a).Pairwise fun b c => rank b ≤ rank c := by
      intro a o
      induction o with
      | nil => simp
      | cons b o ih =>
        intro ho
        have hbo := List.pairwise_cons.mp ho
        rw [List.orderedInsert_cons]
        split
        · rename_i hab
          refine List.pairwise_cons.mpr ⟨fun c hc => ?_, ho⟩
          rcases List.mem_cons.mp hc with rfl | hc
          · exact hle a c hab
          · exact (hle a b hab).trans (hbo.1 c hc)
        · rename_i hab
          refine List.pairwise_cons.mpr ⟨fun c hc => ?_, ih hbo.2⟩
          rcases (List.mem_orderedInsert r).mp hc with rfl | hc
          · exact hge _ b hab
          · exact hbo.1 c hc
    induction l with
    | nil => simp
    | cons a l ih => exact hinsert a _ ih

theorem exists_answer (rank : α → β) (l : List α) : ∃ answer, Answer rank l answer := by
  have hsort : Answer rank l (l.insertionSort fun a b => rank a ≤ rank b) :=
    answer_insertionSort (fun _ _ => id) (fun _ _ h => (not_le.mp h).le) l
  exact ⟨_, hsort⟩

/-- Every answer is that of a sort which settles the ties by the places in the answer. -/
theorem Answer.insertionSort_eq {l answer : List α} (h : Answer rank l answer) {place : α → Nat}
    (hplace : answer.Pairwise fun a b => place a < place b) {r : α → α → Prop} [DecidableRel r]
    (hr : ∀ a b, r a b ↔ rank a < rank b ∨ (rank a = rank b ∧ place a ≤ place b)) :
    l.insertionSort r = answer := by
  have hlex : ∀ a b, r a b ↔ toLex (rank a, place a) ≤ toLex (rank b, place b) := by
    intro a b
    rw [hr, Prod.Lex.toLex_le_toLex]
  have hsort : Answer (fun a => toLex (rank a, place a)) l (l.insertionSort r) :=
    answer_insertionSort (fun a b => (hlex a b).mp)
      (fun a b hab => (not_le.mp fun hle => hab ((hlex a b).mpr hle)).le) l
  have hanswer : answer.Pairwise fun a b => toLex (rank a, place a) ≤ toLex (rank b, place b) := by
    refine List.Pairwise.imp ?_ (h.sorted.and hplace)
    rintro a b ⟨hle, hlt⟩
    rcases hle.lt_or_eq with hrank | hrank
    · exact (hlex a b).mp ((hr a b).mpr (Or.inl hrank))
    · exact (hlex a b).mp ((hr a b).mpr (Or.inr ⟨hrank, hlt.le⟩))
  have hperm : (l.insertionSort r).Perm answer := hsort.perm.trans h.perm.symm
  refine List.Perm.eq_of_pairwise ?_ hsort.sorted hanswer hperm
  intro a b ha hb hab hba
  have hkeys : rank a = rank b ∧ place a = place b := by
    simpa using hab.antisymm hba
  -- the places in the answer tell its elements apart
  refine List.Pairwise.forall_of_forall_of_flip (R := fun a b => place a = place b → a = b)
    (fun _ _ _ => rfl) ?_ ?_ (hperm.mem_iff.mp ha) hb hkeys.2
  · exact hplace.imp fun hlt heq => absurd heq hlt.ne
  · exact hplace.imp fun hlt heq => absurd heq hlt.ne'

/-! ## Cuts inside a group -/

theorem pages_const (answer : List α) (k n : Nat) :
    pages (fun _ => answer) k n = answer.take (n * k) := by
  induction n with
  | zero => simp [pages]
  | succ n ih =>
    rw [Nat.succ_mul, List.take_add, ← ih]
    simp [pages, page, List.range_succ]

theorem mem_page {answer : List α} {k j i : Nat} {a : α} (ha : answer[i]? = some a)
    (hlow : j * k ≤ i) (hhigh : i < j * k + k) : a ∈ page answer k j := by
  refine List.mem_iff_getElem?.mpr ⟨i - j * k, ?_⟩
  rw [page, List.getElem?_take_of_lt (by omega), List.getElem?_drop, ← ha]
  congr 1
  omega

/-- Two neighbours of equal rank may change places. -/
theorem Answer.swap {l before after : List α} {a b : α}
    (h : Answer rank l (before ++ a :: b :: after)) (heq : rank a = rank b) :
    Answer rank l (before ++ b :: a :: after) where
  perm := ((List.Perm.swap a b after).append_left before).trans h.perm
  sorted := by
    have hsorted := h.sorted
    simp only [List.pairwise_append, List.pairwise_cons, List.mem_cons,
      forall_eq_or_imp] at hsorted ⊢
    obtain ⟨hbefore, ⟨⟨-, ha⟩, hb, hafter⟩, hacross⟩ := hsorted
    refine ⟨hbefore, ⟨⟨heq.ge, hb⟩, ha, hafter⟩, fun c hc => ?_⟩
    obtain ⟨hca, hcb, hrest⟩ := hacross c hc
    exact ⟨hcb, hca, hrest⟩

theorem Answer.exists_swapped {l answer : List α} (h : Answer rank l answer) {i : Nat}
    (hi : i + 1 < answer.length) (heq : rank answer[i] = rank answer[i + 1]) :
    ∃ swapped, Answer rank l swapped ∧ swapped[i + 1]? = some answer[i] := by
  have hsplit : answer = answer.take i ++ answer[i] :: answer[i + 1] :: answer.drop (i + 2) := by
    rw [← List.drop_eq_getElem_cons hi, ← List.drop_eq_getElem_cons (by omega),
      List.take_append_drop]
  have hswap := (hsplit ▸ h : Answer rank l (answer.take i ++ _)).swap heq
  refine ⟨_, hswap, ?_⟩
  have hlen : (answer.take i).length = i := by
    rw [List.length_take]
    omega
  rw [List.getElem?_append_right (by omega), hlen]
  simp

/-- A group that goes over a boundary has two elements there. -/
theorem rank_eq_of_straddle {answer : List α}
    (hsorted : answer.Pairwise fun a b => rank a ≤ rank b) {x : β} {i : Nat}
    (hi : i < answer.length) (hlow : answer.countP (fun b => rank b < x) ≤ i)
    (hhigh : i < answer.countP fun b => rank b ≤ x) : rank answer[i] = x := by
  refine le_antisymm (not_lt.mp fun hlt => ?_) (not_lt.mp fun hlt => ?_)
  · have hcount := countP_le (p := fun b => decide (rank b ≤ x)) hsorted hi
      fun a ha => by simpa using hlt.trans_le ha
    omega
  · have hcount := lt_countP (p := fun b => decide (rank b < x)) hsorted hi
      fun a ha => by simpa using ha.trans_lt hlt
    omega

/-- With a group over a boundary two answers can leave one element on both pages. -/
theorem tiesOnOnePage_of_pages_perm {l : List α} (hnodup : l.Nodup) {k n : Nat} (hk : 0 < k)
    (hlen : l.length ≤ n * k)
    (h : ∀ answers : Nat → List α, (∀ j, Answer rank l (answers j)) → (pages answers k n).Perm l) :
    TiesOnOnePage rank l k := by
  rintro a - j ⟨hlow, hhigh⟩
  obtain ⟨first, hfirst⟩ := exists_answer rank l
  rw [← hfirst.perm.countP_eq] at hlow hhigh
  have hcount : first.countP (fun b => rank b ≤ rank a) ≤ first.length := List.countP_le_length
  have hlength : first.length = l.length := hfirst.perm.length_eq
  obtain ⟨j, rfl⟩ : ∃ j', j = j' + 1 := Nat.exists_eq_succ_of_ne_zero (by rintro rfl; omega)
  have hj : j + 1 < n := by
    by_contra hge
    have hmul := Nat.mul_le_mul_right k (Nat.le_of_not_lt hge)
    omega
  have hboundary : (j + 1) * k = j * k + k := Nat.succ_mul j k
  obtain ⟨i, hi⟩ : ∃ i, (j + 1) * k = i + 1 := ⟨(j + 1) * k - 1, by omega⟩
  rw [hi] at hlow hhigh
  have hleft : rank first[i] = rank a :=
    rank_eq_of_straddle hfirst.sorted (by omega) (by omega) (by omega)
  have hright : rank first[i + 1] = rank a :=
    rank_eq_of_straddle hfirst.sorted (by omega) (by omega) hhigh
  obtain ⟨swapped, hswapped, hlater⟩ :=
    hfirst.exists_swapped (by omega) (hleft.trans hright.symm)
  -- the page before the boundary is cut from the one answer, the page after it from the other
  have hpages := h (fun i => if i = j + 1 then swapped else first) fun i => by
    split
    · exact hswapped
    · exact hfirst
  have hdisjoint := (List.nodup_flatMap.mp (hpages.nodup_iff.mpr hnodup)).2
  have hpair := List.pairwise_iff_getElem.mp hdisjoint j (j + 1) (by simp; omega) (by simp; omega)
    (by omega)
  simp only [List.getElem_range, Function.onFun] at hpair
  refine hpair (a := first[i]) (mem_page (i := i) ?_ (by omega) (by omega))
    (mem_page (i := i + 1) ?_ (by omega) (by omega))
  · simp
  · simpa using hlater

/-- The pages hold every element once, whatever the answers are, exactly when they reach the end
and no group of equally ranked elements goes over a boundary. -/
theorem pages_perm_iff {l : List α} (hnodup : l.Nodup) {k : Nat} (hk : 0 < k) (n : Nat) :
    (∀ answers : Nat → List α, (∀ j, Answer rank l (answers j)) → (pages answers k n).Perm l) ↔
      l.length ≤ n * k ∧ TiesOnOnePage rank l k := by
  obtain ⟨first, hfirst⟩ := exists_answer rank l
  constructor
  · intro h
    have hreach : l.length ≤ n * k := by
      have hlen := (h (fun _ => first) fun _ => hfirst).length_eq
      rw [pages_const, List.length_take] at hlen
      omega
    exact ⟨hreach, tiesOnOnePage_of_pages_perm hnodup hk hreach h⟩
  · rintro ⟨hreach, hties⟩ answers hanswers
    have hperm := pages_perm_take hfirst hanswers hties n
    rw [List.take_of_length_le (hfirst.perm.length_eq ▸ hreach)] at hperm
    exact hperm.trans hfirst.perm

/-- Elements that a key tells apart are those of a list when their keys are. -/
theorem perm_of_map_perm {κ : Type} {key : α → κ} {l l' : List α} (hmem : ∀ a ∈ l, a ∈ l')
    (hnodup : (l'.map key).Nodup) (h : (l.map key).Perm (l'.map key)) : l.Perm l' := by
  have hl : l.Nodup := (h.nodup_iff.mpr hnodup).of_map
  refine (List.perm_ext_iff_of_nodup hl hnodup.of_map).mpr fun a => ⟨hmem a, fun ha => ?_⟩
  obtain ⟨b, hb, hkey⟩ := List.mem_map.mp (h.mem_iff.mpr (List.mem_map_of_mem ha))
  rwa [← List.inj_on_of_nodup_map hnodup (hmem b hb) ha hkey]

theorem mem_of_mem_pages {l : List α} {answers : Nat → List α} (h : ∀ j, Answer rank l (answers j))
    {k n : Nat} : ∀ a ∈ pages answers k n, a ∈ l := by
  intro a ha
  obtain ⟨j, -, ha⟩ := List.mem_flatMap.mp ha
  exact (h j).perm.mem_iff.mp (List.mem_of_mem_drop (List.mem_of_mem_take ha))

end Paging

end Lib
