import Mathlib.Data.List.Infix
import Mathlib.Data.List.Basic

/-!
# Splitting and reading texts

Texts are lists of characters here (`String.toList`), so that the facts about them are facts
about lists. `rsplitOnce sep` cuts a list at the last occurrence of `sep`, the way a file
name is cut at its last dot; `readNat` and `readInt` read a decimal number and undo its
printing; `boundedPrefix` takes a prefix by its length in UTF-8 bytes.
-/

namespace Lib

/-! ## The last occurrence of a separator -/

section RSplit
variable {α : Type} [DecidableEq α]

/-- Cut at the last occurrence of `sep`: what is before it and what is after it. -/
def rsplitOnce (sep : List α) : List α → Option (List α × List α)
  | [] => none
  | c :: cs =>
    match rsplitOnce sep cs with
    | some (before, after) => some (c :: before, after)
    | none => if sep <+: c :: cs then some ([], (c :: cs).drop sep.length) else none

theorem rsplitOnce_eq_append {sep xs before after : List α}
    (h : rsplitOnce sep xs = some (before, after)) : xs = before ++ sep ++ after := by
  induction xs generalizing before with
  | nil => cases h
  | cons c cs ih =>
    unfold rsplitOnce at h
    cases hrec : rsplitOnce sep cs with
    | some p =>
      obtain ⟨b, a⟩ := p
      rw [hrec] at h
      cases h
      rw [ih hrec]
      rfl
    | none =>
      rw [hrec] at h
      dsimp only at h
      split at h
      · rename_i hpre
        cases h
        obtain ⟨rest, hrest⟩ := hpre
        rw [← hrest, List.drop_left]
        rfl
      · cases h

theorem rsplitOnce_singleton_eq_none_iff {c : α} {xs : List α} :
    rsplitOnce [c] xs = none ↔ c ∉ xs := by
  induction xs with
  | nil => simp [rsplitOnce]
  | cons x xs ih =>
    unfold rsplitOnce
    cases hr : rsplitOnce [c] xs with
    | some p =>
      have hmem : c ∈ xs := by
        by_contra hc
        rw [ih.mpr hc] at hr
        cases hr
      simp [hmem]
    | none =>
      have hmem := ih.mp hr
      simp [List.cons_prefix_cons, hmem]

theorem rsplitOnce_eq_none_of_not_mem {c : α} {sep xs : List α} (h : c ∉ xs) :
    rsplitOnce (c :: sep) xs = none := by
  induction xs with
  | nil => rfl
  | cons x xs ih =>
    rw [List.mem_cons, not_or] at h
    simp [rsplitOnce, ih h.2, List.cons_prefix_cons, h.1]

/-- A list is cut at a separator whose first element does not occur again. -/
theorem rsplitOnce_append {c : α} {sep before after : List α} (h : c ∉ sep ++ after) :
    rsplitOnce (c :: sep) (before ++ c :: sep ++ after) = some (before, after) := by
  induction before with
  | nil =>
    have hlast : rsplitOnce (c :: sep) (sep ++ after) = none := rsplitOnce_eq_none_of_not_mem h
    simp [rsplitOnce, hlast]
  | cons b bs ih =>
    simp only [List.cons_append, List.append_assoc] at ih ⊢
    simp [rsplitOnce, ih]

/-- A list whose part after some `c` has no further `c` is cut there. -/
theorem rsplitOnce_singleton_append {c : α} {before after : List α} (h : c ∉ after) :
    rsplitOnce [c] (before ++ c :: after) = some (before, after) := by
  have hcut : rsplitOnce [c] (before ++ [c] ++ after) = some (before, after) := rsplitOnce_append h
  simpa using hcut

/-- Cutting at one element leaves none of it behind the cut. -/
theorem rsplitOnce_singleton_eq_some_iff {c : α} {xs before after : List α} :
    rsplitOnce [c] xs = some (before, after) ↔ xs = before ++ c :: after ∧ c ∉ after := by
  constructor
  · intro h
    refine ⟨by simpa using rsplitOnce_eq_append h, ?_⟩
    induction xs generalizing before with
    | nil => cases h
    | cons x xs ih =>
      unfold rsplitOnce at h
      cases hrec : rsplitOnce [c] xs with
      | some p =>
        simp only [hrec, Option.some.injEq, Prod.mk.injEq] at h
        exact ih (hrec.trans (congrArg some (Prod.ext rfl h.2)))
      | none =>
        have hmem : c ∉ xs := rsplitOnce_singleton_eq_none_iff.mp hrec
        simp only [hrec, Option.ite_none_right_eq_some, Option.some.injEq, Prod.mk.injEq] at h
        simpa [← h.2.2] using hmem
  · rintro ⟨rfl, h⟩
    exact rsplitOnce_singleton_append h

end RSplit

/-- Splitting after a map that moves nothing onto the separator or away from it. -/
theorem splitOn_map {α : Type} [DecidableEq α] {f : α → α} {c : α} (hf : ∀ x, f x = c ↔ x = c)
    (l : List α) : (l.map f).splitOn c = (l.splitOn c).map (List.map f) := by
  induction l with
  | nil => rfl
  | cons x xs ih =>
    rw [List.map_cons, List.splitOn_cons_eq_if_modifyHead, List.splitOn_cons_eq_if_modifyHead, ih]
    by_cases hx : x = c
    · simp [hx, (hf c).mpr rfl]
    · have hfx : f x ≠ c := fun h => hx ((hf x).mp h)
      obtain ⟨part, parts, hparts⟩ := List.exists_cons_of_ne_nil (List.splitOn_ne_nil c xs)
      simp [hx, hfx, hparts]

/-- Mapping what is put together is putting together what is mapped. -/
theorem map_intercalate {α β : Type} (f : α → β) (sep : List α) : ∀ parts : List (List α),
    (sep.intercalate parts).map f = (sep.map f).intercalate (parts.map (List.map f))
  | [] => rfl
  | [_] => by simp
  | part :: next :: parts => by
    have hrest := map_intercalate f sep (next :: parts)
    simp only [List.map_cons] at hrest ⊢
    rw [List.intercalate_cons_cons, List.intercalate_cons_cons, List.map_append, List.map_append,
      hrest]

/-- The first part of a text is what stands before the first separator. -/
theorem head?_splitOn {α : Type} [DecidableEq α] (c : α) (l : List α) :
    (l.splitOn c).head? = some (l.takeWhile (· ≠ c)) := by
  induction l with
  | nil => rfl
  | cons x xs ih =>
    rw [List.splitOn_cons_eq_if_modifyHead]
    by_cases hx : x = c
    · simp [hx]
    · obtain ⟨part, parts, hparts⟩ := List.exists_cons_of_ne_nil (List.splitOn_ne_nil c xs)
      rw [hparts] at ih
      simp only [List.head?_cons, Option.some.injEq] at ih
      simp [hx, hparts, ih]

/-- The second part of a text stands between its first two separators. -/
theorem getElem?_one_splitOn {α : Type} [DecidableEq α] {c : α} {before : List α}
    (h : c ∉ before) (after : List α) :
    ((before ++ c :: after).splitOn c)[1]? = some (after.takeWhile (· ≠ c)) := by
  rw [List.splitOn_append_cons_self_of_not_mem h, List.getElem?_cons_succ,
    ← List.head?_eq_getElem?, head?_splitOn]

theorem intercalate_append_cons {α : Type} (sep head part : List α) (parts : List (List α)) :
    sep.intercalate ((head ++ part) :: parts) = head ++ sep.intercalate (part :: parts) := by
  cases parts with
  | nil => simp
  | cons next parts => simp [List.intercalate_cons_cons]

theorem intercalate_append_of_ne_nil {α : Type} (sep : List α) {parts rest : List (List α)}
    (h : parts ≠ []) (hrest : rest ≠ []) :
    sep.intercalate (parts ++ rest) = sep.intercalate parts ++ sep ++ sep.intercalate rest := by
  induction parts with
  | nil => exact absurd rfl h
  | cons part parts ih =>
    rw [List.cons_append]
    cases parts with
    | nil => rw [List.nil_append, List.intercalate_cons_of_ne_nil hrest, List.intercalate_singleton]
    | cons next parts =>
      rw [List.cons_append, List.intercalate_cons_cons, ← List.cons_append, ih (by simp),
        List.intercalate_cons_cons]
      simp

/-- The parts of a text begin with those of another exactly when the text goes on behind it with
a separator, or is it. -/
theorem splitOn_prefix_splitOn_iff {α : Type} [DecidableEq α] {sep : α} {l m : List α} :
    l.splitOn sep <+: m.splitOn sep ↔ m = l ∨ ∃ tail, m = l ++ sep :: tail := by
  constructor
  · rintro ⟨rest, hrest⟩
    have hm : [sep].intercalate (m.splitOn sep) = m := List.intercalate_splitOn sep
    rw [← hrest] at hm
    cases rest with
    | nil =>
      left
      rw [← hm, List.append_nil, List.intercalate_splitOn]
    | cons part parts =>
      right
      refine ⟨[sep].intercalate (part :: parts), ?_⟩
      rw [← hm, intercalate_append_of_ne_nil _ (List.splitOn_ne_nil sep l) (by simp),
        List.intercalate_splitOn]
      simp
  · rintro (rfl | ⟨tail, rfl⟩)
    · exact List.prefix_rfl
    · rw [List.splitOn_append_cons_self]
      exact List.prefix_append _ _

/-- Rewriting the characters between the separators. -/
theorem intercalate_flatMap_splitOn {α : Type} [DecidableEq α] (f : α → List α) (sep : α)
    (l : List α) : [sep].intercalate ((l.splitOn sep).map (List.flatMap f)) =
      l.flatMap fun c => if c = sep then [sep] else f c := by
  induction l with
  | nil => rfl
  | cons x xs ih =>
    obtain ⟨part, parts, hparts⟩ := List.exists_cons_of_ne_nil (List.splitOn_ne_nil sep xs)
    rw [hparts, List.map_cons] at ih
    rw [List.splitOn_cons_eq_if_modifyHead, List.flatMap_cons, ← ih, hparts]
    by_cases hx : x = sep
    · simp [hx, List.intercalate_cons_cons]
    · simp [hx, intercalate_append_cons]

/-! ## Words -/

section Words
variable {α : Type}

/-- The nonempty parts between separators. -/
def words (isSep : α → Bool) (l : List α) : List (List α) :=
  (l.splitOnP isSep).filter fun part => !part.isEmpty

theorem flatten_splitOnP (isSep : α → Bool) (l : List α) :
    (l.splitOnP isSep).flatten = l.filter fun c => !isSep c := by
  induction l with
  | nil => rfl
  | cons c cs ih =>
    rw [List.splitOnP_cons_eq_if_modifyHead]
    by_cases hc : isSep c = true
    · simp [hc, ih]
    · obtain ⟨part, parts, hparts⟩ := List.exists_cons_of_ne_nil (List.splitOnP_ne_nil isSep cs)
      rw [hparts, List.flatten_cons] at ih
      simp [hc, hparts, ih]

/-- The words hold exactly the characters that are no separators. -/
theorem flatten_words (isSep : α → Bool) (l : List α) :
    (words isSep l).flatten = l.filter fun c => !isSep c := by
  rw [words, List.flatten_filter_not_isEmpty, flatten_splitOnP]

theorem ne_nil_of_mem_words {isSep : α → Bool} {l word : List α} (h : word ∈ words isSep l) :
    word ≠ [] := by
  have hempty := (List.mem_filter.mp h).2
  simpa using hempty

/-- There is a word unless every character is a separator. -/
theorem words_eq_nil_iff {isSep : α → Bool} {l : List α} :
    words isSep l = [] ↔ ∀ c ∈ l, isSep c = true := by
  have hflat : words isSep l = [] ↔ (words isSep l).flatten = [] := by
    constructor
    · intro h
      rw [h, List.flatten_nil]
    · intro h
      rw [List.flatten_eq_nil_iff] at h
      by_contra hne
      obtain ⟨word, hword⟩ := List.exists_mem_of_ne_nil _ hne
      exact ne_nil_of_mem_words hword (h word hword)
  rw [hflat, flatten_words, List.filter_eq_nil_iff]
  simp

/-- Joined parts, less the separators. -/
theorem filter_intercalate {keep : α → Bool} {sep : List α} (hsep : ∀ c ∈ sep, keep c = false)
    (parts : List (List α)) : (sep.intercalate parts).filter keep = parts.flatten.filter keep := by
  have hnone : sep.filter keep = [] := List.filter_eq_nil_iff.mpr fun c hc => by simp [hsep c hc]
  induction parts with
  | nil => rfl
  | cons part parts ih =>
    cases parts with
    | nil => simp
    | cons next parts =>
      rw [List.intercalate_cons_cons, List.filter_append, List.filter_append, hnone, ih]
      simp

end Words

/-! ## Decimal numbers -/

/-- A nonempty run of decimal digits, read as a number. -/
def readNat (l : List Char) : Option Nat :=
  if l ≠ [] ∧ l.all Char.isDigit then some (Nat.ofDigitChars 10 l 0) else none

/-- A number with an optional sign. -/
def readInt : List Char → Option Int
  | '-' :: l => (readNat l).map fun n : Nat => -(n : Int)
  | '+' :: l => (readNat l).map Int.ofNat
  | l => (readNat l).map Int.ofNat

theorem readNat_repr (n : Nat) : readNat n.repr.toList = some n := by
  rw [Nat.toList_repr, readNat, if_pos]
  · rw [Nat.ofDigitChars_ten_toDigits]
  · refine ⟨Nat.toDigits_ne_nil, ?_⟩
    rw [List.all_eq_true]
    intro c hc
    exact Nat.isDigit_of_mem_toDigits (by decide) (by decide) hc

theorem readInt_of_readNat {l : List Char} {n : Nat} (h : readNat l = some n) :
    readInt l = some (n : Int) := by
  unfold readInt
  split
  · simp [readNat] at h
  · simp [readNat] at h
  · rw [h]
    rfl

/-- Reading undoes printing. -/
theorem readInt_repr (n : Nat) : readInt n.repr.toList = some (n : Int) :=
  readInt_of_readNat (readNat_repr n)

theorem readInt_toString (i : Int) : readInt (toString i).toList = some i := by
  cases i with
  | ofNat n => exact readInt_repr n
  | negSucc n =>
    have htext : (toString (Int.negSucc n)).toList = '-' :: (n + 1).repr.toList := by
      change ("-" ++ (n + 1).repr).toList = _
      rw [String.toList_append]
      rfl
    rw [htext]
    change (readNat (n + 1).repr.toList).map (fun n : Nat => -(n : Int)) = _
    rw [readNat_repr]
    rfl

/-- A natural number is printed in digits. -/
theorem isDigit_of_mem_toString {n : Nat} {c : Char} (h : c ∈ (toString (n : Int)).toList) :
    c.isDigit = true := by
  change c ∈ n.repr.toList at h
  rw [Nat.toList_repr] at h
  exact Nat.isDigit_of_mem_toDigits (by decide) (by decide) h

/-! ## Prefixes by byte length -/

/-- The prefix of `n` UTF-8 bytes, when the text is that long and the cut falls between two
characters. -/
def boundedPrefix : List Char → Nat → Option (List Char)
  | _, 0 => some []
  | [], _ + 1 => none
  | c :: cs, n + 1 =>
    if c.utf8Size ≤ n + 1 then (boundedPrefix cs (n + 1 - c.utf8Size)).map (c :: ·) else none

/-- Characters of one byte each are cut off by their number. -/
theorem boundedPrefix_append_of_ascii {pre : List Char} (h : ∀ c ∈ pre, c.utf8Size = 1)
    (rest : List Char) : boundedPrefix (pre ++ rest) pre.length = some pre := by
  induction pre with
  | nil => cases rest <;> rfl
  | cons c cs ih =>
    have hc : c.utf8Size = 1 := h c List.mem_cons_self
    have hcs := ih fun d hd => h d (List.mem_cons_of_mem c hd)
    simp [boundedPrefix, hc, hcs]

/-- The letter case of a character does not change its length. -/
theorem utf8Size_toLower (c : Char) : c.toLower.utf8Size = c.utf8Size := by
  unfold Char.toLower
  split
  · rename_i h
    have hA : 'A'.val.toNat = 65 := by decide
    have hZ : 'Z'.val.toNat = 90 := by decide
    have hshift : ('a'.val - 'A'.val).toNat = 32 := by decide
    have hmax : (127 : UInt32).toNat = 127 := by decide
    simp only [ge_iff_le, UInt32.le_iff_toNat_le] at h
    have hc : c.utf8Size = 1 := by
      rw [Char.utf8Size_eq_one_iff, UInt32.le_iff_toNat_le]
      omega
    rw [hc, Char.utf8Size_eq_one_iff, UInt32.le_iff_toNat_le, UInt32.toNat_add]
    omega
  · rfl

end Lib
