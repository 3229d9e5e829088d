import Mathlib.Data.String.Basic

/-!
# Slices of a text by byte positions

A position in a text counts bytes. A slice to or from a position that is no boundary between two
characters does not exist: `none` is what a language panics with that has no such slices. A text
is cut in two at the size of its first part (`sliceTo_append`, `sliceFrom_append`), and the position
of a character is the size of what stands before it (`findByte_append`).
-/

namespace Lib

/-- What stands before a position. -/
def sliceTo (s : String) (i : Nat) : Option String :=
  if h : String.Pos.Raw.IsValid s ⟨i⟩ then some (s.sliceTo (s.pos ⟨i⟩ h)).copy else none

/-- What stands behind a position. -/
def sliceFrom (s : String) (i : Nat) : Option String :=
  if h : String.Pos.Raw.IsValid s ⟨i⟩ then some (s.sliceFrom (s.pos ⟨i⟩ h)).copy else none

/-- The characters of a text with their positions, counted from `i`. -/
def charIndices (i : Nat) : List Char → List (Nat × Char)
  | [] => []
  | c :: cs => (i, c) :: charIndices (i + c.utf8Size) cs

/-- The position of the first occurrence of a character. -/
def findByte (c : Char) (s : String) : Option Nat := (s.find? c).map fun p => p.offset.byteIdx

/-! ## Slices -/

/-- A boundary is the position behind a prefix. -/
theorem isValid_utf8ByteSize (s t : String) :
    String.Pos.Raw.IsValid (s ++ t) ⟨s.utf8ByteSize⟩ :=
  String.Pos.Raw.isValid_iff_exists_append.mpr ⟨s, t, rfl, rfl⟩

theorem splits_utf8ByteSize (s t : String) :
    ((s ++ t).pos ⟨s.utf8ByteSize⟩ (isValid_utf8ByteSize s t)).Splits s t where
  eq_append := rfl
  offset_eq_rawEndPos := rfl

theorem sliceTo_append (s t : String) : sliceTo (s ++ t) s.utf8ByteSize = some s := by
  unfold sliceTo
  rw [dif_pos (isValid_utf8ByteSize s t)]
  exact congrArg some ((String.Pos.splits _).eq_left (splits_utf8ByteSize s t))

theorem sliceFrom_append (s t : String) : sliceFrom (s ++ t) s.utf8ByteSize = some t := by
  unfold sliceFrom
  rw [dif_pos (isValid_utf8ByteSize s t)]
  exact congrArg some ((String.Pos.splits _).eq_right (splits_utf8ByteSize s t))

theorem sliceFrom_eq_some {s t : String} {i : Nat} (h : sliceFrom s i = some t) :
    ∃ before, s = before ++ t ∧ before.utf8ByteSize = i := by
  unfold sliceFrom at h
  split at h
  · rename_i hvalid
    obtain ⟨before, after, rfl, hpos⟩ := String.Pos.Raw.isValid_iff_exists_append.mp hvalid
    obtain rfl : i = before.utf8ByteSize := congrArg String.Pos.Raw.byteIdx hpos
    have hafter := (String.Pos.splits _).eq_right (splits_utf8ByteSize before after)
    obtain rfl := (Option.some.inj h).symm.trans hafter
    exact ⟨before, rfl, rfl⟩
  · cases h

/-- A slice from a later position is shorter. -/
theorem length_lt_of_sliceFrom {s t : String} {i : Nat} (h : sliceFrom s (i + 1) = some t) :
    t.utf8ByteSize < s.utf8ByteSize := by
  obtain ⟨before, rfl, hsize⟩ := sliceFrom_eq_some h
  rw [String.utf8ByteSize_append]
  omega

/-! ## Positions of characters -/

theorem length_charIndices (i : Nat) (cs : List Char) : (charIndices i cs).length = cs.length := by
  induction cs generalizing i with
  | nil => rfl
  | cons c cs ih => rw [charIndices, List.length_cons, ih, List.length_cons]

/-- Where the character behind a prefix stands. -/
theorem charIndices_append (i : Nat) (cs : List Char) (c : Char) (rest : List Char) :
    (charIndices i (cs ++ c :: rest))[cs.length]? =
      some (i + (String.ofList cs).utf8ByteSize, c) := by
  induction cs generalizing i with
  | nil => simp [charIndices]
  | cons d cs ih =>
    have hsize : (String.ofList (d :: cs)).utf8ByteSize =
        d.utf8Size + (String.ofList cs).utf8ByteSize := by
      rw [String.ofList_cons, String.utf8ByteSize_append, String.utf8ByteSize_singleton]
    rw [List.cons_append, charIndices, List.length_cons, List.getElem?_cons_succ, ih, hsize,
      Nat.add_assoc]

/-- A text is cut before each of its characters. -/
theorem sliceFrom_of_charIndices {s : String} {n i : Nat} {c : Char}
    (h : (charIndices 0 s.toList)[n]? = some (i, c)) :
    sliceFrom s i = some (String.ofList (s.toList.drop n)) := by
  have hlt : n < s.toList.length := by
    rw [← length_charIndices 0]
    exact (List.getElem?_eq_some_iff.mp h).1
  have hcut : s.toList = s.toList.take n ++ s.toList[n] :: s.toList.drop (n + 1) := by
    rw [List.getElem_cons_drop, List.take_append_drop]
  have hlen : (s.toList.take n).length = n := List.length_take_of_le hlt.le
  have hpos := charIndices_append 0 (s.toList.take n) s.toList[n] (s.toList.drop (n + 1))
  rw [← hcut, hlen, h, Nat.zero_add] at hpos
  obtain ⟨rfl, -⟩ := Prod.mk.inj (Option.some.inj hpos)
  have hs : String.ofList (s.toList.take n) ++ String.ofList (s.toList.drop n) = s := by
    rw [← String.ofList_append, List.take_append_drop, String.ofList_toList]
  have hslice := sliceFrom_append (String.ofList (s.toList.take n))
    (String.ofList (s.toList.drop n))
  rwa [hs] at hslice

theorem findByte_append {c : Char} {s t : String} (h : c ∉ s.toList) :
    findByte c (s ++ (String.singleton c ++ t)) = some s.utf8ByteSize := by
  have hfind : (s ++ (String.singleton c ++ t)).find? c = some _ :=
    String.find?_char_eq_some_iff_splits.mpr
      ⟨s, t, splits_utf8ByteSize s (String.singleton c ++ t), h⟩
  unfold findByte
  rw [hfind]
  rfl

theorem toList_append_singleton (before : String) (c : Char) (after : String) :
    (before ++ (String.singleton c ++ after)).toList = before.toList ++ c :: after.toList := by
  simp

/-- The first occurrence of a character cuts a text in two. -/
theorem exists_append_of_mem {c : Char} {s : String} (h : c ∈ s.toList) :
    ∃ before after, s = before ++ (String.singleton c ++ after) ∧ c ∉ before.toList := by
  obtain ⟨before, after, heq, hbefore⟩ := List.eq_append_cons_of_mem h
  refine ⟨String.ofList before, String.ofList after, ?_, by rwa [String.toList_ofList]⟩
  rw [← String.toList_inj, toList_append_singleton, String.toList_ofList, String.toList_ofList]
  exact heq

theorem findByte_eq_none {c : Char} {s : String} (h : c ∉ s.toList) : findByte c s = none := by
  unfold findByte
  cases hfind : s.find? c with
  | none => rfl
  | some p =>
    obtain ⟨before, after, hsplits, -⟩ := String.find?_char_eq_some_iff_splits.mp hfind
    refine absurd ?_ h
    rw [hsplits.eq_append, toList_append_singleton]
    exact List.mem_append_right _ List.mem_cons_self

end Lib
