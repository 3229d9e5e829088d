import Loku.Disc

/-!
# The grammar of rip names

`parseRipName` looks for the last dot, the last `_t` and a trailing `_title`. `IsStem` and
`RipGrammar` say without any search what it reads: the text before the last dot is
`HEAD_t<digits>`, or the whole of it is the prefix (`parseRipName_iff`). Neither a dot in the
clean title nor a `_t` or a `_title` in it can be mistaken for the ripper's own, so reading undoes
the naming `CLEAN_title_t<n>.<ext>` (`parseRipName_ripFileName`).
-/

namespace Loku

/-- The part of a file name before its last dot, or all of it. -/
def IsStem (stem fileName : List Char) : Prop :=
  (∃ ext, '.' ∉ ext ∧ fileName = stem ++ '.' :: ext) ∨ ('.' ∉ fileName ∧ stem = fileName)

/-- A nonempty run of ASCII digits with a value that is a `u32`. -/
structure TitleDigits (digits : List Char) (n : Nat) : Prop where
  nonempty : digits ≠ []
  isDigit : ∀ c ∈ digits, c.isDigit = true
  value : Nat.ofDigitChars 10 digits 0 = n
  isU32 : n < UInt32.size

/-- A text without one trailing `_title`. -/
def DropsTitle (head pfx : List Char) : Prop :=
  head = pfx ++ "_title".toList ∨ (¬ "_title".toList <:+ head ∧ pfx = head)

/-- What a stem says: `HEAD_t<digits>`, or a prefix and no index. -/
inductive RipGrammar (stem : List Char) : RipName → Prop
  | indexed {head digits pfx : List Char} {n : Nat} (hstem : stem = head ++ "_t".toList ++ digits)
    (hdigits : TitleDigits digits n) (hpfx : DropsTitle head pfx) :
    RipGrammar stem { pfx := String.ofList pfx, titleIndex := some n }
  | singleton
    (hnot : ∀ head digits n, stem = head ++ "_t".toList ++ digits → ¬ TitleDigits digits n) :
    RipGrammar stem { pfx := String.ofList stem, titleIndex := none }

/-! ## Reading a stem -/

theorem TitleDigits.readNat {digits : List Char} {n : Nat} (h : TitleDigits digits n) :
    Lib.readNat digits = some n := by
  unfold Lib.readNat
  rw [if_pos ⟨h.nonempty, List.all_eq_true.mpr h.isDigit⟩, h.value]

theorem titleDigits_iff {digits : List Char} {n : Nat} :
    TitleDigits digits n ↔ Lib.readNat digits = some n ∧ n < UInt32.size := by
  constructor
  · intro h
    exact ⟨h.readNat, h.isU32⟩
  · rintro ⟨hread, hlt⟩
    unfold Lib.readNat at hread
    split at hread
    · rename_i h
      exact ⟨h.1, List.all_eq_true.mp h.2, Option.some.inj hread, hlt⟩
    · cases hread

/-- Behind the last `_t` of a rip name come its digits: they hold no further `_`. -/
theorem TitleDigits.underscore_not_mem {digits : List Char} {n : Nat} (h : TitleDigits digits n) :
    '_' ∉ 't' :: digits := by
  rw [List.mem_cons, not_or]
  refine ⟨by decide, fun hmem => ?_⟩
  have hdigit := h.isDigit '_' hmem
  revert hdigit
  decide

theorem splitTitleIndex_eq_some_iff {stem head : List Char} {n : Nat} :
    splitTitleIndex stem = some (head, n) ↔
      ∃ digits, stem = head ++ "_t".toList ++ digits ∧ TitleDigits digits n := by
  unfold splitTitleIndex
  simp only [Option.bind_eq_some_iff, Option.map_eq_some_iff, Option.filter_eq_some_iff,
    decide_eq_true_eq, Prod.mk.injEq, Prod.exists]
  constructor
  · rintro ⟨before, digits, hsplit, m, ⟨hread, hlt⟩, rfl, rfl⟩
    exact ⟨digits, Lib.rsplitOnce_eq_append hsplit, titleDigits_iff.mpr ⟨hread, hlt⟩⟩
  · rintro ⟨digits, rfl, hdigits⟩
    have hsplit : Lib.rsplitOnce ['_', 't'] (head ++ ['_', 't'] ++ digits) = some (head, digits) :=
      Lib.rsplitOnce_append (by simpa using hdigits.underscore_not_mem)
    exact ⟨head, digits, hsplit, n, ⟨hdigits.readNat, hdigits.isU32⟩, rfl, rfl⟩

theorem dropsTitle_iff {head pfx : List Char} :
    DropsTitle head pfx ↔ stripSuffix "_title".toList head = pfx := by
  unfold DropsTitle stripSuffix
  constructor
  · rintro (rfl | ⟨hnot, rfl⟩)
    · rw [if_pos (List.suffix_append _ _), List.length_append, Nat.add_sub_cancel, List.take_left]
    · rw [if_neg hnot]
  · rintro rfl
    split
    · rename_i h
      obtain ⟨before, rfl⟩ := h
      left
      rw [List.length_append, Nat.add_sub_cancel, List.take_left]
    · rename_i h
      exact Or.inr ⟨h, rfl⟩

/-- The stem that `parseRipName` takes apart. -/
theorem isStem_iff {stem fileName : List Char} : IsStem stem fileName ↔
    (∃ ext, Lib.rsplitOnce ['.'] fileName = some (stem, ext)) ∨
      (Lib.rsplitOnce ['.'] fileName = none ∧ stem = fileName) := by
  unfold IsStem
  simp only [Lib.rsplitOnce_singleton_eq_some_iff, Lib.rsplitOnce_singleton_eq_none_iff, and_comm]

theorem IsStem.unique {stem stem' fileName : List Char} (h : IsStem stem fileName)
    (h' : IsStem stem' fileName) : stem = stem' := by
  rw [isStem_iff] at h h'
  rcases h with ⟨ext, h⟩ | ⟨h, rfl⟩
  · rcases h' with ⟨ext', h'⟩ | ⟨h', rfl⟩
    · rw [h] at h'
      cases h'
      rfl
    · rw [h] at h'
      cases h'
  · rcases h' with ⟨ext', h'⟩ | ⟨h', rfl⟩
    · rw [h] at h'
      cases h'
    · rfl

/-- What `parseRipName` makes of a stem. -/
def readStem (stem : List Char) : RipName :=
  match splitTitleIndex stem with
  | none => { pfx := String.ofList stem, titleIndex := none }
  | some (head, index) =>
    { pfx := String.ofList (stripSuffix "_title".toList head), titleIndex := some index }

theorem parseRipName_eq_readStem (fileName : String) :
    ∃ stem, IsStem stem fileName.toList ∧ parseRipName fileName = readStem stem := by
  unfold parseRipName
  cases hsplit : Lib.rsplitOnce ['.'] fileName.toList with
  | none => exact ⟨_, isStem_iff.mpr (Or.inr ⟨hsplit, rfl⟩), rfl⟩
  | some p => exact ⟨p.1, isStem_iff.mpr (Or.inl ⟨p.2, hsplit⟩), rfl⟩

theorem readStem_of_titleDigits {head digits : List Char} {n : Nat} (h : TitleDigits digits n) :
    readStem (head ++ "_t".toList ++ digits) =
      { pfx := String.ofList (stripSuffix "_title".toList head), titleIndex := some n } := by
  unfold readStem
  rw [splitTitleIndex_eq_some_iff.mpr ⟨digits, rfl, h⟩]

theorem readStem_of_not_titleDigits {stem : List Char}
    (hnot : ∀ head digits n, stem = head ++ "_t".toList ++ digits → ¬ TitleDigits digits n) :
    readStem stem = { pfx := String.ofList stem, titleIndex := none } := by
  unfold readStem
  cases hsplit : splitTitleIndex stem with
  | none => rfl
  | some p =>
    obtain ⟨digits, hstem, hdigits⟩ := splitTitleIndex_eq_some_iff.mp hsplit
    exact absurd hdigits (hnot p.1 digits p.2 hstem)

theorem ripGrammar_iff {stem : List Char} {name : RipName} :
    RipGrammar stem name ↔ readStem stem = name := by
  constructor
  · rintro (⟨rfl, hdigits, hpfx⟩ | hnot)
    · rw [readStem_of_titleDigits hdigits, dropsTitle_iff.mp hpfx]
    · exact readStem_of_not_titleDigits hnot
  · rintro rfl
    by_cases h : ∃ head digits n, stem = head ++ "_t".toList ++ digits ∧ TitleDigits digits n
    · obtain ⟨head, digits, n, rfl, hdigits⟩ := h
      rw [readStem_of_titleDigits hdigits]
      exact .indexed rfl hdigits (dropsTitle_iff.mpr rfl)
    · have hnot : ∀ head digits n, stem = head ++ "_t".toList ++ digits →
          ¬ TitleDigits digits n :=
        fun head digits n hstem hdigits => h ⟨head, digits, n, hstem, hdigits⟩
      rw [readStem_of_not_titleDigits hnot]
      exact .singleton hnot

/-- The parser reads the grammar. -/
theorem parseRipName_iff {fileName : String} {name : RipName} : parseRipName fileName = name ↔
    ∃ stem, IsStem stem fileName.toList ∧ RipGrammar stem name := by
  obtain ⟨stem, hstem, hparse⟩ := parseRipName_eq_readStem fileName
  rw [hparse]
  constructor
  · intro hname
    exact ⟨stem, hstem, ripGrammar_iff.mpr hname⟩
  · rintro ⟨stem', hstem', hname⟩
    rw [hstem.unique hstem']
    exact ripGrammar_iff.mp hname

/-! ## The ripper's names -/

/-- The name that the ripper gives a title: the disc's clean title, MakeMKV's `title_t` and the
title's number, padded with zeros, and an extension. -/
def ripFileName (clean : String) (n : UInt32) (zeros : Nat)
    (ext : { ext : String // '.' ∉ ext.toList }) : String :=
  clean ++ "_title_t" ++ String.ofList (List.replicate zeros '0') ++ n.toNat.repr ++ "." ++ ext.1

theorem titleDigits_padded (n : UInt32) (zeros : Nat) :
    TitleDigits (List.replicate zeros '0' ++ n.toNat.repr.toList) n.toNat where
  nonempty := by simp [Nat.toList_repr, Nat.toDigits_ne_nil]
  isDigit := by
    intro c hc
    rcases List.mem_append.mp hc with hc | hc
    · rw [List.eq_of_mem_replicate hc]
      decide
    · rw [Nat.toList_repr] at hc
      exact Nat.isDigit_of_mem_toDigits (by decide) (by decide) hc
  value := by
    rw [Nat.ofDigitChars_append, Nat.ofDigitChars_replicate_zero, Nat.toList_repr]
    simp
  isU32 := n.toNat_lt

theorem parseRipName_ripFileName (clean : String) (n : UInt32) (zeros : Nat)
    (ext : { ext : String // '.' ∉ ext.toList }) :
    parseRipName (ripFileName clean n zeros ext) =
      { pfx := clean, titleIndex := some n.toNat } := by
  have hdrops : DropsTitle (clean.toList ++ "_title".toList) clean.toList := Or.inl rfl
  have hname : RipGrammar (clean.toList ++ "_title".toList ++ "_t".toList ++
      (List.replicate zeros '0' ++ n.toNat.repr.toList))
      ⟨String.ofList clean.toList, some n.toNat⟩ :=
    .indexed rfl (titleDigits_padded n zeros) hdrops
  rw [String.ofList_toList] at hname
  refine parseRipName_iff.mpr ⟨_, Or.inl ⟨ext.1.toList, ext.2, ?_⟩, hname⟩
  unfold ripFileName
  simp

/-- A file name is taken apart by the rip grammar. So the titles of one disc share the disc's
clean title as their set key, and those of another disc have another key. -/
theorem parseRipName_reads_grammar :
    (∀ fileName name, parseRipName fileName = name ↔
      ∃ stem, IsStem stem fileName.toList ∧ RipGrammar stem name) ∧
    (∀ fileName stem n, IsStem stem fileName.toList →
      ((parseRipName fileName).titleIndex = some n ↔
        ∃ head digits, stem = head ++ "_t".toList ++ digits ∧ TitleDigits digits n)) ∧
    (∀ clean n zeros ext, parseRipName (ripFileName clean n zeros ext) =
      { pfx := clean, titleIndex := some n.toNat }) ∧
    ∀ clean clean' n n' zeros zeros' ext ext',
      (parseRipName (ripFileName clean n zeros ext)).pfx =
        (parseRipName (ripFileName clean' n' zeros' ext')).pfx ↔ clean = clean' := by
  refine ⟨fun _ _ => parseRipName_iff, ?_, parseRipName_ripFileName, ?_⟩
  · intro fileName stem n hstem
    obtain ⟨stem', hstem', hparse⟩ := parseRipName_eq_readStem fileName
    obtain rfl := hstem.unique hstem'
    rw [hparse]
    constructor
    · intro hindex
      unfold readStem at hindex
      cases hsplit : splitTitleIndex stem with
      | none =>
        rw [hsplit] at hindex
        cases hindex
      | some p =>
        rw [hsplit] at hindex
        cases hindex
        exact ⟨p.1, splitTitleIndex_eq_some_iff.mp hsplit⟩
    · rintro ⟨head, digits, rfl, hdigits⟩
      rw [readStem_of_titleDigits hdigits]
  · intro clean clean' n n' zeros zeros' ext ext'
    rw [parseRipName_ripFileName, parseRipName_ripFileName]

end Loku
