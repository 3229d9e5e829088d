import Loku.Lib.Text
import Mathlib.Data.List.Infix

/-!
# Stray ampersands

`sanitizeEntities` runs over an NFO text before it is parsed and writes `&amp;` for every `&` that
`validEntityPrefix` does not accept. What is accepted is a window of the text up to its first `;`
(`validEntityPrefix_iff`), which has no further `&`; so a rewrite does not touch a window
(`validEntityPrefix_sanitize`), and the ampersands of the result can be told from those of the input
one by one (`afterAmps_sanitize`).
-/

namespace Loku

/-! ## The rewriting -/

/-- The length in UTF-8. -/
def byteLength : List Char → Nat
  | [] => 0
  | c :: rest => c.utf8Size + byteLength rest

/-- A numeric reference without its `&` and `;`. -/
def isNumericBody (body : List Char) : Bool :=
  match body with
  | '#' :: 'x' :: hex => !hex.isEmpty && hex.all Char.isHexDigit
  | '#' :: 'X' :: hex => !hex.isEmpty && hex.all Char.isHexDigit
  | '#' :: digits => !digits.isEmpty && digits.all Char.isDigit
  | _ => false

/-- The names that XML defines. -/
def entityNames : List (List Char) :=
  ["amp".toList, "lt".toList, "gt".toList, "apos".toList, "quot".toList]

/-- Whether the text that follows an `&` begins an entity. -/
def validEntityPrefix (rest : List Char) : Bool :=
  (entityNames.any fun name => (name ++ [';']).isPrefixOf rest) ||
    (rest.contains ';' &&
      (let body := rest.takeWhile (· ≠ ';')
       2 ≤ byteLength body && byteLength body ≤ 10 && isNumericBody body))

/-- Escape every `&` that begins no entity. -/
def sanitize : List Char → List Char
  | [] => []
  | c :: rest =>
    if c = '&' then (if validEntityPrefix rest then ['&'] else "&amp;".toList) ++ sanitize rest
    else c :: sanitize rest

def sanitizeEntities (input : String) : String := String.ofList (sanitize input.toList)

/-! ## Accepted windows -/

/-- What may stand between an `&` and its `;`. -/
def AcceptedBody (body : List Char) : Prop :=
  body ∈ entityNames ∨ (2 ≤ byteLength body ∧ byteLength body ≤ 10 ∧ isNumericBody body = true)

/-- The characters of names and numbers. -/
def isWindowChar (c : Char) : Bool := c.isAlphanum || c == '#'

theorem isAlphanum_iff {c : Char} : c.isAlphanum = true ↔
    (('A'.val ≤ c.val ∧ c.val ≤ 'Z'.val) ∨ ('a'.val ≤ c.val ∧ c.val ≤ 'z'.val)) ∨
      c.isDigit = true := by
  have heq : c.isAlphanum = ((decide ('A'.val ≤ c.val ∧ c.val ≤ 'Z'.val) ||
      (decide ('a'.val ≤ c.val) && decide (c.val ≤ 'z'.val))) || c.isDigit) := rfl
  simp only [heq, Bool.or_eq_true, Bool.and_eq_true, decide_eq_true_eq]

theorem isAlphanum_of_isHexDigit {c : Char} (h : c.isHexDigit = true) : c.isAlphanum = true := by
  simp only [Char.isHexDigit, Bool.or_eq_true, Bool.and_eq_true, decide_eq_true_eq,
    ge_iff_le] at h
  rw [isAlphanum_iff]
  rcases h with (h | ⟨hlow, hhigh⟩) | ⟨hlow, hhigh⟩
  · exact Or.inr h
  · have hz : 'f'.val ≤ 'z'.val := by decide
    exact Or.inl (Or.inr ⟨hlow, UInt32.le_trans hhigh hz⟩)
  · have hZ : 'F'.val ≤ 'Z'.val := by decide
    exact Or.inl (Or.inl ⟨hlow, UInt32.le_trans hhigh hZ⟩)

theorem isWindowChar_of_isNumericBody {body : List Char} (h : isNumericBody body = true) :
    ∀ c ∈ body, isWindowChar c = true := by
  have hhex : ∀ hex : List Char, hex.all Char.isHexDigit = true →
      ∀ c ∈ hex, isWindowChar c = true := by
    intro hex hall c hc
    simp [isWindowChar, isAlphanum_of_isHexDigit (List.all_eq_true.mp hall c hc)]
  unfold isNumericBody at h
  split at h
  · rw [Bool.and_eq_true] at h
    simp only [List.mem_cons, forall_eq_or_imp]
    exact ⟨rfl, rfl, hhex _ h.2⟩
  · rw [Bool.and_eq_true] at h
    simp only [List.mem_cons, forall_eq_or_imp]
    exact ⟨rfl, rfl, hhex _ h.2⟩
  · rw [Bool.and_eq_true] at h
    simp only [List.mem_cons, forall_eq_or_imp]
    refine ⟨rfl, fun c hc => ?_⟩
    simp [isWindowChar, Char.isAlphanum, List.all_eq_true.mp h.2 c hc]
  · cases h

theorem AcceptedBody.isWindowChar {body : List Char} (h : AcceptedBody body) :
    ∀ c ∈ body, isWindowChar c = true := by
  rcases h with h | ⟨-, -, h⟩
  · have hnames : ∀ name ∈ entityNames, name.all Loku.isWindowChar = true := by decide
    exact List.all_eq_true.mp (hnames body h)
  · exact isWindowChar_of_isNumericBody h

theorem AcceptedBody.not_mem {body : List Char} (h : AcceptedBody body) {c : Char}
    (hc : Loku.isWindowChar c = false) : c ∉ body := by
  intro hmem
  rw [h.isWindowChar c hmem] at hc
  cases hc

theorem takeWhile_window {body : List Char} (h : ';' ∉ body) (tail : List Char) :
    (body ++ ';' :: tail).takeWhile (· ≠ ';') = body := by
  have hbody : ∀ c ∈ body, decide (c ≠ ';') = true :=
    fun c hc => decide_eq_true fun heq => h (heq ▸ hc)
  rw [List.takeWhile_append_of_pos hbody]
  simp

/-- Whether a window is accepted does not depend on what follows it. -/
theorem validEntityPrefix_window {body : List Char} (h : ';' ∉ body) (tail : List Char) :
    validEntityPrefix (body ++ ';' :: tail) = true ↔ AcceptedBody body := by
  have hname : (entityNames.any fun name => (name ++ [';']).isPrefixOf (body ++ ';' :: tail)) =
      true ↔ body ∈ entityNames := by
    rw [List.any_eq_true]
    constructor
    · rintro ⟨name, hmem, hpre⟩
      obtain ⟨tail', heq⟩ := List.isPrefixOf_iff_prefix.mp hpre
      have hsemi : ';' ∉ name := AcceptedBody.not_mem (Or.inl hmem) rfl
      rw [List.append_assoc, List.cons_append, List.nil_append] at heq
      have hwindow := takeWhile_window hsemi tail'
      rw [heq, takeWhile_window h] at hwindow
      rwa [hwindow]
    · intro hmem
      exact ⟨body, hmem, List.isPrefixOf_iff_prefix.mpr ⟨tail, by simp⟩⟩
  unfold validEntityPrefix AcceptedBody
  rw [Bool.or_eq_true, hname, takeWhile_window h]
  simp [and_assoc]

/-- What is accepted is a window up to the first `;`. -/
theorem validEntityPrefix_iff {rest : List Char} : validEntityPrefix rest = true ↔
    ∃ body tail, rest = body ++ ';' :: tail ∧ AcceptedBody body := by
  constructor
  · intro h
    have hsemi : ';' ∈ rest := by
      unfold validEntityPrefix at h
      simp only [Bool.or_eq_true, List.any_eq_true, Bool.and_eq_true, List.contains_iff_mem,
        List.isPrefixOf_iff_prefix] at h
      rcases h with ⟨name, -, hpre⟩ | ⟨hmem, -⟩
      · exact hpre.subset (by simp)
      · exact hmem
    obtain ⟨body, tail, rfl, hbody⟩ := List.eq_append_cons_of_mem hsemi
    exact ⟨body, tail, rfl, (validEntityPrefix_window hbody tail).mp h⟩
  · rintro ⟨body, tail, rfl, hbody⟩
    exact (validEntityPrefix_window (hbody.not_mem rfl) tail).mpr hbody

/-! ### The accepted names and numbers -/

/-- A nonempty run of at most `n` characters of one kind. -/
structure DigitRun (kind : Char → Bool) (n : Nat) (run : List Char) : Prop where
  nonempty : run ≠ []
  length_le : run.length ≤ n
  all : ∀ c ∈ run, kind c = true

theorem isNumericBody_iff {body : List Char} : isNumericBody body = true ↔
    (∃ digits, body = '#' :: digits ∧ digits ≠ [] ∧ ∀ c ∈ digits, c.isDigit = true) ∨
      ∃ x hex, (x = 'x' ∨ x = 'X') ∧ body = '#' :: x :: hex ∧ hex ≠ [] ∧
        ∀ c ∈ hex, c.isHexDigit = true := by
  constructor
  · intro h
    unfold isNumericBody at h
    split at h
    · rename_i hex
      right
      exact ⟨'x', hex, Or.inl rfl, rfl, by simpa using h⟩
    · rename_i hex
      right
      exact ⟨'X', hex, Or.inr rfl, rfl, by simpa using h⟩
    · rename_i digits _ _
      left
      exact ⟨digits, rfl, by simpa using h⟩
    · cases h
  · rintro (⟨digits, rfl, hne, hall⟩ | ⟨x, hex, rfl | rfl, rfl, hne, hall⟩)
    · obtain ⟨d, rest, rfl⟩ := List.exists_cons_of_ne_nil hne
      have hd := hall d List.mem_cons_self
      have hx : d ≠ 'x' := by
        rintro rfl
        revert hd
        decide
      have hX : d ≠ 'X' := by
        rintro rfl
        revert hd
        decide
      unfold isNumericBody
      split
      · rename_i heq
        simp [hx] at heq
      · rename_i heq
        simp [hX] at heq
      · rename_i heq
        cases heq
        simpa using hall
      · rename_i hnot
        exact absurd rfl (hnot (d :: rest))
    · simpa [isNumericBody] using ⟨hne, hall⟩
    · simpa [isNumericBody] using ⟨hne, hall⟩

theorem utf8Size_of_isWindowChar {c : Char} (h : isWindowChar c = true) : c.utf8Size = 1 := by
  rw [Char.utf8Size_eq_one_iff, UInt32.le_iff_toNat_le]
  simp only [isWindowChar, Bool.or_eq_true, isAlphanum_iff, Char.isDigit, Bool.and_eq_true,
    decide_eq_true_eq, beq_iff_eq, UInt32.le_iff_toNat_le, ge_iff_le] at h
  have hZ : 'Z'.val.toNat = 90 := rfl
  have hz : 'z'.val.toNat = 122 := rfl
  have h9 : '9'.val.toNat = 57 := rfl
  have hmax : (127 : UInt32).toNat = 127 := rfl
  rcases h with (((⟨-, h⟩ | ⟨-, h⟩) | ⟨-, h⟩) | rfl)
  · omega
  · omega
  · omega
  · decide

theorem byteLength_of_isWindowChar {body : List Char} (h : ∀ c ∈ body, isWindowChar c = true) :
    byteLength body = body.length := by
  induction body with
  | nil => rfl
  | cons c body ih =>
    rw [List.forall_mem_cons] at h
    have hc := utf8Size_of_isWindowChar h.1
    have hrest := ih h.2
    rw [byteLength, hc, hrest, List.length_cons, Nat.add_comm]

/-- A decimal number of up to nine digits, or a hexadecimal one of up to eight. -/
theorem acceptedBody_iff {body : List Char} : AcceptedBody body ↔
    body ∈ entityNames ∨ (∃ digits, body = '#' :: digits ∧ DigitRun Char.isDigit 9 digits) ∨
      ∃ x hex, (x = 'x' ∨ x = 'X') ∧ body = '#' :: x :: hex ∧ DigitRun Char.isHexDigit 8 hex := by
  have hlength : isNumericBody body = true → byteLength body = body.length :=
    fun h => byteLength_of_isWindowChar (isWindowChar_of_isNumericBody h)
  constructor
  · rintro (h | ⟨-, hhigh, hnumeric⟩)
    · exact Or.inl h
    · right
      rw [hlength hnumeric] at hhigh
      rcases isNumericBody_iff.mp hnumeric with
        ⟨digits, rfl, hne, hall⟩ | ⟨x, hex, hx, rfl, hne, hall⟩
      · rw [List.length_cons] at hhigh
        exact Or.inl ⟨digits, rfl, hne, by omega, hall⟩
      · rw [List.length_cons, List.length_cons] at hhigh
        exact Or.inr ⟨x, hex, hx, rfl, hne, by omega, hall⟩
  · rintro (h | ⟨digits, rfl, hne, hlen, hall⟩ | ⟨x, hex, hx, rfl, hne, hlen, hall⟩)
    · exact Or.inl h
    · have hnumeric := isNumericBody_iff.mpr (Or.inl ⟨digits, rfl, hne, hall⟩)
      have hpos := List.length_pos_iff.mpr hne
      refine Or.inr ⟨?_, ?_, hnumeric⟩
      · rw [hlength hnumeric, List.length_cons]
        omega
      · rw [hlength hnumeric, List.length_cons]
        omega
    · have hnumeric := isNumericBody_iff.mpr (Or.inr ⟨x, hex, hx, rfl, hne, hall⟩)
      refine Or.inr ⟨?_, ?_, hnumeric⟩
      · rw [hlength hnumeric, List.length_cons, List.length_cons]
        omega
      · rw [hlength hnumeric, List.length_cons, List.length_cons]
        omega

/-- The head of a decimal number is no `x`. -/
theorem digit_ne_of_isDigit {x : Char} (hx : x.isDigit = false) {digits hex : List Char}
    (hall : ∀ c ∈ digits, c.isDigit = true) : digits ≠ x :: hex := by
  rintro rfl
  rw [hall x List.mem_cons_self] at hx
  cases hx

theorem name_ne_number {name : List Char} (h : name ∈ entityNames) (number : List Char) :
    name ≠ '#' :: number := by
  rintro rfl
  simp [entityNames] at h

/-! ## The ampersands of a text -/

/-- What follows each `&`. -/
def afterAmps : List Char → List (List Char)
  | [] => []
  | c :: rest => if c = '&' then rest :: afterAmps rest else afterAmps rest

theorem mem_afterAmps_iff {text after : List Char} :
    after ∈ afterAmps text ↔ ∃ before, text = before ++ '&' :: after := by
  induction text with
  | nil => simp [afterAmps]
  | cons c rest ih =>
    have hcons : (∃ before, c :: rest = before ++ '&' :: after) ↔
        (c = '&' ∧ rest = after) ∨ ∃ before, rest = before ++ '&' :: after := by
      constructor
      · rintro ⟨before, h⟩
        cases before with
        | nil =>
          cases h
          exact Or.inl ⟨rfl, rfl⟩
        | cons b before =>
          cases h
          exact Or.inr ⟨before, rfl⟩
      · rintro (⟨rfl, rfl⟩ | ⟨before, rfl⟩)
        · exact ⟨[], rfl⟩
        · exact ⟨c :: before, rfl⟩
    rw [hcons, ← ih, afterAmps]
    split
    · rename_i hc
      simp [hc, eq_comm]
    · rename_i hc
      simp [hc]

theorem afterAmps_append (text more : List Char) :
    afterAmps (text ++ more) = (afterAmps text).map (· ++ more) ++ afterAmps more := by
  induction text with
  | nil => rfl
  | cons c rest ih =>
    rw [List.cons_append, afterAmps, afterAmps, ih]
    split <;> simp

theorem afterAmps_of_not_mem {text : List Char} (h : '&' ∉ text) : afterAmps text = [] := by
  induction text with
  | nil => rfl
  | cons c rest ih =>
    rw [List.mem_cons, not_or] at h
    rw [afterAmps, if_neg (Ne.symm h.1), ih h.2]

/-! ## What the rewriting does to them -/

theorem sanitize_append {text : List Char} (h : '&' ∉ text) (more : List Char) :
    sanitize (text ++ more) = text ++ sanitize more := by
  induction text with
  | nil => rfl
  | cons c rest ih =>
    rw [List.mem_cons, not_or] at h
    rw [List.cons_append, sanitize, if_neg (Ne.symm h.1), ih h.2, List.cons_append]

/-- Later rewrites leave an accepted window as it is. -/
theorem sanitize_window {body : List Char} (h : AcceptedBody body) (tail : List Char) :
    sanitize (body ++ ';' :: tail) = body ++ ';' :: sanitize tail := by
  rw [sanitize_append (h.not_mem rfl), sanitize, if_neg (by decide)]

theorem validEntityPrefix_sanitize {rest : List Char} (h : validEntityPrefix rest = true) :
    validEntityPrefix (sanitize rest) = true := by
  obtain ⟨body, tail, rfl, hbody⟩ := validEntityPrefix_iff.mp h
  rw [sanitize_window hbody]
  exact validEntityPrefix_iff.mpr ⟨body, sanitize tail, rfl, hbody⟩

/-- The ampersands of the result are those of the input, the rejected ones with `amp;` behind
them. -/
theorem afterAmps_sanitize (text : List Char) : afterAmps (sanitize text) =
    (afterAmps text).map fun rest =>
      if validEntityPrefix rest then sanitize rest else "amp;".toList ++ sanitize rest := by
  induction text with
  | nil => rfl
  | cons c rest ih =>
    rw [sanitize, afterAmps]
    split
    · rw [List.map_cons, ← ih]
      split
      · rfl
      · rw [afterAmps_append]
        rfl
    · rename_i hc
      rw [afterAmps, if_neg hc, ih]

theorem length_le_sanitize (text : List Char) : text.length ≤ (sanitize text).length := by
  induction text with
  | nil => rfl
  | cons c rest ih =>
    rw [sanitize]
    split
    · split <;> simp <;> omega
    · simpa using ih

/-- A text is left as it is when all its ampersands are accepted. -/
theorem sanitize_eq_self_iff {text : List Char} :
    sanitize text = text ↔ ∀ rest ∈ afterAmps text, validEntityPrefix rest = true := by
  induction text with
  | nil => simp [sanitize, afterAmps]
  | cons c rest ih =>
    rw [sanitize, afterAmps]
    split
    · rename_i hc
      subst hc
      rw [List.forall_mem_cons, ← ih]
      split
      · rename_i hvalid
        simp [hvalid]
      · rename_i hvalid
        have hlen := length_le_sanitize rest
        refine iff_of_false (fun h => ?_) fun h => hvalid h.1
        have hlen' := congrArg List.length h
        simp at hlen'
        omega
    · rw [← ih]
      simp

theorem sanitizeEntities_of_not_mem {input : String} (h : '&' ∉ input.toList) :
    sanitizeEntities input = input := by
  have hsame : sanitize input.toList = input.toList := by
    rw [sanitize_eq_self_iff, afterAmps_of_not_mem h]
    simp
  rw [sanitizeEntities, hsame, String.ofList_toList]

/-- After the rewriting every `&` is accepted. -/
theorem validEntityPrefix_of_mem_sanitize {text rest : List Char}
    (h : rest ∈ afterAmps (sanitize text)) : validEntityPrefix rest = true := by
  rw [afterAmps_sanitize] at h
  obtain ⟨after, -, rfl⟩ := List.mem_map.mp h
  split
  · rename_i hvalid
    exact validEntityPrefix_sanitize hvalid
  · exact validEntityPrefix_iff.mpr ⟨"amp".toList, sanitize after, rfl, Or.inl (by decide)⟩

/-- A second rewriting changes nothing. -/
theorem sanitize_idempotent (text : List Char) : sanitize (sanitize text) = sanitize text :=
  sanitize_eq_self_iff.mpr fun _ => validEntityPrefix_of_mem_sanitize

end Loku
