import Loku.Lib.PercentCode
import Loku.Nfo.Entities

/-!
# The references that an XML parser accepts

Without a DTD a parser accepts the five named entities and numbers, decimal ones and, behind a
small `x`, hexadecimal ones, of a character that there is. `sanitizeEntities` leaves no `&` that
begins anything else, exactly when the input has none before a reference that looks like one and
is not (`BeginsFalseReference`): a number behind a capital `X`, or a number of no character.
-/

namespace Loku

/-- The number of hexadecimal digits. -/
def hexNumber (hex : List Char) : Nat :=
  hex.foldl (fun n c => 16 * n + (Lib.PercentCode.hexValue c).getD 0) 0

/-- The number of a character: not zero, no surrogate, and not above `10FFFF`. -/
def IsCharacter (n : Nat) : Prop := n ≠ 0 ∧ ¬ (0xD800 ≤ n ∧ n ≤ 0xDFFF) ∧ n ≤ 0x10FFFF

instance (n : Nat) : Decidable (IsCharacter n) := inferInstanceAs (Decidable (_ ∧ _))

/-- A reference, without its `&` and `;`. -/
inductive ReferenceBody : List Char → Prop
  | named {name : List Char} (h : name ∈ entityNames) : ReferenceBody name
  | decimal {digits : List Char} (hne : digits ≠ []) (hall : ∀ c ∈ digits, c.isDigit = true)
    (hchar : IsCharacter (Nat.ofDigitChars 10 digits 0)) : ReferenceBody ('#' :: digits)
  | hex {hex : List Char} (hne : hex ≠ []) (hall : ∀ c ∈ hex, c.isHexDigit = true)
    (hchar : IsCharacter (hexNumber hex)) : ReferenceBody ('#' :: 'x' :: hex)

/-- The text behind an `&` makes it a reference. -/
def BeginsReference (after : List Char) : Prop :=
  ∃ body tail, after = body ++ ';' :: tail ∧ ReferenceBody body

/-- A short number that no parser accepts. -/
inductive FalseBody : List Char → Prop
  | capital {hex : List Char} (hrun : DigitRun Char.isHexDigit 8 hex) :
    FalseBody ('#' :: 'X' :: hex)
  | decimal {digits : List Char} (hrun : DigitRun Char.isDigit 9 digits)
    (hchar : ¬ IsCharacter (Nat.ofDigitChars 10 digits 0)) : FalseBody ('#' :: digits)
  | hex {hex : List Char} (hrun : DigitRun Char.isHexDigit 8 hex)
    (hchar : ¬ IsCharacter (hexNumber hex)) : FalseBody ('#' :: 'x' :: hex)

def BeginsFalseReference (after : List Char) : Prop :=
  ∃ body tail, after = body ++ ';' :: tail ∧ FalseBody body

/-! ## One window -/

theorem FalseBody.accepted {body : List Char} (h : FalseBody body) : AcceptedBody body := by
  rw [acceptedBody_iff]
  cases h with
  | capital hrun => exact Or.inr (Or.inr ⟨'X', _, Or.inr rfl, rfl, hrun⟩)
  | decimal hrun _ => exact Or.inr (Or.inl ⟨_, rfl, hrun⟩)
  | hex hrun _ => exact Or.inr (Or.inr ⟨'x', _, Or.inl rfl, rfl, hrun⟩)

/-- An accepted window is a reference or a false one, and not both. -/
theorem referenceBody_iff {body : List Char} (h : AcceptedBody body) :
    ReferenceBody body ↔ ¬ FalseBody body := by
  constructor
  · intro href hfalse
    cases hfalse with
    | capital hrun =>
      cases href with
      | named hname => exact name_ne_number hname _ rfl
      | decimal _ hall _ => exact digit_ne_of_isDigit rfl hall rfl
    | decimal hrun hchar =>
      cases href with
      | named hname => exact name_ne_number hname _ rfl
      | decimal _ _ hchar' => exact hchar hchar'
      | hex _ _ _ => exact digit_ne_of_isDigit rfl hrun.all rfl
    | hex hrun hchar =>
      cases href with
      | named hname => exact name_ne_number hname _ rfl
      | decimal _ hall _ => exact digit_ne_of_isDigit rfl hall rfl
      | hex _ _ hchar' => exact hchar hchar'
  · intro hfalse
    rcases acceptedBody_iff.mp h with hname | ⟨digits, rfl, hrun⟩ | ⟨x, hex, rfl | rfl, rfl, hrun⟩
    · exact .named hname
    · refine .decimal hrun.nonempty hrun.all ?_
      by_contra hchar
      exact hfalse (.decimal hrun hchar)
    · refine .hex hrun.nonempty hrun.all ?_
      by_contra hchar
      exact hfalse (.hex hrun hchar)
    · exact absurd (.capital hrun) hfalse

theorem ReferenceBody.isWindowChar {body : List Char} (h : ReferenceBody body) :
    ∀ c ∈ body, isWindowChar c = true := by
  cases h with
  | named hname => exact AcceptedBody.isWindowChar (Or.inl hname)
  | decimal hne hall _ =>
    exact isWindowChar_of_isNumericBody (isNumericBody_iff.mpr (Or.inl ⟨_, rfl, hne, hall⟩))
  | hex hne hall _ =>
    exact isWindowChar_of_isNumericBody
      (isNumericBody_iff.mpr (Or.inr ⟨'x', _, Or.inl rfl, rfl, hne, hall⟩))

theorem window_unique {body body' tail tail' : List Char} (h : ';' ∉ body) (h' : ';' ∉ body')
    (heq : body ++ ';' :: tail = body' ++ ';' :: tail') : body = body' := by
  have hwindow := takeWhile_window h tail
  rwa [heq, takeWhile_window h', eq_comm] at hwindow

theorem beginsReference_window {body : List Char} (h : AcceptedBody body) (tail : List Char) :
    BeginsReference (body ++ ';' :: tail) ↔ ReferenceBody body := by
  constructor
  · rintro ⟨body', tail', heq, hbody'⟩
    have hsemi : ';' ∉ body' := by
      intro hmem
      exact Bool.false_ne_true (hbody'.isWindowChar ';' hmem)
    rwa [window_unique (h.not_mem rfl) hsemi heq]
  · intro hbody
    exact ⟨body, tail, rfl, hbody⟩

theorem beginsFalseReference_window {body : List Char} (h : AcceptedBody body) (tail : List Char) :
    BeginsFalseReference (body ++ ';' :: tail) ↔ FalseBody body := by
  constructor
  · rintro ⟨body', tail', heq, hbody'⟩
    rwa [window_unique (h.not_mem rfl) (hbody'.accepted.not_mem rfl) heq]
  · intro hbody
    exact ⟨body, tail, rfl, hbody⟩

/-! ## The whole text -/

/-- What one `&` of the input becomes begins a reference, unless it began a false one. -/
theorem beginsReference_sanitized (rest : List Char) :
    BeginsReference
        (if validEntityPrefix rest then sanitize rest else "amp;".toList ++ sanitize rest) ↔
      ¬ BeginsFalseReference rest := by
  split
  · rename_i hvalid
    obtain ⟨body, tail, rfl, hbody⟩ := validEntityPrefix_iff.mp hvalid
    rw [sanitize_window hbody, beginsReference_window hbody, beginsFalseReference_window hbody]
    exact referenceBody_iff hbody
  · rename_i hvalid
    refine iff_of_true ⟨"amp".toList, sanitize rest, rfl, .named (by decide)⟩ ?_
    rintro ⟨body, tail, rfl, hbody⟩
    exact hvalid (validEntityPrefix_iff.mpr ⟨body, tail, rfl, hbody.accepted⟩)

/-- Every `&` that is left begins a reference, exactly when no `&` of the input begins a false
one. -/
theorem ampersands_begin_references_iff (input : String) :
    (∀ before after, (sanitizeEntities input).toList = before ++ '&' :: after →
      BeginsReference after) ↔
      ∀ before after, input.toList = before ++ '&' :: after → ¬ BeginsFalseReference after := by
  have hall : ∀ (text : List Char) (P : List Char → Prop),
      (∀ before after, text = before ++ '&' :: after → P after) ↔
        ∀ after ∈ afterAmps text, P after := by
    intro text P
    simp only [mem_afterAmps_iff]
    exact ⟨fun h after ⟨before, heq⟩ => h before after heq,
      fun h before after heq => h after ⟨before, heq⟩⟩
  rw [hall, hall, sanitizeEntities, String.toList_ofList, afterAmps_sanitize, List.forall_mem_map]
  simp only [beginsReference_sanitized]

/-- A capital `X` is accepted, as are zero, a surrogate and a number above `10FFFF`. -/
theorem false_references_kept :
    (∀ input ∈ ["&#X41;", "&#0;", "&#xD800;", "&#99999999;"], sanitizeEntities input = input) ∧
      ¬ ∀ before after, (sanitizeEntities "&#X41;").toList = before ++ '&' :: after →
        BeginsReference after := by
  refine ⟨by decide, fun h => ?_⟩
  have hrun : DigitRun Char.isHexDigit 8 ['4', '1'] :=
    ⟨by simp, by simp, List.all_eq_true.mp rfl⟩
  have hfalse : FalseBody ['#', 'X', '4', '1'] := .capital hrun
  have hbegins := h [] ['#', 'X', '4', '1', ';'] (by decide)
  have hbody := (beginsReference_window hfalse.accepted []).mp hbegins
  exact (referenceBody_iff hfalse.accepted).mp hbody hfalse

end Loku
