import Loku.Lib.Xml
import Loku.Nfo.Entities

/-!
# Valid documents that are rewritten

`sanitizeEntities` knows nothing of XML's structure: it looks at every `&` of the text, and for a
`;` within ten bytes. A document passes through unchanged exactly when each of its references is
predefined or a short number, and each `&` in its raw text happens to begin what looks like one
(`valid_documents_unchanged_iff`). The others are rewritten, valid as they are.
-/

namespace Loku

open Lib.Xml

/-- A predefined entity, or a number of up to nine decimal or eight hexadecimal digits. -/
def ShortReference : Reference → Prop
  | .entity name => name.text ∈ entityNames
  | .decimal number => number.digits.length ≤ 9
  | .hex number => number.digits.length ≤ 8

/-- A piece in which every `&` is accepted. -/
def Untouched : Piece → Prop
  | .markup _ => True
  | .reference r => ShortReference r
  | .raw body _ => ∀ after ∈ afterAmps body, validEntityPrefix after = true

/-! ## References -/

theorem acceptedBody_reference_iff (r : Reference) : AcceptedBody r.body ↔ ShortReference r := by
  rw [acceptedBody_iff]
  cases r with
  | entity name =>
    have hnumber : ∀ rest, name.text ≠ '#' :: rest := by
      intro rest heq
      have hhash : isNameStart '#' = false := by decide
      have hstart := name.start
      rw [heq, List.head?_cons, Option.any_some, hhash] at hstart
      cases hstart
    constructor
    · rintro (h | ⟨digits, heq, -⟩ | ⟨x, hex, -, heq, -⟩)
      · exact h
      · exact absurd heq (hnumber digits)
      · exact absurd heq (hnumber (x :: hex))
    · exact Or.inl
  | decimal number =>
    constructor
    · rintro (h | ⟨digits, heq, hrun⟩ | ⟨x, hex, hx, heq, -⟩)
      · exact absurd rfl (name_ne_number h number.digits)
      · cases heq
        exact hrun.length_le
      · have hdigit : x.isDigit = false := by rcases hx with rfl | rfl <;> rfl
        exact absurd (List.cons.inj heq).2 (digit_ne_of_isDigit hdigit number.valid)
    · intro h
      exact Or.inr (Or.inl ⟨number.digits, rfl, number.nonempty, h, number.valid⟩)
  | hex number =>
    constructor
    · rintro (h | ⟨digits, heq, hrun⟩ | ⟨x, hex, -, heq, hrun⟩)
      · exact absurd rfl (name_ne_number h ('x' :: number.digits))
      · exact absurd (List.cons.inj heq).2.symm (digit_ne_of_isDigit rfl hrun.all)
      · cases heq
        exact hrun.length_le
    · intro h
      exact Or.inr (Or.inr ⟨'x', number.digits, Or.inl rfl, rfl, number.nonempty, h, number.valid⟩)

theorem not_mem_reference_body {c : Char} (hname : isNameChar c = false)
    (hwindow : isWindowChar c = false) (r : Reference) : c ∉ r.body := by
  intro hmem
  cases r with
  | entity name =>
    rw [name.valid c hmem] at hname
    cases hname
  | decimal number =>
    have hnumeric := isNumericBody_iff.mpr
      (Or.inl ⟨number.digits, rfl, number.nonempty, number.valid⟩)
    rw [isWindowChar_of_isNumericBody hnumeric c hmem] at hwindow
    cases hwindow
  | hex number =>
    have hnumeric := isNumericBody_iff.mpr
      (Or.inr ⟨'x', number.digits, Or.inl rfl, rfl, number.nonempty, number.valid⟩)
    rw [isWindowChar_of_isNumericBody hnumeric c hmem] at hwindow
    cases hwindow

/-! ## Raw text -/

/-- A character that no window has ends the look ahead. -/
theorem validEntityPrefix_append {c : Char} (hwindow : isWindowChar c = false) (hsemi : c ≠ ';')
    (after more : List Char) :
    validEntityPrefix (after ++ c :: more) = true ↔ validEntityPrefix after = true := by
  rw [validEntityPrefix_iff, validEntityPrefix_iff]
  constructor
  · rintro ⟨body, tail, heq, hbody⟩
    rcases List.append_eq_append_iff.mp heq with ⟨left, hleft, hright⟩ | ⟨left, hleft, hright⟩
    · -- the window would go past the character
      cases left with
      | nil => exact absurd (List.cons.inj hright).1 hsemi
      | cons d left =>
        obtain rfl : c = d := (List.cons.inj hright).1
        exact absurd (by simp [hleft]) (hbody.not_mem hwindow)
    · cases left with
      | nil => exact absurd (List.cons.inj hright).1.symm hsemi
      | cons d left =>
        obtain rfl : ';' = d := (List.cons.inj hright).1
        exact ⟨body, left, hleft, hbody⟩
  · rintro ⟨body, tail, rfl, hbody⟩
    exact ⟨body, tail ++ c :: more, by simp, hbody⟩

theorem closing_text (closing : Closing) : ∃ c rest, closing.text = c :: rest ∧
    isWindowChar c = false ∧ c ≠ ';' ∧ '&' ∉ closing.text := by
  cases closing with
  | comment => exact ⟨'-', _, rfl, by decide⟩
  | cdata => exact ⟨']', _, rfl, by decide⟩
  | instruction => exact ⟨'?', _, rfl, by decide⟩
  | quote q => cases q <;> exact ⟨_, _, rfl, by decide⟩

theorem validEntityPrefix_closing (closing : Closing) (after more : List Char) :
    validEntityPrefix (after ++ (closing.text ++ more)) = true ↔
      validEntityPrefix after = true := by
  obtain ⟨c, rest, htext, hwindow, hsemi, -⟩ := closing_text closing
  rw [htext]
  exact validEntityPrefix_append hwindow hsemi after (rest ++ more)

/-! ## Whole documents -/

/-- The ampersands of a piece are accepted or not whatever follows it. -/
theorem forall_afterAmps_piece {p : Piece} (h : p.Plain) (more : List Char) :
    (∀ after ∈ afterAmps (p.text ++ more), validEntityPrefix after = true) ↔
      Untouched p ∧ ∀ after ∈ afterAmps more, validEntityPrefix after = true := by
  cases p with
  | markup text =>
    rw [Piece.text, afterAmps_append, afterAmps_of_not_mem h]
    simp [Untouched]
  | reference r =>
    have hsemi : ';' ∉ r.body := not_mem_reference_body (by decide) rfl r
    have hamp : '&' ∉ r.body ++ [';'] := by
      simpa using not_mem_reference_body (by decide) rfl r
    have htext : (Piece.reference r).text ++ more = '&' :: (r.body ++ ';' :: more) := by
      simp [Piece.text]
    have hrest : afterAmps (r.body ++ ';' :: more) = afterAmps more := by
      have happend := afterAmps_append (r.body ++ [';']) more
      rw [afterAmps_of_not_mem hamp] at happend
      simpa using happend
    rw [htext, afterAmps, if_pos rfl, hrest, List.forall_mem_cons,
      validEntityPrefix_window hsemi, acceptedBody_reference_iff]
    rfl
  | raw body closing =>
    obtain ⟨-, -, -, -, -, hamp⟩ := closing_text closing
    have hrest : afterAmps (closing.text ++ more) = afterAmps more := by
      rw [afterAmps_append, afterAmps_of_not_mem hamp]
      rfl
    rw [Piece.text, List.append_assoc, afterAmps_append, hrest, List.forall_mem_append,
      List.forall_mem_map]
    simp only [validEntityPrefix_closing]
    rfl

theorem forall_afterAmps_write {pieces : List Piece} (h : Plain pieces) :
    (∀ after ∈ afterAmps (write pieces), validEntityPrefix after = true) ↔
      ∀ p ∈ pieces, Untouched p := by
  induction pieces with
  | nil => simp [write, afterAmps]
  | cons p pieces ih =>
    rw [plain_cons] at h
    have hwrite : write (p :: pieces) = p.text ++ write pieces := rfl
    rw [hwrite, forall_afterAmps_piece h.1, ih h.2, List.forall_mem_cons]

/-- A document passes through unchanged exactly when its references are short and every `&` of
its raw text is accepted. -/
theorem valid_documents_unchanged_iff (d : Document) :
    sanitizeEntities (String.ofList d.render) = String.ofList d.render ↔
      (∀ r, .reference r ∈ d.pieces → ShortReference r) ∧
        ∀ body closing, .raw body closing ∈ d.pieces → ∀ before after,
          body = before ++ '&' :: after → validEntityPrefix after = true := by
  have hpieces : (∀ p ∈ d.pieces, Untouched p) ↔
      (∀ r, .reference r ∈ d.pieces → ShortReference r) ∧
        ∀ body closing, .raw body closing ∈ d.pieces → ∀ before after,
          body = before ++ '&' :: after → validEntityPrefix after = true := by
    constructor
    · intro h
      refine ⟨fun r hr => h _ hr, fun body closing hraw before after heq => ?_⟩
      exact h _ hraw after (mem_afterAmps_iff.mpr ⟨before, heq⟩)
    · rintro ⟨hreferences, hraws⟩ p hp
      cases p with
      | markup text => trivial
      | reference r => exact hreferences r hp
      | raw body closing =>
        intro after hafter
        obtain ⟨before, heq⟩ := mem_afterAmps_iff.mp hafter
        exact hraws body closing hp before after heq
  rw [← hpieces, ← forall_afterAmps_write d.plain, ← sanitize_eq_self_iff, sanitizeEntities,
    String.toList_ofList, String.ofList_inj]
  rfl

/-! ### A plot in a `CDATA` section -/

namespace RawAmpersand

def movie : Name := ⟨"movie".toList, rfl, List.all_eq_true.mp rfl⟩

def plot : Name := ⟨"plot".toList, rfl, List.all_eq_true.mp rfl⟩

def noSpace : Space := ⟨[], by simp⟩

def band : Text [] where
  chars := "R&B".toList
  valid c hc := ⟨List.all_eq_true.mp rfl c hc, List.not_mem_nil⟩

def quoted : CData := ⟨band, by decide⟩

def padded : Number Char.isDigit := ⟨"0000000065".toList, by decide, List.all_eq_true.mp rfl⟩

/-- `<movie><plot>`, a `CDATA` section and a padded number, `</plot></movie>`. -/
def document : Document where
  declaration := none
  misc := []
  doctype := none
  root := .full ⟨movie, [], noSpace⟩
    (.element ⟨plot, [], noSpace⟩ (.cdata quoted (.reference (.decimal padded) .done)) noSpace
      .done) noSpace
  trailing := []

set_option maxRecDepth 2000 in
theorem render_document : String.ofList document.render =
    "<movie><plot><![CDATA[R&B]]>&#0000000065;</plot></movie>" := rfl

/-- The `&` of the `CDATA` section and that of the number are both escaped. -/
theorem document_rewritten : ¬ ∀ d : Document,
    sanitizeEntities (String.ofList d.render) = String.ofList d.render := by
  intro h
  have hrewritten : sanitizeEntities (String.ofList document.render) =
      "<movie><plot><![CDATA[R&amp;B]]>&amp;#0000000065;</plot></movie>" := by
    rw [render_document]
    decide
  have hsame := h document
  rw [hrewritten, render_document] at hsame
  revert hsame
  decide

end RawAmpersand

end Loku
