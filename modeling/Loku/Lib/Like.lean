import Mathlib.Data.List.Infix

/-!
# The SQL `LIKE` operator

`LIKE` patterns are lists of `Token`s: a literal character, `_` (one character) or `%` (any
run of characters). `tokens esc` reads a pattern with an escape character and `matchTokens`
compares, by default without regard to ASCII case (`asciiFold`). A pattern made by escaping a
literal text and appending `%` matches exactly the texts that begin with that text up to ASCII
case (`like_escaped_append_any`).
-/

namespace Lib

/-- ASCII upper case letters are folded to lower case, every other character is kept. -/
def asciiFold (c : Char) : Char := c.toLower

/-- A character that is not a lower case letter is folded to only from itself. -/
theorem eq_of_asciiFold_eq {c d : Char} (hd : d.isLower = false) (h : asciiFold c = d) :
    c = d := by
  unfold asciiFold Char.toLower at h
  split at h
  · rename_i hc
    exfalso
    rw [← h] at hd
    have hlower : ∀ e : Char, e.isLower = (decide ('a' ≤ e) && decide (e ≤ 'z')) := fun _ => rfl
    simp only [hlower, Char.le_def, UInt32.le_iff_toNat_le, Bool.and_eq_false_iff,
      decide_eq_false_iff_not] at hc hd
    have hshift : (c.val + ('a'.val - 'A'.val)).toNat = c.val.toNat + 32 := by
      rw [UInt32.toNat_add]
      have hdiff : ('a'.val - 'A'.val).toNat = 32 := by decide
      have hbound : 'Z'.val.toNat = 90 := by decide
      omega
    have hA : 'A'.val.toNat = 65 := by decide
    have hZ : 'Z'.val.toNat = 90 := by decide
    have ha : 'a'.val.toNat = 97 := by decide
    have hz : 'z'.val.toNat = 122 := by decide
    omega
  · exact h

theorem asciiFold_eq_slash_iff (c : Char) : asciiFold c = '/' ↔ c = '/' := by
  constructor
  · exact eq_of_asciiFold_eq (by decide)
  · rintro rfl
    decide

namespace Like

inductive Token
  | lit (c : Char)
  | one
  | any
deriving DecidableEq

/-- Read a pattern: `esc` makes the next character literal. -/
def tokens (esc : Char) : List Char → List Token
  | [] => []
  | [c] => if c = '%' then [.any] else if c = '_' then [.one] else [.lit c]
  | c :: d :: rest =>
    if c = esc then .lit d :: tokens esc rest
    else if c = '%' then .any :: tokens esc (d :: rest)
    else if c = '_' then .one :: tokens esc (d :: rest)
    else .lit c :: tokens esc (d :: rest)

def matchTokens : List Token → List Char → Bool
  | [], text => text.isEmpty
  | .lit c :: ts, text =>
    match text with
    | [] => false
    | x :: xs => asciiFold x == asciiFold c && matchTokens ts xs
  | .one :: ts, text =>
    match text with
    | [] => false
    | _ :: xs => matchTokens ts xs
  | .any :: ts, text => text.tails.any (matchTokens ts)

end Like

open Like

/-- `text LIKE pattern ESCAPE esc`. -/
def like (esc : Char) (pattern text : List Char) : Bool := matchTokens (tokens esc pattern) text

/-- Put `esc` before every character that `LIKE` would not read as itself. -/
def escapeLike (esc : Char) : List Char → List Char
  | [] => []
  | c :: cs =>
    if c = esc ∨ c = '%' ∨ c = '_' then esc :: c :: escapeLike esc cs else c :: escapeLike esc cs

theorem tokens_cons_of_not_special {esc c : Char} (hesc : c ≠ esc) (h : c ≠ '%') (h' : c ≠ '_')
    (rest : List Char) : tokens esc (c :: rest) = .lit c :: tokens esc rest := by
  cases rest with
  | nil => simp [tokens, h, h']
  | cons d rest => simp [tokens, hesc, h, h']

/-- An escaped text is read back literally. -/
theorem tokens_escapeLike_append {esc : Char} (text rest : List Char) :
    tokens esc (escapeLike esc text ++ rest) = text.map Token.lit ++ tokens esc rest := by
  induction text with
  | nil => rfl
  | cons c cs ih =>
    unfold escapeLike
    split
    · simp [tokens, ih]
    · rename_i h
      rw [not_or, not_or] at h
      rw [List.cons_append, tokens_cons_of_not_special h.1 h.2.1 h.2.2, ih]
      rfl

theorem escapeLike_append {esc : Char} (text rest : List Char) :
    escapeLike esc (text ++ rest) = escapeLike esc text ++ escapeLike esc rest := by
  induction text with
  | nil => rfl
  | cons c cs ih =>
    rw [List.cons_append, escapeLike, escapeLike, ih]
    split <;> rfl

theorem matchTokens_lits_append {pre text : List Char} {ts : List Token} :
    matchTokens (pre.map Token.lit ++ ts) text = true ↔
      ∃ head tail, text = head ++ tail ∧ head.map asciiFold = pre.map asciiFold ∧
        matchTokens ts tail = true := by
  induction pre generalizing text with
  | nil => simp
  | cons c cs ih =>
    cases text with
    | nil =>
      simp only [List.map_cons, List.cons_append, matchTokens, Bool.false_eq_true, false_iff]
      rintro ⟨head, tail, happ, hmap, -⟩
      cases head with
      | nil => cases hmap
      | cons _ _ => cases happ
    | cons x xs =>
      simp only [List.map_cons, List.cons_append, matchTokens, Bool.and_eq_true, beq_iff_eq, ih]
      constructor
      · rintro ⟨hx, head, tail, rfl, hmap, hts⟩
        exact ⟨x :: head, tail, rfl, by simp [hx, hmap], hts⟩
      · rintro ⟨head, tail, happ, hmap, hts⟩
        cases head with
        | nil => cases hmap
        | cons y ys =>
          cases happ
          simp only [List.map_cons, List.cons.injEq] at hmap
          exact ⟨hmap.1, ys, tail, rfl, hmap.2, hts⟩

theorem matchTokens_any (text : List Char) : matchTokens [.any] text = true := by
  simp only [matchTokens, List.any_eq_true, List.mem_tails]
  exact ⟨[], List.nil_suffix, rfl⟩

/-- An escaped text followed by `%` matches what begins with the text, up to ASCII case. -/
theorem like_escaped_append_any {esc : Char} {pre text : List Char} :
    like esc (escapeLike esc pre ++ ['%']) text = true ↔
      ∃ head tail, text = head ++ tail ∧ head.map asciiFold = pre.map asciiFold := by
  unfold like
  rw [tokens_escapeLike_append, matchTokens_lits_append]
  have hany : tokens esc ['%'] = [.any] := by simp [tokens]
  simp [hany, matchTokens_any]

end Lib
