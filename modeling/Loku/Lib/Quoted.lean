import Mathlib.Data.List.Basic

/-!
# Strings in doubled quotes

A string literal that begins and ends with a quote, in which a quote is written twice. `doubled`
writes the body of the literal, `readQuoted` reads it up to the first quote that is not doubled,
and undoes the doubling (`readQuoted_doubled`). Without such a quote the literal has no end.
-/

namespace Lib

section Quoted
variable {α : Type} [DecidableEq α] {quote : α}

/-- The body of a literal: every quote twice. -/
def doubled (quote : α) (text : List α) : List α :=
  text.flatMap fun c => if c = quote then [quote, quote] else [c]

/-- The text of a literal whose opening quote is read already, and what follows its closing
quote. -/
def readQuoted (quote : α) : List α → Option (List α × List α)
  | [] => none
  | [c] => if c = quote then some ([], []) else none
  | c :: d :: rest =>
    if c = quote then
      if d = quote then (readQuoted quote rest).map fun p => (quote :: p.1, p.2)
      else some ([], d :: rest)
    else (readQuoted quote (d :: rest)).map fun p => (c :: p.1, p.2)

theorem doubled_cons_quote (text : List α) :
    doubled quote (quote :: text) = quote :: quote :: doubled quote text := by
  simp [doubled]

theorem doubled_cons_ne {c : α} (h : c ≠ quote) (text : List α) :
    doubled quote (c :: text) = c :: doubled quote text := by
  simp [doubled, h]

@[simp]
theorem mem_doubled {c : α} {text : List α} : c ∈ doubled quote text ↔ c ∈ text := by
  induction text with
  | nil => simp [doubled]
  | cons d text ih =>
    by_cases hd : d = quote
    · subst hd
      simp [doubled_cons_quote, ih]
    · simp [doubled_cons_ne hd, ih]

theorem readQuoted_cons_ne {c : α} (h : c ≠ quote) (rest : List α) :
    readQuoted quote (c :: rest) = (readQuoted quote rest).map fun p => (c :: p.1, p.2) := by
  cases rest with
  | nil => simp [readQuoted, h]
  | cons d rest => simp [readQuoted, h]

theorem readQuoted_quote_quote (rest : List α) : readQuoted quote (quote :: quote :: rest) =
    (readQuoted quote rest).map fun p => (quote :: p.1, p.2) := by
  simp [readQuoted]

/-- A quote that is not doubled ends the literal. -/
theorem readQuoted_close {rest : List α} (h : rest.head? ≠ some quote) :
    readQuoted quote (quote :: rest) = some ([], rest) := by
  cases rest with
  | nil => simp [readQuoted]
  | cons d rest =>
    have hd : d ≠ quote := fun hd => h (congrArg some hd)
    simp [readQuoted, hd]

theorem readQuoted_doubled_append (text rest : List α) :
    readQuoted quote (doubled quote text ++ rest) =
      (readQuoted quote rest).map fun p => (text ++ p.1, p.2) := by
  induction text with
  | nil => simp [doubled]
  | cons c text ih =>
    by_cases hc : c = quote
    · subst hc
      rw [doubled_cons_quote, List.cons_append, List.cons_append, readQuoted_quote_quote, ih]
      simp [Option.map_map, Function.comp_def]
    · rw [doubled_cons_ne hc, List.cons_append, readQuoted_cons_ne hc, ih]
      simp [Option.map_map, Function.comp_def]

/-- Reading a literal undoes writing it. -/
theorem readQuoted_doubled (text : List α) {rest : List α} (h : rest.head? ≠ some quote) :
    readQuoted quote (doubled quote text ++ quote :: rest) = some (text, rest) := by
  rw [readQuoted_doubled_append, readQuoted_close h]
  simp

/-- A body alone has no end. -/
theorem readQuoted_doubled_eq_none (text : List α) :
    readQuoted quote (doubled quote text) = none := by
  have h : readQuoted quote (doubled quote text ++ []) = none := readQuoted_doubled_append text []
  rwa [List.append_nil] at h

/-- What is read is the written text, then the closing quote. -/
theorem readQuoted_eq_some_iff {input text rest : List α} :
    readQuoted quote input = some (text, rest) ↔
      input = doubled quote text ++ quote :: rest ∧ rest.head? ≠ some quote := by
  constructor
  · intro h
    induction input using readQuoted.induct quote generalizing text with
    | case1 => cases h
    | case2 =>
      simp only [readQuoted, if_true, Option.some.injEq, Prod.mk.injEq] at h
      obtain ⟨rfl, rfl⟩ := h
      simp [doubled]
    | case3 c hc => simp [readQuoted, hc] at h
    | case4 rest' ih =>
      rw [readQuoted_quote_quote, Option.map_eq_some_iff] at h
      obtain ⟨p, hp, heq⟩ := h
      cases heq
      obtain ⟨hinput, hhead⟩ := ih hp
      exact ⟨by rw [doubled_cons_quote, hinput]; rfl, hhead⟩
    | case5 d rest' hd =>
      simp only [readQuoted, if_true, hd, if_false, Option.some.injEq, Prod.mk.injEq] at h
      obtain ⟨rfl, rfl⟩ := h
      simp [doubled, hd]
    | case6 c d rest' hc ih =>
      rw [readQuoted_cons_ne hc, Option.map_eq_some_iff] at h
      obtain ⟨p, hp, heq⟩ := h
      cases heq
      obtain ⟨hinput, hhead⟩ := ih hp
      exact ⟨by rw [doubled_cons_ne hc, hinput]; rfl, hhead⟩
  · rintro ⟨rfl, hhead⟩
    exact readQuoted_doubled text hhead

theorem length_lt_of_readQuoted {input text rest : List α}
    (h : readQuoted quote input = some (text, rest)) : rest.length < input.length := by
  rw [(readQuoted_eq_some_iff.mp h).1]
  simp
  omega

end Quoted

end Lib
