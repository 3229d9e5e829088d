import Loku.Index.Search
import Loku.Lib.Quoted
import Loku.Lib.Text

/-!
# User input as a match expression

`ftsQuery` writes every token of the input as a quoted string with a `*` behind it. The engine's
lexer is not part of this repository. `FtsLexing` is what is known of it: it reads a C string,
so up to the first NUL; it skips blanks; a string begins at a quote and ends at the first quote that
is not doubled; a string without such a quote is an error.

No quote or operator of the input can break out of its string, but a NUL ends the expression
inside one. NUL is not white space, so it reaches the expression as a part of a token: the
expression is read as the tokens of the input exactly when the input has no NUL
(`reads_tokens_iff`).
-/

namespace Loku

/-- What the lexer reads: a string, a `*`, or any character of another token. -/
inductive FtsToken
  | string (text : List Char)
  | star
  | other (c : Char)
deriving DecidableEq

def nul : Char := Char.ofNat 0

/-- What is known of the engine's lexer; `none` is a syntax error. -/
structure FtsLexing (lex : List Char → Option (List FtsToken)) : Prop where
  cString : ∀ before after, lex (before ++ nul :: after) = lex before
  done : lex [] = some []
  blank : ∀ rest, lex (' ' :: rest) = lex rest
  star : ∀ rest, lex ('*' :: rest) = (lex rest).map (.star :: ·)
  string : ∀ input text rest, Lib.readQuoted '"' input = some (text, rest) → nul ∉ text →
    lex ('"' :: input) = (lex rest).map (.string text :: ·)
  unterminated : ∀ input, Lib.readQuoted '"' input = none → nul ∉ input →
    lex ('"' :: input) = none

/-- What is known of an engine with such a lexer: what cannot be lexed is an error, and a sequence
of strings, each with a star, is none. -/
structure FtsEngine (lex : List Char → Option (List FtsToken)) (engine : FullText) : Prop
    extends FtsLexing lex where
  unread : ∀ expr : String, lex expr.toList = none → engine.syntaxError expr ≠ none
  phrases : ∀ (expr : String) (tokens : List (List Char)),
    lex expr.toList = some (tokens.flatMap fun t => [.string t, .star]) →
    engine.syntaxError expr = none

/-- The tokens of a search. -/
def searchTokens (userInput : String) : List (List Char) :=
  Lib.words isWhitespace userInput.toList

/-- The input is read as its tokens, each a string and a star. -/
structure ReadsTokens (lex : List Char → Option (List FtsToken)) (userInput : String) : Prop where
  none_iff : ftsQuery userInput = none ↔ ∀ c ∈ userInput.toList, isWhitespace c = true
  reads : ∀ expr, ftsQuery userInput = some expr →
    lex expr.toList = some ((searchTokens userInput).flatMap fun t => [.string t, .star])

/-! ## The expression -/

/-- A token as a phrase-prefix. -/
def quotedPrefix (token : List Char) : List Char := '"' :: Lib.doubled '"' token ++ ['"', '*']

def ftsExpression (tokens : List (List Char)) : List Char :=
  [' '].intercalate (tokens.map quotedPrefix)

theorem ftsQuery_eq_none_iff {userInput : String} :
    ftsQuery userInput = none ↔ searchTokens userInput = [] := by
  unfold ftsQuery
  change (if (searchTokens userInput).isEmpty = true then none else some _) = none ↔ _
  rw [← List.isEmpty_iff]
  split
  · rename_i h
    simp [h]
  · rename_i h
    simp [h]

theorem toList_ftsQuery {userInput expr : String} (h : ftsQuery userInput = some expr) :
    expr.toList = ftsExpression (searchTokens userInput) := by
  unfold ftsQuery at h
  dsimp only at h
  split at h
  · cases h
  · cases h
    rw [String.toList_intercalate, List.map_map]
    unfold ftsExpression searchTokens Lib.words
    congr 1
    refine List.map_congr_left fun token _ => ?_
    simp [quotedPrefix, Lib.doubled]

theorem ftsExpression_cons (token : List Char) (tokens : List (List Char)) :
    ftsExpression (token :: tokens) =
      quotedPrefix token ++ if tokens = [] then [] else ' ' :: ftsExpression tokens := by
  unfold ftsExpression
  cases tokens with
  | nil => simp
  | cons next tokens => simp [List.intercalate_cons_cons]

/-! ## Reading it -/

section Lexing
variable {lex : List Char → Option (List FtsToken)}

/-- A token without NUL is read as itself, whatever follows. -/
theorem FtsLexing.quotedPrefix_append (h : FtsLexing lex) {token : List Char} (hnul : nul ∉ token)
    (rest : List Char) :
    lex (quotedPrefix token ++ rest) = (lex rest).map ([.string token, .star] ++ ·) := by
  have hread : Lib.readQuoted '"' (Lib.doubled '"' token ++ '"' :: '*' :: rest) =
      some (token, '*' :: rest) := Lib.readQuoted_doubled token (by simp)
  have hlex := h.string _ token ('*' :: rest) hread hnul
  rw [h.star, Option.map_map] at hlex
  simpa [quotedPrefix, Function.comp_def] using hlex

/-- A NUL in a token leaves its string open. -/
theorem FtsLexing.quotedPrefix_nul (h : FtsLexing lex) {token : List Char} (hnul : nul ∈ token)
    (rest : List Char) : lex (quotedPrefix token ++ rest) = none := by
  obtain ⟨before, after, rfl, hbefore⟩ := List.eq_append_cons_of_mem hnul
  have hopen : lex ('"' :: Lib.doubled '"' before) = none :=
    h.unterminated _ (Lib.readQuoted_doubled_eq_none before) (by simpa using hbefore)
  have hquote : nul ≠ '"' := by decide
  have hcut : quotedPrefix (before ++ nul :: after) ++ rest =
      ('"' :: Lib.doubled '"' before) ++
        nul :: (Lib.doubled '"' after ++ ['"', '*'] ++ rest) := by
    simp [quotedPrefix, Lib.doubled, hquote]
  rw [hcut, h.cString, hopen]

theorem FtsLexing.ftsExpression (h : FtsLexing lex) (tokens : List (List Char)) :
    lex (ftsExpression tokens) =
      if ∃ token ∈ tokens, nul ∈ token then none
      else some (tokens.flatMap fun t => [.string t, .star]) := by
  induction tokens with
  | nil => simpa [Loku.ftsExpression] using h.done
  | cons token tokens ih =>
    rw [ftsExpression_cons]
    by_cases hnul : nul ∈ token
    · rw [h.quotedPrefix_nul hnul, if_pos ⟨token, List.mem_cons_self, hnul⟩]
    · rw [h.quotedPrefix_append hnul]
      have hrest : lex (if tokens = [] then [] else ' ' :: Loku.ftsExpression tokens) =
          lex (Loku.ftsExpression tokens) := by
        split
        · rename_i hnil
          rw [hnil]
          rfl
        · exact h.blank _
      rw [hrest, ih]
      by_cases hlater : ∃ t ∈ tokens, nul ∈ t
      · simp [hlater]
      · simp [hnul, hlater]

end Lexing

/-- The NULs of the input are in its tokens. -/
theorem exists_nul_mem_searchTokens {userInput : String} :
    (∃ token ∈ searchTokens userInput, nul ∈ token) ↔ nul ∈ userInput.toList := by
  have hspace : isWhitespace nul = false := by decide
  have hmem : nul ∈ (searchTokens userInput).flatten ↔ nul ∈ userInput.toList := by
    unfold searchTokens
    rw [Lib.flatten_words, List.mem_filter, hspace]
    simp
  rw [← hmem, List.mem_flatten]

/-- The engine reads the tokens of the input, and no syntax error, exactly when the input has no
NUL. -/
theorem reads_tokens_iff {lex : List Char → Option (List FtsToken)} (h : FtsLexing lex)
    (userInput : String) : ReadsTokens lex userInput ↔ nul ∉ userInput.toList := by
  have hnone : ftsQuery userInput = none ↔ ∀ c ∈ userInput.toList, isWhitespace c = true := by
    rw [ftsQuery_eq_none_iff, searchTokens, Lib.words_eq_nil_iff]
  have hlex := h.ftsExpression (searchTokens userInput)
  constructor
  · intro hreads hnul
    cases hquery : ftsQuery userInput with
    | none =>
      have hspace := hnone.mp hquery nul hnul
      revert hspace
      decide
    | some expr =>
      have hexpr := hreads.reads expr hquery
      rw [toList_ftsQuery hquery, hlex, if_pos (exists_nul_mem_searchTokens.mpr hnul)] at hexpr
      cases hexpr
  · intro hnul
    refine ⟨hnone, fun expr hquery => ?_⟩
    rw [toList_ftsQuery hquery, hlex, if_neg]
    rwa [exists_nul_mem_searchTokens]

/-- Such an engine reads the expression of an input exactly when the input has no NUL. -/
theorem FtsEngine.reads_iff {lex : List Char → Option (List FtsToken)} {engine : FullText}
    (h : FtsEngine lex engine) (userInput : String) :
    engine.Reads userInput ↔ nul ∉ userInput.toList := by
  have hlex := h.ftsExpression (searchTokens userInput)
  rw [← exists_nul_mem_searchTokens]
  constructor
  · intro hreads hnul
    cases hquery : ftsQuery userInput with
    | none =>
      obtain ⟨token, htoken, -⟩ := hnul
      rw [ftsQuery_eq_none_iff.mp hquery] at htoken
      cases htoken
    | some expr =>
      rw [← toList_ftsQuery hquery, if_pos hnul] at hlex
      exact h.unread expr hlex (hreads expr hquery)
  · intro hnul expr hquery
    rw [← toList_ftsQuery hquery, if_neg hnul] at hlex
    exact h.phrases expr _ hlex

/-! ## A lexer of this kind -/

namespace PlainLexer

/-- The tokens of a text without NUL. Every character that begins no string is a token of its
own. -/
def lexText : List Char → Option (List FtsToken)
  | [] => some []
  | c :: input =>
    if c = '"' then
      match _h : Lib.readQuoted '"' input with
      | none => none
      | some (text, rest) => (lexText rest).map (.string text :: ·)
    else if c = ' ' then lexText input
    else (lexText input).map ((if c = '*' then .star else .other c) :: ·)
termination_by input => input.length
decreasing_by
  · have hlen := Lib.length_lt_of_readQuoted _h
    simp only [List.length_cons]
    omega
  · simp
  · simp

/-- The text that a C string ends with its first NUL. -/
def upToNul : List Char → List Char
  | [] => []
  | c :: input => if c = nul then [] else c :: upToNul input

theorem upToNul_append_of_not_mem {before : List Char} (h : nul ∉ before) (input : List Char) :
    upToNul (before ++ input) = before ++ upToNul input := by
  induction before with
  | nil => rfl
  | cons c before ih =>
    rw [List.mem_cons, not_or] at h
    rw [List.cons_append, upToNul, if_neg (Ne.symm h.1), ih h.2, List.cons_append]

theorem upToNul_append_nul (before after : List Char) :
    upToNul (before ++ nul :: after) = upToNul before := by
  induction before with
  | nil => simp [upToNul]
  | cons c before ih =>
    rw [List.cons_append, upToNul, upToNul, ih]

theorem head?_upToNul_ne {c : Char} {input : List Char} (h : input.head? ≠ some c) :
    (upToNul input).head? ≠ some c := by
  cases input with
  | nil => simp [upToNul]
  | cons d input =>
    unfold upToNul
    split
    · simp
    · simpa using h

def lex (input : List Char) : Option (List FtsToken) := lexText (upToNul input)

theorem lexText_string {input text rest : List Char}
    (h : Lib.readQuoted '"' input = some (text, rest)) :
    lexText ('"' :: input) = (lexText rest).map (.string text :: ·) := by
  rw [lexText, if_pos rfl]
  split
  · rename_i hnone
    rw [h] at hnone
    cases hnone
  · rename_i hsome
    rw [h] at hsome
    cases hsome
    rfl

theorem lexText_unterminated {input : List Char} (h : Lib.readQuoted '"' input = none) :
    lexText ('"' :: input) = none := by
  rw [lexText, if_pos rfl]
  split
  · rfl
  · rename_i hsome
    rw [h] at hsome
    cases hsome

theorem ftsLexing : FtsLexing lex where
  cString before after := by
    unfold lex
    rw [upToNul_append_nul]
  done := by simp [lex, upToNul, lexText]
  blank rest := by
    unfold lex
    rw [upToNul, if_neg (by decide), lexText, if_neg (by decide), if_pos rfl]
  star rest := by
    unfold lex
    rw [upToNul, if_neg (by decide), lexText, if_neg (by decide), if_neg (by decide), if_pos rfl]
  string input text rest hread hnul := by
    obtain ⟨rfl, hhead⟩ := Lib.readQuoted_eq_some_iff.mp hread
    have hbody : nul ∉ '"' :: (Lib.doubled '"' text ++ ['"']) := by
      simpa [nul] using hnul
    have hcut := upToNul_append_of_not_mem hbody rest
    simp only [List.cons_append, List.append_assoc, List.nil_append] at hcut
    unfold lex
    rw [hcut]
    exact lexText_string (Lib.readQuoted_doubled text (head?_upToNul_ne hhead))
  unterminated input hread hnul := by
    have hbody : nul ∉ '"' :: input := by
      simpa [nul] using hnul
    have hcut := upToNul_append_of_not_mem hbody []
    rw [List.append_nil, upToNul, List.append_nil] at hcut
    unfold lex
    rw [hcut]
    exact lexText_unterminated hread

/-- An engine with this lexer that accepts whatever can be lexed. -/
def syntaxError (expr : String) : Option String :=
  match lex expr.toList with
  | none => some "unterminated string"
  | some _ => none

theorem ftsEngine {engine : FullText} (h : engine.syntaxError = syntaxError) :
    FtsEngine lex engine where
  toFtsLexing := ftsLexing
  unread expr hlex := by
    rw [h, syntaxError, hlex]
    simp
  phrases expr tokens hlex := by
    rw [h, syntaxError, hlex]

/-- An engine that finds every row. -/
def everything : FullText where
  syntaxError := syntaxError
  selects _ _ := true
  rank _ _ := 0
  tie _ _ _ _ _ := true

theorem reads_everything {userInput : String} (h : nul ∉ userInput.toList) :
    everything.Reads userInput := ((ftsEngine rfl).reads_iff userInput).mpr h

/-- A NUL between two letters. -/
def hostile : String := String.ofList ['a', nul, 'b']

theorem hostile_unterminated :
    ftsQuery hostile = some (String.ofList ['"', 'a', nul, 'b', '"', '*']) ∧
      lex ['"', 'a', nul, 'b', '"', '*'] = none ∧ ¬ ReadsTokens lex hostile := by
  have hquery : ftsQuery hostile = some (String.ofList ['"', 'a', nul, 'b', '"', '*']) := by
    decide
  have hread : Lib.readQuoted '"' ['a'] = none := rfl
  have hlex : lex ['"', 'a', nul, 'b', '"', '*'] = none := lexText_unterminated hread
  refine ⟨hquery, hlex, fun h => ?_⟩
  have hreads := h.reads _ hquery
  rw [String.toList_ofList, hlex] at hreads
  cases hreads

theorem reads_tokens_iff_plainLexer :
    ReadsTokens lex "NEAR(\"a b" ↔ nul ∉ "NEAR(\"a b".toList :=
  reads_tokens_iff ftsLexing "NEAR(\"a b"

end PlainLexer

end Loku
