import Loku.Lib.ByteSlice
import Loku.Nfo.Entities

/-!
# The loop that escapes ampersands

`sanitize_entities` searches the rest of the text for an `&`, and cuts it there and behind it by
byte positions; a cut inside a character would panic (`none`). It never does: every position is
that of an ASCII character or behind one, and what is left is shorter by what was cut off. So the
loop ends, and its result is that of the recursion over the characters (`sanitizeLoop_eq`).
-/

namespace Loku

/-! ## The loop -/

namespace Sliced

/-- `valid_entity_prefix`, with the slice that it takes. -/
def validEntityPrefix (rest : String) : Option Bool :=
  if entityNames.any fun name => (name ++ [';']).isPrefixOf rest.toList then some true
  else
    match (Lib.findByte ';' rest).filter fun stop => 2 ≤ stop ∧ stop ≤ 10 with
    | none => some false
    | some stop => (Lib.sliceTo rest stop).map fun body => isNumericBody body.toList

/-- The loop, `out` being what it has written. -/
def sanitizeLoop (out rest : String) : Option String :=
  match Lib.findByte '&' rest with
  | none => some (out ++ rest)
  | some pos =>
    (Lib.sliceTo rest pos).bind fun before =>
      match _hcut : Lib.sliceFrom rest (pos + 1) with
      | none => none
      | some after =>
        (validEntityPrefix after).bind fun valid =>
          sanitizeLoop (out ++ before ++ if valid then "&" else "&amp;") after
termination_by rest.utf8ByteSize
decreasing_by exact Lib.length_lt_of_sliceFrom ‹_›

def sanitizeEntities (input : String) : Option String := sanitizeLoop "" input

end Sliced

/-! ## Its slices -/

theorem byteLength_toList (s : String) : byteLength s.toList = s.utf8ByteSize := by
  obtain ⟨text, rfl⟩ := s.exists_eq_ofList
  rw [String.toList_ofList]
  induction text with
  | nil => rfl
  | cons c text ih =>
    rw [← List.singleton_append, String.ofList_append, String.utf8ByteSize_append, ← ih]
    simp [byteLength]

namespace Sliced

theorem validEntityPrefix_eq (rest : String) :
    validEntityPrefix rest = some (Loku.validEntityPrefix rest.toList) := by
  unfold validEntityPrefix Loku.validEntityPrefix
  split
  · rename_i hname
    rw [hname, Bool.true_or]
  · rename_i hname
    rw [Bool.eq_false_of_not_eq_true hname, Bool.false_or]
    by_cases hsemi : ';' ∈ rest.toList
    · obtain ⟨body, tail, rfl, hbody⟩ := Lib.exists_append_of_mem hsemi
      have hcut : Lib.sliceTo (body ++ (String.singleton ';' ++ tail)) body.utf8ByteSize =
          some body := Lib.sliceTo_append _ _
      rw [Lib.findByte_append hbody, Option.filter_some, Lib.toList_append_singleton,
        takeWhile_window hbody]
      dsimp only
      rw [byteLength_toList, ← Bool.decide_and]
      by_cases hsize : 2 ≤ body.utf8ByteSize ∧ body.utf8ByteSize ≤ 10
      · rw [if_pos (decide_eq_true hsize)]
        dsimp only
        rw [hcut, decide_eq_true hsize]
        simp
      · rw [if_neg (by rwa [decide_eq_true_eq]), decide_eq_false hsize, Bool.false_and,
          Bool.and_false]
    · rw [Lib.findByte_eq_none hsemi]
      simp [hsemi]

/-- One round: what stands before the `&` is written, then the `&`, escaped or not. -/
theorem sanitizeLoop_ampersand {before : String} (h : '&' ∉ before.toList) (out after : String) :
    sanitizeLoop out (before ++ (String.singleton '&' ++ after)) =
      sanitizeLoop (out ++ before ++ if Loku.validEntityPrefix after.toList then "&" else "&amp;")
        after := by
  have hfrom : Lib.sliceFrom (before ++ (String.singleton '&' ++ after))
      (before.utf8ByteSize + 1) = some after := by
    have hsize : before.utf8ByteSize + 1 = (before ++ String.singleton '&').utf8ByteSize := by
      rw [String.utf8ByteSize_append]
      rfl
    rw [hsize, ← String.append_assoc]
    exact Lib.sliceFrom_append _ _
  rw [sanitizeLoop, Lib.findByte_append h]
  dsimp only
  rw [Lib.sliceTo_append, Option.bind_some]
  split
  · rename_i hnone
    cases hfrom.symm.trans hnone
  · rename_i hsome
    cases hfrom.symm.trans hsome
    rw [validEntityPrefix_eq, Option.bind_some]

/-- The loop ends without a panic, and it writes what the recursion does. -/
theorem sanitizeLoop_eq (out rest : String) :
    sanitizeLoop out rest = some (out ++ String.ofList (sanitize rest.toList)) := by
  -- the text that is left gets shorter
  induction hlength : rest.utf8ByteSize using Nat.strongRecOn generalizing out rest with
  | ind n ih =>
    by_cases hamp : '&' ∈ rest.toList
    · obtain ⟨before, after, rfl, hbefore⟩ := Lib.exists_append_of_mem hamp
      have hshorter : after.utf8ByteSize < n := by
        have hone : (String.singleton '&').utf8ByteSize = 1 := rfl
        rw [← hlength, String.utf8ByteSize_append, String.utf8ByteSize_append, hone]
        omega
      rw [sanitizeLoop_ampersand hbefore, ih _ hshorter _ after rfl, Lib.toList_append_singleton,
        sanitize_append hbefore, sanitize, if_pos rfl]
      rw [Option.some_inj, ← String.toList_inj]
      split
      · simp
      · simp
    · have hsame := sanitize_append hamp []
      rw [List.append_nil, sanitize, List.append_nil] at hsame
      rw [sanitizeLoop, Lib.findByte_eq_none hamp, hsame, String.ofList_toList]

theorem sanitizeEntities_eq (input : String) :
    sanitizeEntities input = some (Loku.sanitizeEntities input) := by
  unfold sanitizeEntities
  rw [sanitizeLoop_eq, String.empty_append]
  rfl

/-! ## What is escaped -/

/-- What the result has behind a character of the text: `amp;` behind an `&` that begins no
entity. -/
def insertedBehind (text : List Char) (i : Nat) : List Char :=
  if text[i]? = some '&' ∧ validEntityPrefix (String.ofList (text.drop (i + 1))) = some false then
    "amp;".toList
  else []

/-- The characters of the text, with what is inserted behind each. -/
theorem sanitize_eq_flatten (text : List Char) :
    sanitize text = (text.mapIdx fun i c => c :: insertedBehind text i).flatten := by
  induction text with
  | nil => rfl
  | cons c rest ih =>
    have hrest : ∀ i, insertedBehind (c :: rest) (i + 1) = insertedBehind rest i := fun _ => rfl
    have hhead : insertedBehind (c :: rest) 0 =
        if c = '&' ∧ Loku.validEntityPrefix rest = false then "amp;".toList else [] := by
      simp [insertedBehind, validEntityPrefix_eq]
    rw [List.mapIdx_cons, List.flatten_cons, hhead]
    simp only [hrest]
    rw [← ih, sanitize]
    by_cases hc : c = '&'
    · subst hc
      cases Loku.validEntityPrefix rest <;> rfl
    · simp [hc]

/-- The loop ends without a panic and inserts `amp;` behind exactly the ampersands that begin no
entity. Every `&` of the result begins one, and a second run changes nothing. -/
theorem sanitizeEntities_escapes_strays (input : String) :
    ∃ output, sanitizeEntities input = some output ∧
      output.toList = (input.toList.mapIdx fun i c => c :: insertedBehind input.toList i).flatten ∧
      (∀ before after, output.toList = before ++ '&' :: after →
        validEntityPrefix (String.ofList after) = some true) ∧
      sanitizeEntities output = some output := by
  refine ⟨_, sanitizeEntities_eq input, ?_, ?_, ?_⟩
  · rw [Loku.sanitizeEntities, String.toList_ofList]
    exact sanitize_eq_flatten input.toList
  · intro before after heq
    rw [Loku.sanitizeEntities, String.toList_ofList] at heq
    have hvalid := validEntityPrefix_of_mem_sanitize (mem_afterAmps_iff.mpr ⟨before, heq⟩)
    rw [validEntityPrefix_eq, String.toList_ofList, hvalid]
  · rw [sanitizeEntities_eq, Loku.sanitizeEntities, Loku.sanitizeEntities, String.toList_ofList,
      sanitize_idempotent]

end Sliced

end Loku
