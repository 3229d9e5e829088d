import Loku.Nfo.Parse

/-!
# The order of elements

Two documents whose elements are the same up to the order of differently named ones need not be
parsed alike: a list whose elements stand together in one of them and not in the other is a
duplicate field there (`parseNfo_reordered_iff`).
-/

namespace Loku

section Reordered

variable {Entry DeError : Type} (xml : QuickXml Entry DeError)

/-- An entry is read into the field of its name, and every field has a name of its own. -/
theorem field_eq_some_iff (root : NfoRoot) (e : Entry) (f : (root.schema xml).Field) :
    (root.schema xml).field e = some f ↔ xml.key e = (root.schema xml).fieldKey f := by
  have hself : (root.schema xml).fields.find?
      (fun g => (root.schema xml).fieldKey g = (root.schema xml).fieldKey f) = some f := by
    cases root <;> cases f <;> rfl
  constructor
  · intro h
    exact Lib.Record.Schema.entryKey_of_isFor (Lib.Record.Schema.isFor_iff.mpr h)
  · intro h
    rw [← hself, ← h]
    rfl

theorem nfoContent_of_markup {input : String} {inner : List Char}
    (h : input.toList = '<' :: (inner ++ ['>'])) : nfoContent input = input := by
  have hfirst : ('<' :: (inner ++ ['>'])).dropWhile isWhitespace = '<' :: (inner ++ ['>']) :=
    List.dropWhile_cons_of_neg (by decide)
  have hlast : ('<' :: inner ++ ['>']).rdropWhile isWhitespace = '<' :: inner ++ ['>'] :=
    List.rdropWhile_concat_neg _ _ _ (by decide)
  unfold nfoContent trim
  rw [h, List.dropWhile_cons_of_neg (by decide), String.toList_ofList, hfirst, ← List.cons_append,
    hlast, List.cons_append, ← h, String.ofList_toList]

/-- The text is a document with this root and these entries in it. -/
structure IsDocument (input root : String) (entries : List Entry) : Prop where
  markup : '<' ∈ (nfoContent input).toList
  root_eq : rootElement (xml.events (sanitizeEntities (nfoContent input))) = some root
  contents : xml.root (sanitizeEntities (nfoContent input)) = .ok ⟨entries, .ok ()⟩

variable {xml} {input input' name name' : String} {root : NfoRoot} {entries entries' : List Entry}

theorem parseNfo_of_isDocument (h : IsDocument xml input name entries)
    (hroot : NfoRoot.ofName name = some root) : parseNfo xml input =
      (((root.schema xml).read entries).map (root.nfo xml)).mapError (.xmlParse name) := by
  have hne : nfoContent input ≠ "" := by
    intro heq
    have hmarkup := h.markup
    simp [heq] at hmarkup
  have hfrom : fromStr xml root (sanitizeEntities (nfoContent input)) =
      ((root.schema xml).read entries).map (root.nfo xml) := by
    have hdeserialize : (root.fields xml).deserialize xml ⟨entries, .ok ()⟩ =
        (root.schema xml).read entries := by
      change (do let values ← (root.schema xml).read entries; _) = _
      cases (root.schema xml).read entries <;> rfl
    rw [fromStr, h.contents]
    change root.nfo xml <$> (root.fields xml).deserialize xml ⟨entries, .ok ()⟩ = _
    rw [hdeserialize]
    rfl
  simp only [parseNfo, if_neg hne, List.contains_iff_mem.mpr h.markup, h.root_eq, hroot, hfrom]
  rfl

theorem mapError_eq_ok_iff {α ε ε' : Type} (g : ε → ε') (x : Except ε α) (a : α) :
    x.mapError g = .ok a ↔ x = .ok a := by
  cases x <;> simp [Except.mapError]

/-- A document is parsed as one with the same elements in another order is, exactly when a field
of one value has two elements, or the elements of each list stand together in both documents or
not all of them in either. -/
theorem parseNfo_reordered_iff (h : IsDocument xml input name entries)
    (h' : IsDocument xml input' name' entries') (hroot : NfoRoot.ofName name = some root)
    (hroot' : NfoRoot.ofName name' = some root)
    (hreordered : (root.schema xml).Reordered entries entries')
    (hreads : ∀ e ∈ entries, (root.schema xml).Reads e) :
    (∀ nfo, parseNfo xml input = .ok nfo ↔ parseNfo xml input' = .ok nfo) ↔
      ¬ (root.schema xml).Single entries ∨
        ((root.schema xml).Together entries ↔ (root.schema xml).Together entries') := by
  rw [← Lib.Record.Schema.read_reordered_iff (root.nfo xml) hreordered hreads]
  simp only [parseNfo_of_isDocument h hroot, parseNfo_of_isDocument h' hroot', mapError_eq_ok_iff]

end Reordered

/-! ### Genres around a title -/

namespace GenresApart

def grouped : List (String × String) := [("genre", "A"), ("genre", "B"), ("title", "X")]

def apart : List (String × String) := [("genre", "A"), ("title", "X"), ("genre", "B")]

def text (elements : List (String × String)) : String :=
  "<movie>" ++ String.join (elements.map fun e => "<" ++ e.1 ++ ">" ++ e.2 ++ "</" ++ e.1 ++ ">") ++
    "</movie>"

theorem exists_markup (elements : List (String × String)) :
    ∃ inner, (text elements).toList = '<' :: (inner ++ ['>']) := by
  refine ⟨"movie>".toList ++ ((String.join (elements.map fun e =>
    "<" ++ e.1 ++ ">" ++ e.2 ++ "</" ++ e.1 ++ ">")).toList ++ "</movie".toList), ?_⟩
  simp [text]

/-- The text is parsed as it is. -/
theorem nfoContent_text (elements : List (String × String)) :
    nfoContent (text elements) = text elements := by
  obtain ⟨inner, hmarkup⟩ := exists_markup elements
  exact nfoContent_of_markup hmarkup

theorem lt_mem_nfoContent_text (elements : List (String × String)) :
    '<' ∈ (nfoContent (text elements)).toList := by
  obtain ⟨inner, hmarkup⟩ := exists_markup elements
  rw [nfoContent_text, hmarkup]
  exact List.mem_cons_self

/-- The library on the two documents. -/
def xml : QuickXml (String × String) String where
  events _ := [.start "movie"]
  root document :=
    if document = text grouped then .ok ⟨grouped, .ok ()⟩
    else if document = text apart then .ok ⟨apart, .ok ()⟩
    else .error "syntax"
  key := Prod.fst
  contents _ := ⟨[], .ok ()⟩
  string e := .ok e.2
  optionString e := .ok (some e.2)
  ignoredAny _ := .ok ()
  duplicateField field := "duplicate field `" ++ field ++ "`"

theorem isDocument_grouped : IsDocument xml (text grouped) "movie" grouped where
  markup := lt_mem_nfoContent_text _
  root_eq := rfl
  contents := by
    rw [nfoContent_text, sanitizeEntities_of_not_mem (by decide)]
    simp [xml]

theorem isDocument_apart : IsDocument xml (text apart) "movie" apart where
  markup := lt_mem_nfoContent_text _
  root_eq := rfl
  contents := by
    have hne : text apart ≠ text grouped := by decide
    rw [nfoContent_text, sanitizeEntities_of_not_mem (by decide)]
    simp [xml, hne]

theorem reordered : (NfoRoot.movie.schema xml).Reordered grouped apart where
  perm := (List.Perm.swap _ _ []).cons _
  same_key key := by
    change grouped.filter (fun e => decide (e.1 = key)) = apart.filter fun e => decide (e.1 = key)
    by_cases hgenre : "genre" = key
    · subst hgenre
      decide
    · simp [grouped, apart, List.filter_cons, hgenre]

theorem reads : ∀ e ∈ grouped, (NfoRoot.movie.schema xml).Reads e := by
  intro e he
  simp only [grouped, List.mem_cons, List.not_mem_nil, or_false] at he
  rcases he with rfl | rfl | rfl <;> exact ⟨_, rfl⟩

theorem parseNfo_reordered_iff_grouped :
    (∀ nfo, parseNfo xml (text grouped) = .ok nfo ↔ parseNfo xml (text apart) = .ok nfo) ↔
      ¬ (NfoRoot.movie.schema xml).Single grouped ∨
        ((NfoRoot.movie.schema xml).Together grouped ↔
          (NfoRoot.movie.schema xml).Together apart) :=
  parseNfo_reordered_iff isDocument_grouped isDocument_apart rfl rfl reordered reads

/-- With a title between the genres the document fails, where the genres together are read. -/
theorem apart_fails :
    parseNfo xml (text apart) = .error (.xmlParse "movie" "duplicate field `genre`") ∧
      ¬ ∀ input input' entries entries', IsDocument xml input "movie" entries →
        IsDocument xml input' "movie" entries' →
        (NfoRoot.movie.schema xml).Reordered entries entries' →
        (∀ e ∈ entries, (NfoRoot.movie.schema xml).Reads e) →
        ∀ nfo, parseNfo xml input = .ok nfo ↔ parseNfo xml input' = .ok nfo := by
  have hgrouped : ∃ nfo, parseNfo xml (text grouped) = .ok nfo := by
    rw [parseNfo_of_isDocument isDocument_grouped rfl]
    exact ⟨_, rfl⟩
  have hapart : parseNfo xml (text apart) =
      .error (.xmlParse "movie" "duplicate field `genre`") := by
    rw [parseNfo_of_isDocument isDocument_apart rfl]
    rfl
  refine ⟨hapart, fun hall => ?_⟩
  obtain ⟨nfo, hnfo⟩ := hgrouped
  have hsame := (hall _ _ _ _ isDocument_grouped isDocument_apart reordered reads nfo).mp hnfo
  rw [hapart] at hsame
  cases hsame

end GenresApart

end Loku
