import Loku.Disc
import Loku.Index.Rows

/-!
# Searching the index

Whether a match expression can be read, which rows it selects, and their ranks, are decided by the
full-text engine: `FullText` gives all three, and the order in which a statement leaves rows of
equal rank, which SQL does not fix. The rest of the two statements is here: the library filter, the
order by rank, the page. `Index.search` returns the whole count beside the page, or the engine's
error.
-/

namespace Loku

/-- The full-text engine: what it says of an expression that it cannot read, whether one that it
can matches a row, the row's rank, and the order of equally ranked rows in the statement for one
page. -/
structure FullText where
  syntaxError : String → Option String
  selects : String → VideoRecord → Bool
  rank : String → VideoRecord → Rat
  tie : String → Nat → Nat → VideoRecord → VideoRecord → Bool

structure SearchResults where
  total : Nat
  items : List VideoRecord
deriving DecidableEq

/-- `fts_query`: each token a quoted prefix; none when there are no tokens. -/
def ftsQuery (userInput : String) : Option String :=
  let tokens := (userInput.toList.splitOnP isWhitespace).filter fun token => !token.isEmpty
  let quoted := tokens.map fun token =>
    "\"" ++ String.ofList (token.flatMap fun c => if c = '"' then ['"', '"'] else [c]) ++ "\"*"
  if tokens.isEmpty then none else some (" ".intercalate quoted)

/-- The engine can read the expression of an input. -/
def FullText.Reads (engine : FullText) (userInput : String) : Prop :=
  ∀ fts, ftsQuery userInput = some fts → engine.syntaxError fts = none

namespace Index

/-- The rows that a query selects. -/
def matching (index : Index) (engine : FullText) (ftsQuery : String) (library : Option String) :
    List Row :=
  index.videos.rows.filter fun r =>
    engine.selects ftsQuery r.record && library.all fun name => r.record.library == name

/-- `ORDER BY bm25(videos_fts)`. -/
def rankLe (engine : FullText) (ftsQuery : String) (limit offset : Nat) (r r' : Row) : Prop :=
  engine.rank ftsQuery r.record < engine.rank ftsQuery r'.record ∨
    (engine.rank ftsQuery r.record = engine.rank ftsQuery r'.record ∧
      engine.tie ftsQuery limit offset r.record r'.record = true)

instance (engine : FullText) (ftsQuery : String) (limit offset : Nat) :
    DecidableRel (rankLe engine ftsQuery limit offset) := fun _ _ =>
  inferInstanceAs (Decidable (_ ∨ (_ ∧ _)))

/-- One page of the selected rows by rank. -/
def search (index : Index) (engine : FullText) (ftsQuery : String) (library : Option String)
    (limit offset : Nat) : Except IndexError SearchResults :=
  match engine.syntaxError ftsQuery with
  | some text => .error (.indexQuery "searching the index" (.syntaxError text))
  | none =>
    .ok
      { total := (index.matching engine ftsQuery library).length
        items := ((((index.matching engine ftsQuery library).insertionSort
          (rankLe engine ftsQuery limit offset)).drop offset).take limit).map
            index.recordFromRow }

/-- The indexed videos, of one library or of all. -/
def videoCount (index : Index) (library : Option String) : Nat :=
  index.videos.rows.countP fun r => library.all fun name => r.record.library == name

theorem search_ok_iff {index : Index} {engine : FullText} {ftsQuery : String}
    {library : Option String} {limit offset : Nat} :
    (∃ results, index.search engine ftsQuery library limit offset = .ok results) ↔
      engine.syntaxError ftsQuery = none := by
  unfold search
  cases engine.syntaxError ftsQuery with
  | none => simp
  | some text => simp

theorem total_search {index : Index} {engine : FullText} {ftsQuery : String}
    {library : Option String} {limit offset : Nat} {results : SearchResults}
    (hsearch : index.search engine ftsQuery library limit offset = .ok results) :
    results.total = (index.matching engine ftsQuery library).length := by
  have hread := search_ok_iff.mp ⟨results, hsearch⟩
  unfold search at hsearch
  rw [hread] at hsearch
  rw [← Except.ok.inj hsearch]

/-- An item is a row that the query selects. -/
theorem mem_search_items {index : Index} {engine : FullText} {ftsQuery : String}
    {library : Option String} {limit offset : Nat} {results : SearchResults}
    (hsearch : index.search engine ftsQuery library limit offset = .ok results)
    {record : VideoRecord} (h : record ∈ results.items) :
    ∃ r ∈ index.videos, engine.selects ftsQuery r.record = true ∧
      (∀ name ∈ library, r.record.library = name) ∧ index.recordFromRow r = record := by
  have hread := search_ok_iff.mp ⟨results, hsearch⟩
  unfold search at hsearch
  rw [hread] at hsearch
  obtain rfl := Except.ok.inj hsearch
  obtain ⟨r, hr, rfl⟩ := List.mem_map.mp h
  have hsorted := List.mem_of_mem_drop (List.mem_of_mem_take hr)
  rw [List.mem_insertionSort, matching, List.mem_filter, Bool.and_eq_true] at hsorted
  obtain ⟨hmem, hselects, hlibrary⟩ := hsorted
  refine ⟨r, hmem, hselects, ?_, rfl⟩
  rintro name rfl
  simpa using hlibrary

end Index

end Loku
