import Loku.Index.Search
import Loku.Routes.DiscSets

/-!
# The search route

One page of results: the page size defaults to `DEFAULT_LIMIT` and is capped at `MAX_LIMIT`; a
query without searchable tokens has no results, and one whose expression the engine cannot read
fails.
-/

namespace Loku

def defaultLimit : Nat := 50

def maxLimit : Nat := 200

structure SearchQuery where
  q : String
  library : Option String
  limit : Option Nat
  offset : Option Nat
deriving DecidableEq

structure SearchPage where
  total : Nat
  limit : Nat
  offset : Nat
  items : List VideoItem
deriving DecidableEq

inductive SearchError
  | unknownLibrary (name : String)
  | index (error : IndexError)
deriving DecidableEq

def SearchError.text : SearchError → String
  | .unknownLibrary name => "Library '" ++ name ++ "' is not configured"
  | .index error => error.text

/-- The handler, on a database that answers. -/
def searchHandler (libraries : List Library) (engine : FullText)
    (active : Option ActiveDerivation) (params : SearchQuery) (index : Index) :
    Except SearchError SearchPage :=
  match params.library.filter fun name => (findLibrary libraries name).isNone with
  | some name => .error (.unknownLibrary name)
  | none =>
    let limit := min (params.limit.getD defaultLimit) maxLimit
    let offset := params.offset.getD 0
    match ftsQuery params.q with
    | none => .ok { total := 0, limit := limit, offset := offset, items := [] }
    | some fts =>
      match index.search engine fts params.library limit offset with
      | .error error => .error (.index error)
      | .ok results =>
        .ok
          { total := results.total
            limit := limit
            offset := offset
            items := results.items.map (VideoItem.fromRecord active) }

section
variable {libraries : List Library} {engine : FullText} {index : Index} {q : String}
  {library : Option String}

theorem findLibrary_filter (hlib : ∀ name ∈ library, (findLibrary libraries name).isSome = true) :
    library.filter (fun name => (findLibrary libraries name).isNone) = none := by
  rw [Option.filter_eq_none_iff]
  intro name hname
  simp [Option.isSome_iff_ne_none.mp (hlib name hname)]

/-- What the engine cannot read is answered with its error. -/
theorem searchHandler_unread (hlib : ∀ name ∈ library, (findLibrary libraries name).isSome = true)
    (hunread : ¬ engine.Reads q) (a : Option ActiveDerivation) (limit offset : Option Nat) :
    ∃ error, searchHandler libraries engine a
      { q := q, library := library, limit := limit, offset := offset } index =
        .error (.index error) := by
  unfold FullText.Reads at hunread
  push Not at hunread
  obtain ⟨fts, hfts, htext⟩ := hunread
  obtain ⟨text, htext⟩ := Option.ne_none_iff_exists'.mp htext
  unfold searchHandler Index.search
  simp only [findLibrary_filter hlib, hfts, htext]
  exact ⟨_, rfl⟩

end

end Loku
