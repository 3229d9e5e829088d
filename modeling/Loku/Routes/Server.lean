import Loku.Lib.PercentCode
import Loku.Nfo.Parse
import Loku.Routes.BrowseHandler
import Loku.Routes.Item
import Loku.Routes.Payloads
import Loku.Routes.Search
import Loku.Serde

/-!
# The API routes

A request is told by its method and path; its query or body is read into the struct that the
handler takes, and what the handler returns is written as JSON or as the text of the error with
its status.
-/

namespace Loku

inductive Method
  | get
  | post
deriving DecidableEq

structure HttpRequest where
  method : Method
  path : List Char
  query : Option (List Char)
  body : Option Json

inductive HttpBody
  | json (value : Json)
  | text (s : String)
  /-- What is said of a query or a body that cannot be read. -/
  | rejection

structure HttpResponse where
  status : Nat
  body : HttpBody

/-! ## Reading a query -/

/-- What is relied on of the reader of a query: it undoes the encoding of a component. -/
structure FormReader where
  decode : List Char → List Char
  decode_encode : ∀ text, decode (Lib.PercentCode.encode text) = text

/-- A plus sign is a space, and a text that cannot be decoded is taken as it is. -/
def FormReader.plain : FormReader where
  decode text :=
    (Lib.PercentCode.decode (text.map fun c => if c = '+' then ' ' else c)).getD text
  decode_encode text := by
    have hplus : '+' ∉ Lib.PercentCode.encode text :=
      Lib.PercentCode.not_mem_encode (by decide) (by decide) text
    have hmap : (Lib.PercentCode.encode text).map (fun c => if c = '+' then ' ' else c) =
        Lib.PercentCode.encode text := by
      refine (List.map_congr_left fun c hc => ?_).trans (List.map_id _)
      apply if_neg
      rintro rfl
      exact hplus hc
    rw [hmap, Lib.PercentCode.decode_encode, Option.getD_some]

/-- The keys and values of a query. -/
def FormReader.pairs (reader : FormReader) (query : Option (List Char)) :
    List (List Char × List Char) :=
  (((query.getD []).splitOn '&').filter (· ≠ [])).map fun part =>
    (reader.decode (part.takeWhile (· ≠ '=')), reader.decode ((part.dropWhile (· ≠ '=')).drop 1))

/-- The value of a key, which may come once only. -/
def formField (pairs : List (List Char × List Char)) (name : String) : Option (Option String) :=
  match pairs.filter fun kv => kv.1 == name.toList with
  | [] => some none
  | [kv] => some (some (String.ofList kv.2))
  | _ => none

/-- An optional number of 32 bits. -/
def formU32 (pairs : List (List Char × List Char)) (name : String) : Option (Option Nat) :=
  (formField pairs name).bind fun value =>
    match value with
    | none => some none
    | some text => (parseU32 text).map some

def BrowseQuery.ofForm (pairs : List (List Char × List Char)) : Option BrowseQuery := do
  let library ← formField pairs "library"
  let path ← formField pairs "path"
  return { library, path := path.getD "" }

def ItemQuery.ofForm (pairs : List (List Char × List Char)) : Option ItemQuery := do
  let library ← (← formField pairs "library")
  let path ← (← formField pairs "path")
  return { library, path }

def SearchQuery.ofForm (pairs : List (List Char × List Char)) : Option SearchQuery := do
  let q ← (← formField pairs "q")
  let library ← formField pairs "library"
  let limit ← formU32 pairs "limit"
  let offset ← formU32 pairs "offset"
  return { q, library, limit, offset }

def SetMainTitleRequest.deserialize (json : Json) : Option SetMainTitleRequest := do
  let names := ["library", "disc_set", "path"]
  let library ← (← Serde.structField names "library" json).bind Json.asStr
  let discSet ← (← Serde.structField names "disc_set" json).bind Json.asStr
  let path ← (← Serde.structField names "path" json).bind Json.asStr
  return { library, discSet, path }

/-! ## Writing an answer -/

def BrowseError.status : BrowseError → Nat
  | .pathTraversal _ => 400
  | .unknownLibrary _ | .directoryNotFound _ => 404

def ItemError.status : ItemError → Nat
  | .unknownLibrary _ | .itemNotFound _ _ => 404

def SearchError.status : SearchError → Nat
  | .unknownLibrary _ => 404
  | .index _ => 500

def DiscSetError.status : DiscSetError → Nat
  | .unknownLibrary _ | .itemNotFound _ _ => 404
  | .notInSet _ _ => 400

def LibraryKind.toJson : LibraryKind → Json
  | .downloads => .string "downloads"
  | .discs => .string "discs"

def LibraryInfo.toJson (info : LibraryInfo) : Json :=
  .record [("name", some (.string info.name)), ("kind", some info.kind.toJson)]

def SetMainTitleResponse.toJson (response : SetMainTitleResponse) : Json :=
  .record
    [("library", some (.string response.library)),
      ("disc_set", some (.string response.discSet)),
      ("main_path", some (.string response.mainPath))]

/-- The response to what a handler returns. -/
def HttpResponse.of {ε α : Type} (status : ε → Nat) (text : ε → String) (toJson : α → Json) :
    Except ε α → HttpResponse
  | .ok value => ⟨200, .json (toJson value)⟩
  | .error error => ⟨status error, .text (text error)⟩

/-- A query that cannot be read, and a body that can but is no such struct. -/
def HttpResponse.badQuery : HttpResponse := ⟨400, .rejection⟩

def HttpResponse.badBody : HttpResponse := ⟨422, .rejection⟩

/-! ## The routes -/

/-- What the server answers from. -/
structure ServerState where
  tree : FileTree
  libraries : List Library
  engine : FullText
  active : Option ActiveDerivation
  index : Index

namespace ServerState

variable (s : ServerState)

def browse (params : BrowseQuery) : HttpResponse :=
  .of BrowseError.status BrowseError.text DirListing.toJson
    (browseHandler s.tree s.libraries s.active s.index params)

def item (params : ItemQuery) : HttpResponse :=
  .of ItemError.status ItemError.text VideoItem.toJson
    (itemHandler s.libraries s.active s.index params)

def search (params : SearchQuery) : HttpResponse :=
  .of SearchError.status SearchError.text SearchPage.toJson
    (searchHandler s.libraries s.engine s.active params s.index)

def listLibraries : HttpResponse :=
  ⟨200, .json (.array ((librariesHandler s.libraries).map LibraryInfo.toJson))⟩

def setMain (request : SetMainTitleRequest) : ServerState × HttpResponse :=
  match setMainHandler s.libraries request s.index with
  | .ok (index, response) => ({ s with index := index }, ⟨200, .json response.toJson⟩)
  | .error error => (s, ⟨error.status, .text error.text⟩)

/-- The routes of `app_routes`; any other request is left to what stands behind them. -/
def appRoutes (reader : FormReader) (request : HttpRequest) :
    Option (ServerState × HttpResponse) :=
  let pairs := reader.pairs request.query
  if request.method = .get ∧ request.path = "/api/browse".toList then
    some (s, ((BrowseQuery.ofForm pairs).map s.browse).getD .badQuery)
  else if request.method = .get ∧ request.path = "/api/libraries".toList then
    some (s, s.listLibraries)
  else if request.method = .get ∧ request.path = "/api/search".toList then
    some (s, ((SearchQuery.ofForm pairs).map s.search).getD .badQuery)
  else if request.method = .get ∧ request.path = "/api/item".toList then
    some (s, ((ItemQuery.ofForm pairs).map s.item).getD .badQuery)
  else if request.method = .post ∧ request.path = "/api/disc-sets/main".toList then
    some (((request.body.bind SetMainTitleRequest.deserialize).map s.setMain).getD (s, .badBody))
  else none

end ServerState

end Loku
