import Loku.Routes.DiscSets

/-!
# The item and library routes

One video by its library and path, which is a key of the index and never a path of the file
system; and the configured libraries without their places.
-/

namespace Loku

structure ItemQuery where
  library : String
  path : String
deriving DecidableEq

inductive ItemError
  | unknownLibrary (name : String)
  | itemNotFound (library path : String)
deriving DecidableEq

def ItemError.text : ItemError → String
  | .unknownLibrary name => "Library '" ++ name ++ "' is not configured"
  | .itemNotFound library path =>
    "Video '" ++ path ++ "' not found in library '" ++ library ++ "'"

/-- The handler, on a database that answers. -/
def itemHandler (libraries : List Library) (active : Option ActiveDerivation) (index : Index)
    (params : ItemQuery) : Except ItemError VideoItem :=
  match findLibrary libraries params.library with
  | none => .error (.unknownLibrary params.library)
  | some _ =>
    match index.video params.library
        (String.ofList (params.path.toList.dropWhile (· == '/'))) with
    | none => .error (.itemNotFound params.library params.path)
    | some record => .ok (VideoItem.fromRecord active record)

structure LibraryInfo where
  name : String
  kind : LibraryKind
deriving DecidableEq

def librariesHandler (libraries : List Library) : List LibraryInfo :=
  libraries.map fun l => { name := l.name, kind := l.kind }

/-- A row of a configured library is had under its key, as listings and searches show it. -/
theorem itemHandler_of_row {libraries : List Library} {active : Option ActiveDerivation}
    {index : Index} {r : Row} (hr : r ∈ index.videos)
    (hlibrary : (findLibrary libraries r.record.library).isSome)
    (hpath : r.record.relPath.toList.head? ≠ some '/') :
    itemHandler libraries active index ⟨r.record.library, r.record.relPath⟩ =
      .ok (VideoItem.fromRecord active (index.recordFromRow r)) := by
  obtain ⟨library, hlibrary⟩ := Option.isSome_iff_exists.mp hlibrary
  have hdrop : r.record.relPath.toList.dropWhile (· == '/') = r.record.relPath.toList := by
    cases htext : r.record.relPath.toList with
    | nil => rfl
    | cons c rest =>
      rw [htext] at hpath
      apply List.dropWhile_cons_of_neg
      simpa using hpath
  have hfind : index.videos.find? (r.record.library, r.record.relPath) = some r :=
    Lib.Table.find?_key hr
  unfold itemHandler Index.video
  dsimp only
  rw [hlibrary, hdrop, String.ofList_toList, hfind]
  rfl

end Loku
