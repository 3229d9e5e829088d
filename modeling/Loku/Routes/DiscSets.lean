import Loku.Routes.Browse

/-!
# Main-title picks

`setMainHandler` accepts a pick when the library is configured and the video is indexed in the
named set, and records it under the library and the set's prefix. `overrideOf` is the pick that
is recorded for a set; an accepted request changes it for that set only
(`overrideOf_setMainTitle`).
-/

namespace Loku

structure SetMainTitleRequest where
  library : String
  discSet : String
  path : String
deriving DecidableEq

structure SetMainTitleResponse where
  library : String
  discSet : String
  mainPath : String
deriving DecidableEq

inductive DiscSetError
  | unknownLibrary (name : String)
  | itemNotFound (library path : String)
  | notInSet (path discSet : String)
deriving DecidableEq

def DiscSetError.text : DiscSetError → String
  | .unknownLibrary name => "Library '" ++ name ++ "' is not configured"
  | .itemNotFound library path =>
    "Video '" ++ path ++ "' not found in library '" ++ library ++ "'"
  | .notInSet path discSet =>
    "Video '" ++ path ++ "' does not belong to disc set '" ++ discSet ++ "'"

/-- `AppState::library`. -/
def findLibrary (libraries : List Library) (name : String) : Option Library :=
  libraries.find? fun l => l.name == name

/-- Record a pick, on a database that answers. -/
def setMainHandler (libraries : List Library) (request : SetMainTitleRequest) (index : Index) :
    Except DiscSetError (Index × SetMainTitleResponse) :=
  match findLibrary libraries request.library with
  | none => .error (.unknownLibrary request.library)
  | some _ =>
    match index.video request.library request.path with
    | none => .error (.itemNotFound request.library request.path)
    | some record =>
      if record.discSet ≠ some request.discSet then
        .error (.notInSet request.path request.discSet)
      else
        .ok (index.setMainTitle request.library request.discSet request.path,
          { library := request.library, discSet := request.discSet, mainPath := request.path })

/-- The pick recorded for a set. -/
def overrideOf (index : Index) (library discSet : String) : Option String :=
  (index.discSetOverrides.find? (library, discSet)).map DiscSetOverride.mainRelPath

/-! ## What an accepted request does -/

/-- An accepted request names a row of the set, and records it. -/
theorem setMainHandler_ok {libraries : List Library} {request : SetMainTitleRequest}
    {index index' : Index} {response : SetMainTitleResponse}
    (h : setMainHandler libraries request index = .ok (index', response)) :
    (∃ r ∈ index.videos, r.record.library = request.library ∧
      r.record.relPath = request.path ∧ r.record.discSet = some request.discSet) ∧
    index' = index.setMainTitle request.library request.discSet request.path := by
  unfold setMainHandler at h
  split at h
  · cases h
  · split at h
    · cases h
    · rename_i record hvideo
      split at h
      · cases h
      · rename_i hset
        obtain ⟨rfl, -⟩ := Prod.mk.inj (Except.ok.inj h)
        obtain ⟨r, hfind, rfl⟩ := Option.map_eq_some_iff.mp hvideo
        obtain ⟨hr, hkey⟩ := Lib.Table.find?_eq_some_iff.mp hfind
        exact ⟨⟨r, hr, congrArg Prod.fst hkey, congrArg Prod.snd hkey, not_not.mp hset⟩, rfl⟩

theorem overrideOf_setMainTitle (index : Index) (library discSet path : String)
    (library' discSet' : String) :
    overrideOf (index.setMainTitle library discSet path) library' discSet' =
      if library' = library ∧ discSet' = discSet then some path
      else overrideOf index library' discSet' := by
  unfold overrideOf Index.setMainTitle
  split
  · rename_i h
    obtain ⟨rfl, rfl⟩ := h
    have hself : (index.discSetOverrides.upsert
        { library := library', discSet := discSet', mainRelPath := path }
        (fun old => { old with mainRelPath := path }) (fun _ => rfl)).find?
          (library', discSet') = some (index.discSetOverrides.upserted
            { library := library', discSet := discSet', mainRelPath := path } _) :=
      Lib.Table.find?_upsert_self
    rw [hself]
    unfold Lib.Table.upserted
    cases index.discSetOverrides.find? _ <;> rfl
  · rename_i h
    refine congrArg (Option.map _) (Lib.Table.find?_upsert_of_ne ?_)
    intro hkey
    obtain ⟨hlib, hset⟩ := Prod.mk.inj hkey
    exact h ⟨hlib, hset⟩

/-- The map that a listing reads holds the recorded picks of its library. -/
theorem lookup_overrides (index : Index) (library relPath discSet : String) :
    (index.browseDirectory library relPath).overrides.lookup discSet =
      overrideOf index library discSet := by
  have hrows : ∀ rows : List DiscSetOverride,
      ((rows.filter fun o => o.library == library).map
        fun o => (o.discSet, o.mainRelPath)).lookup discSet =
        (rows.find? fun o => o.key = (library, discSet)).map DiscSetOverride.mainRelPath := by
    intro rows
    induction rows with
    | nil => rfl
    | cons o rows ih =>
      rw [List.filter_cons, List.find?_cons]
      by_cases hlib : o.library = library
      · rw [if_pos (by simpa using hlib), List.map_cons, List.lookup_cons, ih]
        by_cases hset : discSet = o.discSet
        · simp [hset, hlib, DiscSetOverride.key]
        · have hset' : o.discSet ≠ discSet := Ne.symm hset
          simp [hset', beq_false_of_ne hset, DiscSetOverride.key]
      · rw [if_neg (by simpa using hlib), ih]
        simp [hlib, DiscSetOverride.key]
  exact hrows _

end Loku
