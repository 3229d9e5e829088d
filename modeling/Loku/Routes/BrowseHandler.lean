import Loku.TextPath
import Loku.Index.FlushRefines
import Loku.Index.TreeRemoval
import Loku.Routes.DiscSets
import Loku.Routes.Navigation

/-!
# The browse route

`browseHandler` accepts a path when the file system resolves it to a directory inside the
library, and then looks the listing up under the text of the path as it was sent, less its
leading slashes. So the listing is that of the directory exactly when this text is the one the
index stores for the directory, or no video lies at or beneath the directory
(`browse_spelling_iff`): any other spelling of it, with a slash at the end, a `.`, a `..` or a
link, is answered with no entries at all (`listing_spelling`).
-/

namespace Loku

structure BrowseQuery where
  library : Option String
  path : String
deriving DecidableEq

inductive BrowseError
  | unknownLibrary (name : String)
  | pathTraversal (path : String)
  | directoryNotFound (path : String)
deriving DecidableEq

def BrowseError.text : BrowseError → String
  | .unknownLibrary name => "Library '" ++ name ++ "' is not configured"
  | .pathTraversal path => "Path traversal attempt: '" ++ path ++ "' escapes the library root"
  | .directoryNotFound path => "Directory '" ++ path ++ "' not found in library"

/-- `path.trim_start_matches('/')`. -/
def BrowseQuery.relPath (params : BrowseQuery) : String :=
  String.ofList (params.path.toList.dropWhile (· == '/'))

/-- Reject paths that escape the library root or do not lead to a directory. -/
def ensureDirectoryExists (t : FileTree) (library : Library) (relPath requested : String) :
    Except BrowseError Unit :=
  match t.canonicalize library.path with
  | none => .error (.directoryNotFound requested)
  | some canonicalRoot =>
    match t.canonicalizeText library.path relPath with
    | none => .error (.directoryNotFound requested)
    | some canonicalTarget =>
      if ! canonicalTarget.startsWith canonicalRoot then .error (.pathTraversal requested)
      else if ! t.isDir canonicalTarget then .error (.directoryNotFound requested)
      else .ok ()

/-- The library a request names, or the first one. -/
def requestedLibrary (libraries : List Library) (params : BrowseQuery) : Option Library :=
  match params.library with
  | none => libraries.head?
  | some name => findLibrary libraries name

/-- The handler, on a database that answers. -/
def browseHandler (t : FileTree) (libraries : List Library) (active : Option ActiveDerivation)
    (index : Index) (params : BrowseQuery) : Except BrowseError DirListing :=
  match requestedLibrary libraries params with
  | none => .error (.unknownLibrary (params.library.getD ""))
  | some library =>
    match ensureDirectoryExists t library params.relPath params.path with
    | .error error => .error error
    | .ok () =>
      .ok
        { library := library.name
          path := params.path
          entries := listing index library params.relPath active }

/-! ## Accepted paths -/

/-- The path of a request leads to the directory `rel` of the library with this root. -/
structure LeadsTo (t : FileTree) (library : Library) (root : Path) (relPath : String)
    (rel : Path) : Prop where
  canonicalRoot : t.canonicalize library.path = some root
  canonicalTarget : t.canonicalizeText library.path relPath = some (root ++ rel)
  dir : t.node (root ++ rel) = some .dir

section Accepted
variable {t : FileTree} {library : Library} {root rel : Path} {relPath : String}

theorem ensureDirectoryExists_ok_iff {requested : String} :
    ensureDirectoryExists t library relPath requested = .ok () ↔
      ∃ root rel, LeadsTo t library root relPath rel := by
  unfold ensureDirectoryExists
  cases hroot : t.canonicalize library.path with
  | none =>
    constructor
    · intro h
      cases h
    · rintro ⟨root, rel, h⟩
      cases hroot.symm.trans h.canonicalRoot
  | some root =>
    cases htarget : t.canonicalizeText library.path relPath with
    | none =>
      constructor
      · intro h
        cases h
      · rintro ⟨root', rel, h⟩
        cases htarget.symm.trans h.canonicalTarget
    | some target =>
      have hdir := FileTree.isDir_of_plain (FileTree.plain_of_resolveParts htarget)
      constructor
      · intro h
        dsimp only at h
        split at h
        · cases h
        · rename_i hstarts
          split at h
          · cases h
          · rename_i hisDir
            simp only [Bool.not_eq_true, Bool.not_eq_false'] at hstarts hisDir
            obtain ⟨rel, rfl⟩ := Path.startsWith_iff.mp hstarts
            exact ⟨root, rel, hroot, htarget, hdir.mp hisDir⟩
      · rintro ⟨root', rel, h⟩
        cases hroot.symm.trans h.canonicalRoot
        cases htarget.symm.trans h.canonicalTarget
        have hstarts := Path.startsWith_iff.mpr (List.prefix_append root rel)
        simp [hstarts, hdir.mpr h.dir]

/-- The stored text of a directory leads to it. -/
theorem leadsTo_relText (hroot : t.canonicalize library.path = some root)
    (hdir : t.node (root ++ rel) = some .dir) : LeadsTo t library root rel.relText rel where
  canonicalRoot := hroot
  canonicalTarget := FileTree.canonicalizeText_relText hroot hdir
  dir := hdir

theorem LeadsTo.unique {rel' : Path} (h : LeadsTo t library root relPath rel)
    (h' : LeadsTo t library root relPath rel') : rel = rel' :=
  List.append_cancel_left
    (Option.some.inj (h.canonicalTarget.symm.trans h'.canonicalTarget))

@[simp]
theorem relPath_relText (name : Option String) (p : Path) :
    BrowseQuery.relPath ⟨name, p.relText⟩ = p.relText := by
  have hdrop : p.relText.toList.dropWhile (· == '/') = p.relText.toList := by
    rw [List.dropWhile_eq_self_iff]
    intro hpos heq
    have hhead := Path.head?_relText p
    rw [List.head?_eq_getElem?, List.getElem?_eq_getElem hpos] at hhead
    exact hhead (congrArg some (beq_iff_eq.mp heq))
  unfold BrowseQuery.relPath
  rw [hdrop, String.ofList_toList]

end Accepted

/-! ## What a listing shows of a spelling -/

/-- What a listing looks for: the path itself as a parent, or a parent that continues it. -/
theorem atOrBeneath_iff_continues {path parent : String} :
    AtOrBeneath path parent ↔
      parent = path ∨ parent ≠ "" ∧ ∃ rest, parent.toList = (browsePrefix path).toList ++ rest := by
  by_cases hpath : path = ""
  · subst hpath
    by_cases hparent : parent = ""
    · simp [hparent, atOrBeneath_root]
    · simp [hparent, atOrBeneath_root, browsePrefix]
  · rw [atOrBeneath_iff hpath]
    unfold browsePrefix
    rw [if_neg hpath]
    refine or_congr_right ⟨?_, ?_⟩
    · rintro ⟨tail, htail⟩
      refine ⟨?_, tail, by simpa using htail⟩
      rintro rfl
      simp at htail
    · rintro ⟨-, rest, hrest⟩
      exact ⟨rest, by simpa using hrest⟩

/-- A listing has entries when some row is at or beneath its path. -/
theorem listing_ne_nil_iff {index : Index} {library : Library} {path : String}
    {active : Option ActiveDerivation} :
    listing index library path active ≠ [] ↔ ∃ r ∈ index.videos,
      r.record.library = library.name ∧ AtOrBeneath path r.record.parent := by
  simp only [atOrBeneath_iff_continues]
  have hitems := items_listing index library path active
  have hnames := directoryNames_listing index library path active
  constructor
  · intro hsome
    by_contra hnone
    have hvideos : (index.browseDirectory library.name path).videos = [] := by
      rw [List.eq_nil_iff_forall_not_mem]
      intro record hrecord
      obtain ⟨r, hr, hlib, hparent, -⟩ := Index.mem_browse_videos.mp hrecord
      exact hnone ⟨r, hr, hlib, Or.inl hparent⟩
    have hsubdirectories : (index.browseDirectory library.name path).subdirectories = [] := by
      rw [List.eq_nil_iff_forall_not_mem]
      intro name hname
      obtain ⟨r, hr, hlib, hparent, rest, hrest, -⟩ := Index.mem_subdirectories.mp hname
      exact hnone ⟨r, hr, hlib, Or.inr ⟨hparent, rest, hrest⟩⟩
    apply hsome
    simp [listing, assembleEntries, directoryEntries, unsortedItems, discSetGroups, Lib.groupBy,
      hvideos, hsubdirectories]
  · rintro ⟨r, hr, hlib, hrow⟩ hnil
    rw [hnil] at hitems hnames
    rcases hrow with hparent | ⟨hne, rest, hrest⟩
    · have hmem := Index.mem_browse_videos.mpr ⟨r, hr, hlib, hparent, rfl⟩
      rw [List.map_eq_nil_iff.mp (List.nil_perm.mp hitems)] at hmem
      cases hmem
    · have hmem := Index.mem_subdirectories.mpr ⟨r, hr, hlib, hne, rest, hrest, rfl⟩
      rw [← hnames] at hmem
      cases hmem

/-- A text at or beneath which the stored text of a directory is found is the stored text of a
directory above. -/
theorem exists_relText_of_atOrBeneath {path : String} {rel : Path}
    (h : AtOrBeneath path rel.relText) :
    ∃ above : Path, above <+: rel ∧ path = above.relText := by
  by_cases hpath : path = ""
  · exact ⟨[], List.nil_prefix, hpath⟩
  · unfold AtOrBeneath at h
    rw [textComponents_relText, List.prefix_map_iff] at h
    obtain ⟨above, habove, hparts⟩ := h
    refine ⟨above, habove, String.toList_inj.mp ?_⟩
    unfold textComponents at hparts
    rw [if_neg hpath] at hparts
    rw [Path.toList_relText, ← hparts, List.intercalate_splitOn]

section Spelling
variable {t : FileTree} {library : Library} {root rel : Path} {relPath : String} {index : Index}
  {active : Option ActiveDerivation}

/-- In an index in agreement with the tree, a text whose listing has entries is the one stored for
a directory with a video at or beneath it. -/
theorem exists_video_of_listing (hagrees : Lists index library.name root (videosOf t root))
    (h : listing index library relPath active ≠ []) :
    ∃ above : Path, relPath = above.relText ∧ t.node (root ++ above) = some .dir ∧
      ∃ p ∈ videosOf t root, root ++ above <+: p.1 := by
  obtain ⟨r, hr, hlib, hrow⟩ := listing_ne_nil_iff.mp h
  obtain ⟨⟨dir, video⟩, hp, -, hparent⟩ := hagrees.sound r hr hlib
  obtain ⟨⟨below, rfl⟩, hnode⟩ := FileTree.reachableDir_iff.mp hp.1
  rw [hparent, relativeOf_append] at hrow
  obtain ⟨above, habove, rfl⟩ := exists_relText_of_atOrBeneath hrow
  have hpre : root ++ above <+: root ++ below := (List.prefix_append_right_inj root).mpr habove
  refine ⟨above, rfl, ?_, (root ++ below, video), hp, hpre⟩
  rcases Lib.PathTree.node_of_prefix hpre hnode with hdir | ⟨-, hdir⟩
  · exact hdir
  · exact hdir

/-- The listing of any other text than the stored one is empty. -/
theorem listing_spelling (hagrees : Lists index library.name root (videosOf t root))
    (hleads : LeadsTo t library root relPath rel) (hne : relPath ≠ rel.relText) :
    listing index library relPath active = [] := by
  by_contra hsome
  obtain ⟨above, htext, hdir, -⟩ := exists_video_of_listing hagrees hsome
  have habove := leadsTo_relText hleads.canonicalRoot hdir
  rw [← htext] at habove
  exact hne (htext.trans (congrArg Path.relText (habove.unique hleads)))

/-- The listing of the stored text has entries exactly when a video lies at or beneath the
directory. -/
theorem listing_relText_ne_nil_iff (hagrees : Lists index library.name root (videosOf t root)) :
    listing index library rel.relText active ≠ [] ↔
      ∃ p ∈ videosOf t root, root ++ rel <+: p.1 := by
  constructor
  · intro h
    obtain ⟨above, htext, -, hvideo⟩ := exists_video_of_listing hagrees h
    rwa [Path.relText_inj.mp htext]
  · rintro ⟨⟨dir, video⟩, hp, below, rfl⟩
    obtain ⟨r, hr, hkey⟩ := hagrees.complete _ hp
    have hparent := hagrees.parent hp hr hkey
    rw [List.append_assoc, relativeOf_append] at hparent
    refine listing_ne_nil_iff.mpr ⟨r, hr, congrArg Prod.fst hkey, ?_⟩
    rw [hparent]
    exact atOrBeneath_relText.mpr (List.prefix_append rel below)

end Spelling

/-! ## One directory, one answer -/

/-- An entry without the path under which a client reaches a directory. -/
def Entry.unplaced : Entry → Entry
  | .directory dir => .directory { dir with path := "" }
  | entry => entry

/-- The answer shows what the answer to the stored text of the directory shows, and something if
a video lies at or beneath it. -/
def AnswersForDirectory (t : FileTree) (libraries : List Library)
    (active : Option ActiveDerivation) (index : Index) (params : BrowseQuery) (root rel : Path) :
    Prop :=
  ∃ shown canonical, browseHandler t libraries active index params = .ok shown ∧
    browseHandler t libraries active index { params with path := rel.relText } = .ok canonical ∧
    shown.entries.map Entry.unplaced = canonical.entries.map Entry.unplaced ∧
    ((∃ p ∈ videosOf t root, root ++ rel <+: p.1) → shown.entries ≠ [])

section Answer
variable {t : FileTree} {libraries : List Library} {active : Option ActiveDerivation}
  {index : Index} {params : BrowseQuery} {library : Library} {root rel : Path}

/-- The answer to an accepted path. -/
theorem browseHandler_of_leadsTo (hlibrary : requestedLibrary libraries params = some library)
    (hleads : LeadsTo t library root params.relPath rel) :
    browseHandler t libraries active index params =
      .ok ⟨library.name, params.path, listing index library params.relPath active⟩ := by
  have haccepted : ensureDirectoryExists t library params.relPath params.path = .ok () :=
    ensureDirectoryExists_ok_iff.mpr ⟨root, rel, hleads⟩
  unfold browseHandler
  rw [hlibrary]
  dsimp only
  rw [haccepted]

theorem browseHandler_relText (hlibrary : requestedLibrary libraries params = some library)
    (hroot : t.canonicalize library.path = some root) (hdir : t.node (root ++ rel) = some .dir) :
    browseHandler t libraries active index { params with path := rel.relText } =
      .ok ⟨library.name, rel.relText, listing index library rel.relText active⟩ := by
  have hsame : requestedLibrary libraries { params with path := rel.relText } = some library :=
    hlibrary
  have hleads : LeadsTo t library root
      (BrowseQuery.relPath { params with path := rel.relText }) rel := by
    rw [relPath_relText]
    exact leadsTo_relText hroot hdir
  rw [browseHandler_of_leadsTo hsame hleads, relPath_relText]

/-- An accepted path is answered for the directory it leads to exactly when it is the stored text
of the directory, up to leading slashes, or no video lies at or beneath the directory. -/
theorem browse_spelling_iff (hlibrary : requestedLibrary libraries params = some library)
    (hroot : t.canonicalize library.path = some root)
    (hagrees : Lists index library.name root (videosOf t root))
    (haccepted : ensureDirectoryExists t library params.relPath params.path = .ok ()) :
    ∃ rel, LeadsTo t library root params.relPath rel ∧
      (AnswersForDirectory t libraries active index params root rel ↔
        params.relPath = rel.relText ∨ ∀ p ∈ videosOf t root, ¬ root ++ rel <+: p.1) := by
  obtain ⟨root', rel, hleads⟩ := ensureDirectoryExists_ok_iff.mp haccepted
  cases hroot.symm.trans hleads.canonicalRoot
  refine ⟨rel, hleads, ?_⟩
  have hshown : browseHandler t libraries active index params =
      .ok ⟨library.name, params.path, listing index library params.relPath active⟩ :=
    browseHandler_of_leadsTo hlibrary hleads
  have hcanonical : browseHandler t libraries active index { params with path := rel.relText } =
      .ok ⟨library.name, rel.relText, listing index library rel.relText active⟩ :=
    browseHandler_relText hlibrary hroot hleads.dir
  have hvideos : listing index library rel.relText active ≠ [] ↔
      ∃ p ∈ videosOf t root, root ++ rel <+: p.1 := listing_relText_ne_nil_iff hagrees
  constructor
  · rintro ⟨shown, canonical, hok, hok', -, hbearing⟩
    cases hshown.symm.trans hok
    by_contra hnot
    obtain ⟨hne, hsome⟩ := not_or.mp hnot
    push Not at hsome
    exact hbearing hsome (listing_spelling hagrees hleads hne)
  · intro hcondition
    have hsame : listing index library params.relPath active =
        listing index library rel.relText active := by
      by_cases htext : params.relPath = rel.relText
      · rw [htext]
      · rw [listing_spelling hagrees hleads htext]
        by_contra hsome
        obtain ⟨p, hp, hpre⟩ := hvideos.mp (Ne.symm hsome)
        exact (hcondition.resolve_left htext) p hp hpre
    refine ⟨_, _, hshown, hcanonical, ?_, ?_⟩
    · show (listing index library params.relPath active).map Entry.unplaced = _
      rw [hsame]
    · intro hbearing
      show listing index library params.relPath active ≠ []
      rw [hsame]
      exact hvideos.mpr hbearing

end Answer

/-! ## A slash at the end -/

namespace TrailingSlash

open OneVideo (library)
open Replaced (shows season episode tree index lists_index)

def params : BrowseQuery := ⟨none, "A/x/"⟩

theorem leadsTo_season : LeadsTo tree library [OneVideo.lib] params.relPath [shows, season] where
  canonicalRoot := by decide
  canonicalTarget := by decide
  dir := by decide

theorem episode_mem_videosOf :
    ([OneVideo.lib, shows, season], episode) ∈ videosOf tree [OneVideo.lib] :=
  ⟨FileTree.reachableDir_iff.mpr ⟨List.prefix_append _ [shows, season], by decide⟩, by decide⟩

/-- The directory with the episode is accepted and shown as empty. -/
theorem browse_trailing_slash :
    ¬ ∀ (t : FileTree) (libraries : List Library) (active : Option ActiveDerivation)
      (index : Index) (params : BrowseQuery) (library : Library) (root : Path),
      requestedLibrary libraries params = some library →
      t.canonicalize library.path = some root →
      Lists index library.name root (videosOf t root) →
      ensureDirectoryExists t library params.relPath params.path = .ok () →
      ∃ rel, LeadsTo t library root params.relPath rel ∧
        AnswersForDirectory t libraries active index params root rel := by
  intro h
  obtain ⟨rel, hrel, shown, canonical, hshown, -, -, hbearing⟩ := h tree [library] none index params
    library [OneVideo.lib] rfl (by decide) lists_index
    (ensureDirectoryExists_ok_iff.mpr ⟨_, _, leadsTo_season⟩)
  cases leadsTo_season.unique hrel
  rw [browseHandler_of_leadsTo rfl leadsTo_season] at hshown
  cases hshown
  refine hbearing ⟨_, episode_mem_videosOf, List.prefix_rfl⟩ ?_
  exact listing_spelling lists_index leadsTo_season (by decide)

theorem browse_spelling_iff_trailing_slash :
    ∃ rel, LeadsTo tree library [OneVideo.lib] params.relPath rel ∧
      (AnswersForDirectory tree [library] none index params [OneVideo.lib] rel ↔
        params.relPath = rel.relText ∨
          ∀ p ∈ videosOf tree [OneVideo.lib], ¬ [OneVideo.lib] ++ rel <+: p.1) :=
  browse_spelling_iff rfl (by decide) lists_index
    (ensureDirectoryExists_ok_iff.mpr ⟨_, _, leadsTo_season⟩)

end TrailingSlash

end Loku
