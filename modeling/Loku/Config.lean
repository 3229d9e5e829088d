import Loku.Library
import Loku.FileTree

/-!
# The configured libraries

`resolveLibraries` checks the entries of the configuration in order and stops at the first that
is refused. What it accepts keeps the names and the order of the entries, and no name occurs
twice (`nodup_resolveLibraries`). Each library is served under its mount (`fileMounts`).
-/

namespace Loku

/-- A library entry as written in the config file. -/
structure LibraryFileEntry where
  name : String
  path : Path
  kind : LibraryKind
deriving DecidableEq

inductive ConfigError
  | validation (message : String)
deriving DecidableEq

/-- Whether a name may be a URL path segment as it is. -/
def validLibraryName (name : String) : Bool :=
  !name.isEmpty && name.toList.all fun c => c.isLower || c.isDigit || c == '_' || c == '-'

/-- The single root of the command line wins over the entries of the file. -/
def libraryCandidates (cli : Option Path) (file : Option (List LibraryFileEntry)) :
    List LibraryFileEntry :=
  match cli with
  | some path => [⟨"downloads", path, .downloads⟩]
  | none => file.getD []

/-- Check one entry against the names seen so far. -/
def resolveLibrary (t : FileTree) (seen : List String) (entry : LibraryFileEntry) :
    Except ConfigError Library :=
  if !validLibraryName entry.name then
    .error (.validation ("library name '" ++ entry.name ++ "' is invalid: names become URL " ++
      "path segments and must be non-empty lowercase ASCII letters, digits, '_', or '-'"))
  else if entry.name ∈ seen then
    .error (.validation ("library name '" ++ entry.name ++ "' is defined more than once"))
  else if !t.pathExists entry.path then
    .error (.validation ("library path for '" ++ entry.name ++ "' does not exist: " ++
      entry.path.absText))
  else .ok ⟨entry.name, entry.path, entry.kind⟩

def resolveEntries (t : FileTree) : List String → List LibraryFileEntry →
    Except ConfigError (List Library)
  | _, [] => .ok []
  | seen, entry :: entries =>
    match resolveLibrary t seen entry with
    | .error error => .error error
    | .ok library => (resolveEntries t (entry.name :: seen) entries).map (library :: ·)

def resolveLibraries (t : FileTree) (cli : Option Path) (file : Option (List LibraryFileEntry)) :
    Except ConfigError (List Library) :=
  if (libraryCandidates cli file).isEmpty then
    .error (.validation ("at least one library is required: pass --library or define " ++
      "[[library]] entries in the config file"))
  else resolveEntries t [] (libraryCandidates cli file)

/-- An accepted entry has a name that was not seen before. -/
theorem resolveLibrary_ok {t : FileTree} {seen : List String} {entry : LibraryFileEntry}
    {library : Library} (h : resolveLibrary t seen entry = .ok library) :
    library.name = entry.name ∧ entry.name ∉ seen := by
  unfold resolveLibrary at h
  split at h
  · cases h
  · split at h
    · cases h
    · split at h
      · cases h
      · cases h
        exact ⟨rfl, ‹_›⟩

theorem resolveEntries_ok {t : FileTree} :
    ∀ {entries : List LibraryFileEntry} {seen : List String} {libraries : List Library},
      resolveEntries t seen entries = .ok libraries →
      libraries.map Library.name = entries.map LibraryFileEntry.name ∧
        (libraries.map Library.name).Nodup ∧ ∀ name ∈ libraries.map Library.name, name ∉ seen
  | [], seen, libraries, h => by
    obtain rfl : [] = libraries := Except.ok.inj h
    simp
  | entry :: entries, seen, libraries, h => by
    unfold resolveEntries at h
    split at h
    · cases h
    · rename_i library hlibrary
      obtain ⟨hname, hunseen⟩ := resolveLibrary_ok hlibrary
      cases hrest : resolveEntries t (entry.name :: seen) entries with
      | error e =>
        rw [hrest] at h
        cases h
      | ok rest =>
        rw [hrest] at h
        obtain rfl : library :: rest = libraries := Except.ok.inj h
        obtain ⟨hnames, hnodup, hfresh⟩ := resolveEntries_ok hrest
        refine ⟨?_, ?_, ?_⟩
        · rw [List.map_cons, List.map_cons, hname, hnames]
        · rw [List.map_cons, List.nodup_cons, hname]
          exact ⟨fun hmem => hfresh _ hmem List.mem_cons_self, hnodup⟩
        · intro name hmem
          rw [List.map_cons, List.mem_cons, hname] at hmem
          rcases hmem with rfl | hmem
          · exact hunseen
          · exact fun hseen => hfresh _ hmem (List.mem_cons_of_mem _ hseen)

/-- The resolved libraries have distinct names. -/
theorem nodup_resolveLibraries {t : FileTree} {cli : Option Path}
    {file : Option (List LibraryFileEntry)} {libraries : List Library}
    (h : resolveLibraries t cli file = .ok libraries) : (libraries.map Library.name).Nodup := by
  unfold resolveLibraries at h
  split at h
  · cases h
  · exact (resolveEntries_ok h).2.1

theorem validLibraryName_of_resolveLibrary {t : FileTree} {seen : List String}
    {entry : LibraryFileEntry} {library : Library}
    (h : resolveLibrary t seen entry = .ok library) : validLibraryName library.name = true := by
  unfold resolveLibrary at h
  split at h
  · cases h
  · rename_i hvalid
    split at h
    · cases h
    · split at h
      · cases h
      · cases h
        simpa using hvalid

theorem validLibraryName_of_resolveEntries {t : FileTree} :
    ∀ {entries : List LibraryFileEntry} {seen : List String} {libraries : List Library},
      resolveEntries t seen entries = .ok libraries →
      ∀ library ∈ libraries, validLibraryName library.name = true
  | [], seen, libraries, h => by
    obtain rfl : [] = libraries := Except.ok.inj h
    exact fun _ hmem => absurd hmem List.not_mem_nil
  | entry :: entries, seen, libraries, h => by
    unfold resolveEntries at h
    split at h
    · cases h
    · rename_i first hfirst
      obtain ⟨rest, hrest, rfl⟩ : ∃ rest, resolveEntries t (entry.name :: seen) entries = .ok rest ∧
          first :: rest = libraries := by
        cases hrest : resolveEntries t (entry.name :: seen) entries with
        | error e =>
          rw [hrest] at h
          cases h
        | ok rest =>
          rw [hrest] at h
          exact ⟨rest, rfl, Except.ok.inj h⟩
      intro library hmem
      rcases List.mem_cons.mp hmem with rfl | hmem
      · exact validLibraryName_of_resolveLibrary hfirst
      · exact validLibraryName_of_resolveEntries hrest library hmem

theorem validLibraryName_of_resolveLibraries {t : FileTree} {cli : Option Path}
    {file : Option (List LibraryFileEntry)} {libraries : List Library}
    (h : resolveLibraries t cli file = .ok libraries) :
    ∀ library ∈ libraries, validLibraryName library.name = true := by
  unfold resolveLibraries at h
  split at h
  · cases h
  · exact validLibraryName_of_resolveEntries h

/-- The resolved libraries have names. -/
theorem name_ne_of_resolveLibraries {t : FileTree} {cli : Option Path}
    {file : Option (List LibraryFileEntry)} {libraries : List Library}
    (h : resolveLibraries t cli file = .ok libraries) :
    ∀ library ∈ libraries, library.name ≠ "" := by
  intro library hmem hname
  have hvalid := validLibraryName_of_resolveLibraries h library hmem
  rw [hname] at hvalid
  cases hvalid

/-- Where the files of a library are served. -/
def fileMount (library : String) : String := "/files/" ++ library

/-- The static mounts of `app_routes`. -/
def fileMounts (libraries : List Library) : List String :=
  libraries.map fun library => fileMount library.name

theorem mem_fileMounts {libraries : List Library} {name : String} :
    fileMount name ∈ fileMounts libraries ↔ name ∈ libraries.map Library.name := by
  unfold fileMounts fileMount
  rw [List.mem_map, List.mem_map]
  constructor
  · rintro ⟨library, hmem, heq⟩
    exact ⟨library, hmem, String.append_right_inj _ |>.mp heq⟩
  · rintro ⟨library, hmem, rfl⟩
    exact ⟨library, hmem, rfl⟩

end Loku
