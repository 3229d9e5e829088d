import Loku.Config
import Loku.Routes.Server

/-!
# The files behind the routes

Each library is mounted at `/files/{name}`: the path behind the mount is handed to a service that
serves the files of the library's directory. The path of a file, encoded segment by segment
behind the name of its library, reaches that file (`fileTarget_fileMount`).
-/

namespace Loku

open Lib.PercentCode (decode)

/-- What is relied on of the service of a directory: a decoded path of plain names is followed
name by name. -/
structure DirService where
  target : Path → List Char → Option Path
  target_of_decode : ∀ (dir rel : Path) (path : List Char), rel ≠ [] →
    decode path = some ('/' :: rel.relText.toList) → target dir path = some (dir ++ rel)

/-- Empty parts and `.` are skipped, and a path with `..` is refused. -/
def DirService.plain : DirService where
  target dir path := (decode path).bind fun text =>
    if ['.', '.'] ∈ text.splitOn '/' then none
    else some (dir ++ Path.components (String.ofList text))
  target_of_decode dir rel path hrel hdecode := by
    have hsplit : ('/' :: rel.relText.toList).splitOn '/' =
        [] :: rel.map fun n => n.text.toList := by
      have hslash : '/' ∉ ([] : List Char) := List.not_mem_nil
      rw [← Path.splitOn_relText hrel]
      exact List.splitOn_append_cons_self_of_not_mem hslash _
    have hdots : ['.', '.'] ∉ ('/' :: rel.relText.toList).splitOn '/' := by
      rw [hsplit]
      simp only [List.mem_cons, List.mem_map, not_or, not_exists, not_and]
      refine ⟨by decide, fun n _ htext => ?_⟩
      exact n.valid.2.2.1 (String.toList_inj.mp htext)
    have hcomponents : Path.components (String.ofList ('/' :: rel.relText.toList)) = rel := by
      have hskip : Path.components (String.ofList ('/' :: rel.relText.toList)) =
          Path.components rel.relText := by
        unfold Path.components
        rw [String.toList_ofList, hsplit, Path.splitOn_relText hrel, List.filterMap_cons]
        simp [ValidName]
      rw [hskip, Path.components_relText]
    rw [hdecode, Option.bind_some, if_neg hdots, hcomponents]

/-- What a mount hands on: the path behind it. -/
def behindMount (mount path : List Char) : Option (List Char) :=
  if mount.isPrefixOf path then
    match path.drop mount.length with
    | [] => some ['/']
    | '/' :: rest => some ('/' :: rest)
    | _ => none
  else none

namespace ServerState

/-- The library under whose mount a path falls, and the path behind the mount. -/
def mounted (s : ServerState) (path : List Char) : Option (Library × List Char) :=
  s.libraries.findSome? fun library =>
    (behindMount (fileMount library.name).toList path).map fun rest => (library, rest)

/-- The path that is served for the path of a request. -/
def fileTarget (s : ServerState) (service : DirService) (path : List Char) : Option Path :=
  (s.mounted path).bind fun p => service.target p.1.path p.2

end ServerState

/-! ## Mounts -/

theorem behindMount_append (mount rest : List Char) :
    behindMount mount (mount ++ '/' :: rest) = some ('/' :: rest) := by
  unfold behindMount
  rw [if_pos (List.isPrefixOf_iff_prefix.mpr (List.prefix_append _ _)), List.drop_left]
  rfl

/-- Two mounts of different names have no path in common. -/
theorem behindMount_other {name other : List Char} (hname : '/' ∉ name) (hother : '/' ∉ other)
    (hne : other ≠ name) (pre rest : List Char) :
    behindMount (pre ++ other) (pre ++ name ++ '/' :: rest) = none := by
  unfold behindMount
  split
  · rename_i hpre
    rw [List.isPrefixOf_iff_prefix, List.append_assoc, List.prefix_append_right_inj] at hpre
    obtain ⟨behind, hbehind⟩ := hpre
    rw [List.append_assoc, ← hbehind, ← List.append_assoc, List.drop_left]
    cases behind with
    | nil =>
      rw [List.append_nil] at hbehind
      exact absurd (hbehind ▸ List.mem_append_right _ List.mem_cons_self) hother
    | cons c behind =>
      have hc : c ≠ '/' := by
        rintro rfl
        have hsplit := congrArg (List.splitOn '/') hbehind
        rw [List.splitOn_append_cons_self_of_not_mem hother,
          List.splitOn_append_cons_self_of_not_mem hname] at hsplit
        exact hne (List.cons.inj hsplit).1
      split
      · rename_i heq
        cases heq
      · rename_i heq
        exact absurd (List.cons.inj heq).1 hc
      · rfl
  · rfl

theorem slash_not_mem_of_validLibraryName {name : String} (h : validLibraryName name = true) :
    '/' ∉ name.toList := by
  intro hslash
  unfold validLibraryName at h
  rw [Bool.and_eq_true, List.all_eq_true] at h
  exact absurd (h.2 '/' hslash) (by decide)

namespace ServerState

section
variable {s : ServerState} {t : FileTree} {cli : Option Path}
  {file : Option (List LibraryFileEntry)} {library : Library}

/-- What is behind the mount of a configured library is that library's. -/
theorem mounted_fileMount (hresolve : resolveLibraries t cli file = .ok s.libraries)
    (hmem : library ∈ s.libraries) (rest : List Char) :
    s.mounted ((fileMount library.name).toList ++ '/' :: rest) = some (library, '/' :: rest) := by
  have hslash := fun l hl =>
    slash_not_mem_of_validLibraryName (validLibraryName_of_resolveLibraries hresolve l hl)
  have hmount : ∀ name, (fileMount name).toList = "/files/".toList ++ name.toList :=
    fun _ => String.toList_append
  have hown : (behindMount (fileMount library.name).toList
      ((fileMount library.name).toList ++ '/' :: rest)).map (fun rest => (library, rest)) =
      some (library, '/' :: rest) := by
    rw [behindMount_append, Option.map_some]
  have hsome : (s.mounted ((fileMount library.name).toList ++ '/' :: rest)).isSome := by
    unfold mounted
    rw [List.findSome?_isSome_iff]
    exact ⟨library, hmem, hown ▸ rfl⟩
  obtain ⟨found, hfound⟩ := Option.isSome_iff_exists.mp hsome
  obtain ⟨other, hother, hbehind⟩ := List.exists_of_findSome?_eq_some hfound
  by_cases hname : other.name = library.name
  · obtain rfl : other = library :=
      List.inj_on_of_nodup_map (nodup_resolveLibraries hresolve) hother hmem hname
    rw [hfound, ← hbehind, hown]
  · rw [hmount, hmount, behindMount_other (hslash _ hmem) (hslash _ hother)
      (fun heq => hname (String.toList_inj.mp heq))] at hbehind
    cases hbehind

/-- The address of a file leads to it. -/
theorem fileTarget_fileMount (hresolve : resolveLibraries t cli file = .ok s.libraries)
    (hmem : library ∈ s.libraries) (service : DirService) {rel : Path} (hrel : rel ≠ [])
    {rest : List Char} (hrest : decode ('/' :: rest) = some ('/' :: rel.relText.toList)) :
    s.fileTarget service ((fileMount library.name).toList ++ '/' :: rest) =
      some (library.path ++ rel) := by
  unfold fileTarget
  rw [mounted_fileMount hresolve hmem, Option.bind_some]
  exact service.target_of_decode _ _ _ hrel hrest

end

end ServerState

end Loku
