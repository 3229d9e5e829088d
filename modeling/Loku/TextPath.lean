import Loku.FileTree

/-!
# Resolving a path that is given as a text

A request names a directory by a text, in which a slash may be repeated or stand at the end and
a component may be `.` or `..`. `canonicalizeText` resolves `base.join(rel)` the way the kernel
does: part by part, from where the parts before it have led to. So `..` leaves the directory a
link leads to, not the one the link is in, and every part needs a directory to start from.

On the text that the index stores for a directory it is `canonicalize` of the joined path
(`canonicalizeText_relText`).
-/

namespace Loku

/-- The parts of a text between its slashes. -/
def textParts (s : String) : List String := (s.toList.splitOn '/').map String.ofList

/-- The part as the name of a directory entry, which `.`, `..` and the empty one are not. -/
def fileName? (part : String) : Option FileName :=
  if h : ValidName part then some ⟨part, h⟩ else none

@[simp]
theorem fileName?_text (n : FileName) : fileName? n.text = some n := dif_pos n.valid

/-- The stored text of a directory has the components as its parts. -/
theorem textParts_relText {p : Path} (hp : p ≠ []) : textParts p.relText = p.map FileName.text := by
  unfold textParts
  rw [Path.splitOn_relText hp, List.map_map]
  simp

namespace FileTree

/-- Walk on from `done` by parts; at a link, `follow` takes over with the target and what is
left. -/
def descendParts (t : FileTree) (follow : List String → Option Path) :
    Path → List String → Option Path
  | done, [] => some done
  | done, part :: rest =>
    if part = "" ∨ part = "." then
      if t.node done = some .dir then descendParts t follow done rest else none
    else if part = ".." then
      if t.node done = some .dir then descendParts t follow done.dropLast rest else none
    else
      (fileName? part).bind fun n =>
        match t.node (done ++ [n]) with
        | none => none
        | some (.symlink target) => follow (target.map FileName.text ++ rest)
        | some _ => descendParts t follow (done ++ [n]) rest

/-- Resolve parts from the root, following at most `links` links. -/
def resolveParts (t : FileTree) : Nat → List String → Option Path
  | 0 => descendParts t (fun _ => none) []
  | links + 1 => descendParts t (resolveParts t links) []

/-- `base.join(rel).canonicalize()` for a text without a slash at its front. -/
def canonicalizeText (t : FileTree) (base : Path) (rel : String) : Option Path :=
  resolveParts t maxLinks (base.map FileName.text ++ textParts rel)

section Descend
variable {t : FileTree} {follow : List String → Option Path}

/-- An empty part stays in its directory. -/
theorem descendParts_empty {done : Path} (h : t.node done = some .dir) (rest : List String) :
    descendParts t follow done ("" :: rest) = descendParts t follow done rest := by
  rw [descendParts, if_pos (Or.inl rfl), if_pos h]

theorem descendParts_name (done : Path) (n : FileName) (rest : List String) :
    descendParts t follow done (n.text :: rest) =
      match t.node (done ++ [n]) with
      | none => none
      | some (.symlink target) => follow (target.map FileName.text ++ rest)
      | some _ => descendParts t follow (done ++ [n]) rest := by
  have hnot : ¬ (n.text = "" ∨ n.text = ".") := by
    rintro (h | h)
    · exact n.valid.1 h
    · exact n.valid.2.1 h
  rw [descendParts, if_neg hnot, if_neg n.valid.2.2.1, fileName?_text, Option.bind_some]

/-- Names lead where the path of these names leads. -/
theorem descendParts_map_text {followPath : Path → Option Path}
    (hfollow : ∀ p, follow (p.map FileName.text) = followPath p) (done p : Path) :
    descendParts t follow done (p.map FileName.text) = descend t followPath done p := by
  induction p generalizing done with
  | nil => rfl
  | cons n rest ih =>
    rw [List.map_cons, descendParts_name, descend]
    cases t.node (done ++ [n]) with
    | none => rfl
    | some a =>
      cases a with
      | symlink target =>
        show follow (target.map FileName.text ++ rest.map FileName.text) = _
        rw [← List.map_append, hfollow]
      | file data => exact ih _
      | dir => exact ih _

theorem resolveParts_map_text (links : Nat) (p : Path) :
    resolveParts t links (p.map FileName.text) = resolve t links p := by
  induction links generalizing p with
  | zero => exact descendParts_map_text (fun _ => rfl) [] p
  | succ links ih => exact descendParts_map_text ih [] p

/-- Names of directories lead down, whatever follows links. -/
theorem descendParts_of_dir {done p : Path} (h : t.node (done ++ p) = some .dir) :
    descendParts t follow done (p.map FileName.text) = some (done ++ p) := by
  induction p generalizing done with
  | nil => rw [List.append_nil]; rfl
  | cons n rest ih =>
    have happ : done ++ n :: rest = (done ++ [n]) ++ rest := by simp
    rw [happ] at h ⊢
    have hn : t.node (done ++ [n]) = some .dir := by
      by_cases hrest : rest = []
      · rwa [hrest, List.append_nil] at h
      · exact Lib.PathTree.node_of_append hrest h
    rw [List.map_cons, descendParts_name, hn]
    exact ih h

/-- The stored text of a directory beneath leads to it. -/
theorem descendParts_relText {done p : Path} (h : t.node (done ++ p) = some .dir) :
    descendParts t follow done (textParts p.relText) = some (done ++ p) := by
  by_cases hp : p = []
  · subst hp
    rw [List.append_nil] at h ⊢
    exact descendParts_empty h []
  · rw [textParts_relText hp]
    exact descendParts_of_dir h

/-- The parts that follow start from where the first ones lead. -/
theorem descendParts_append {done q : Path} {parts more : List String} {target : Path}
    (hmore : ∀ follow, descendParts t follow q more = some target)
    (hfollow : ∀ parts, follow parts = some q → follow (parts ++ more) = some target)
    (h : descendParts t follow done parts = some q) :
    descendParts t follow done (parts ++ more) = some target := by
  induction parts generalizing done with
  | nil =>
    cases h
    exact hmore follow
  | cons part rest ih =>
    rw [List.cons_append]
    unfold descendParts at h ⊢
    by_cases hstay : part = "" ∨ part = "."
    · rw [if_pos hstay] at h ⊢
      split at h
      · rename_i hdir
        rw [if_pos hdir]
        exact ih h
      · cases h
    · rw [if_neg hstay] at h ⊢
      by_cases hup : part = ".."
      · rw [if_pos hup] at h ⊢
        split at h
        · rename_i hdir
          rw [if_pos hdir]
          exact ih h
        · cases h
      · rw [if_neg hup] at h ⊢
        obtain ⟨n, hn, hgo⟩ := Option.bind_eq_some_iff.mp h
        rw [hn, Option.bind_some]
        cases hnode : t.node (done ++ [n]) with
        | none =>
          rw [hnode] at hgo
          cases hgo
        | some a =>
          rw [hnode] at hgo
          cases a with
          | symlink target' =>
            have happ := hfollow _ hgo
            rwa [List.append_assoc] at happ
          | file data => exact ih hgo
          | dir => exact ih hgo

theorem resolveParts_append {links : Nat} {q : Path} {parts more : List String} {target : Path}
    (hmore : ∀ follow, descendParts t follow q more = some target)
    (h : resolveParts t links parts = some q) :
    resolveParts t links (parts ++ more) = some target := by
  induction links generalizing parts with
  | zero => exact descendParts_append hmore (fun _ he => by cases he) h
  | succ links ih => exact descendParts_append hmore (fun _ he => ih he) h

/-- A stored text, joined to a base, leads to the directory that it is the text of. -/
theorem canonicalizeText_relText {base root rel : Path} (hbase : t.canonicalize base = some root)
    (hdir : t.node (root ++ rel) = some .dir) :
    t.canonicalizeText base rel.relText = some (root ++ rel) := by
  have hparts : resolveParts t maxLinks (base.map FileName.text) = some root :=
    (resolveParts_map_text maxLinks base).trans hbase
  exact resolveParts_append (fun _ => descendParts_relText hdir) hparts

theorem plain_of_descendParts {done q : Path} {parts : List String}
    (hfollow : ∀ parts q, follow parts = some q → Plain t q) (hdone : Plain t done)
    (h : descendParts t follow done parts = some q) : Plain t q := by
  induction parts generalizing done with
  | nil =>
    cases h
    exact hdone
  | cons part rest ih =>
    unfold descendParts at h
    split at h
    · split at h
      · exact ih hdone h
      · cases h
    · split at h
      · split at h
        · rename_i hdir
          refine ih ?_ h
          -- the parent of a directory is one
          by_cases hnil : done = []
          · exact Or.inl (by rw [hnil]; rfl)
          · exact Or.inr ⟨_, Lib.PathTree.node_dropLast hdir hnil, fun _ he => by cases he⟩
        · cases h
      · obtain ⟨n, -, hgo⟩ := Option.bind_eq_some_iff.mp h
        cases hnode : t.node (done ++ [n]) with
        | none =>
          rw [hnode] at hgo
          cases hgo
        | some a =>
          rw [hnode] at hgo
          cases a with
          | symlink target => exact hfollow _ _ hgo
          | file data => exact ih (Or.inr ⟨_, hnode, fun _ he => by cases he⟩) hgo
          | dir => exact ih (Or.inr ⟨_, hnode, fun _ he => by cases he⟩) hgo

theorem plain_of_resolveParts {links : Nat} {parts : List String} {q : Path}
    (h : resolveParts t links parts = some q) : Plain t q := by
  induction links generalizing parts q with
  | zero => exact plain_of_descendParts (fun _ _ he => by cases he) (Or.inl rfl) h
  | succ links ih => exact plain_of_descendParts (fun _ _ he => ih he) (Or.inl rfl) h

end Descend

end FileTree

end Loku
