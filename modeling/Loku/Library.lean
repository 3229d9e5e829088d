import Loku.Path

/-!
# Named library roots

A library is a named directory tree holding one kind of dataset. Names are unique and URL-safe
by configuration; the path is taken as an absolute one.
-/

namespace Loku

inductive LibraryKind
  | downloads
  | discs
deriving DecidableEq

structure Library where
  name : String
  path : Path
  kind : LibraryKind
deriving DecidableEq

/-- `path.strip_prefix(root).unwrap_or(path)` as a text. -/
def relativeOf (path root : Path) : String :=
  match path.stripPrefix root with
  | some rel => rel.relText
  | none => path.absText

@[simp]
theorem relativeOf_append (root rel : Path) : relativeOf (root ++ rel) root = rel.relText := by
  unfold relativeOf
  rw [Path.stripPrefix_append]

theorem relativeOf_inj {root p q : Path} (hp : root <+: p) (hq : root <+: q) :
    relativeOf p root = relativeOf q root ↔ p = q := by
  obtain ⟨a, rfl⟩ := hp
  obtain ⟨b, rfl⟩ := hq
  simp

end Loku
