import Loku.Index.Rows
import Loku.FileTree
import Loku.Library

/-!
# What the removal of a tree deletes

The tree of a directory is meant to be the directory and what lies beneath it, component by
component (`AtOrBeneath`). The statement compares texts instead: the parent is the directory,
or it begins, up to ASCII case, with the directory and a slash. The two agree for every
directory but the library root unless a row lies beneath a directory of the same letters in
another case; for the root, whose text is empty, only the rows directly inside it are deleted
(`removeTree_exact_iff`).
-/

namespace Loku

/-- The components of a relative path, none for the library root. -/
def textComponents (relPath : String) : List (List Char) :=
  if relPath = "" then [] else relPath.toList.splitOn '/'

/-- A directory, or one that has it as an ancestor. -/
def AtOrBeneath (dirRel parent : String) : Prop := textComponents dirRel <+: textComponents parent

instance : DecidableRel AtOrBeneath := fun _ _ => inferInstanceAs (Decidable (_ <+: _))

theorem textComponents_relText (p : Path) :
    textComponents p.relText = p.map fun n => n.text.toList := by
  unfold textComponents
  by_cases hp : p = []
  · subst hp
    rfl
  · have hne : p.relText ≠ "" := fun h => hp (Path.relText_inj.mp h)
    rw [if_neg hne, Path.splitOn_relText hp]

/-- On the texts of paths it is the order of prefixes. -/
theorem atOrBeneath_relText {p q : Path} : AtOrBeneath p.relText q.relText ↔ p <+: q := by
  unfold AtOrBeneath
  rw [textComponents_relText, textComponents_relText]
  apply List.prefix_map_iff_of_injective
  intro m n h
  exact FileName.ext (String.toList_inj.mp h)

/-- Every directory lies at or beneath the library root. -/
theorem atOrBeneath_root (parent : String) : AtOrBeneath "" parent := List.nil_prefix

theorem atOrBeneath_iff {dirRel parent : String} (h : dirRel ≠ "") :
    AtOrBeneath dirRel parent ↔
      parent = dirRel ∨ ∃ tail, parent.toList = dirRel.toList ++ '/' :: tail := by
  unfold AtOrBeneath textComponents
  rw [if_neg h]
  split
  · rename_i hparent
    subst hparent
    have hne := List.splitOn_ne_nil '/' dirRel.toList
    simp [hne, Ne.symm h]
  · rw [Lib.splitOn_prefix_splitOn_iff, String.toList_inj]

namespace Index

/-- What the comparison of texts takes for the tree of a directory is that tree. -/
def TreeByText (dirRel parent : String) : Prop :=
  if dirRel = "" then parent = "" ∨ parent.toList.head? = some '/'
  else ∀ head tail, parent.toList = head ++ '/' :: tail →
    head.map Lib.asciiFold = dirRel.toList.map Lib.asciiFold → head = dirRel.toList

theorem inTree_root_iff {parent : String} :
    inTree "" parent = true ↔ parent = "" ∨ parent.toList.head? = some '/' := by
  rw [inTree_iff]
  apply or_congr_right
  constructor
  · rintro ⟨head, tail, happ, hfold⟩
    have hnil : head = [] := by simpa using hfold
    rw [happ, hnil]
    rfl
  · intro h
    obtain ⟨tail, htail⟩ := List.head?_eq_some_iff.mp h
    exact ⟨[], tail, htail, rfl⟩

theorem inTree_of_atOrBeneath {dirRel parent : String} (hne : dirRel ≠ "")
    (h : AtOrBeneath dirRel parent) : inTree dirRel parent = true := by
  rw [inTree_iff]
  rcases (atOrBeneath_iff hne).mp h with h | ⟨tail, h⟩
  · exact Or.inl h
  · exact Or.inr ⟨dirRel.toList, tail, h, rfl⟩

/-- For one row: the statement and the order of directories agree. -/
theorem inTree_iff_atOrBeneath_iff {dirRel parent : String} :
    (inTree dirRel parent = true ↔ AtOrBeneath dirRel parent) ↔ TreeByText dirRel parent := by
  unfold TreeByText
  split
  · rename_i hroot
    rw [hroot, inTree_root_iff]
    simp [atOrBeneath_root]
  · rename_i hne
    constructor
    · intro hiff head tail happ hfold
      have hbeneath := hiff.mp (inTree_iff.mpr (Or.inr ⟨head, tail, happ, hfold⟩))
      have hlength : head.length = dirRel.toList.length := by
        simpa using congrArg List.length hfold
      rcases (atOrBeneath_iff hne).mp hbeneath with heq | ⟨tail', happ'⟩
      · -- the directory itself is shorter than what lies beneath it
        have hlong := congrArg List.length happ
        rw [heq, List.length_append, List.length_cons] at hlong
        omega
      · exact (List.append_inj (happ.symm.trans happ') hlength).1
    · intro htext
      constructor
      · intro htree
        rw [atOrBeneath_iff hne]
        rcases inTree_iff.mp htree with h | ⟨head, tail, happ, hfold⟩
        · exact Or.inl h
        · exact Or.inr ⟨tail, by rw [happ, htext head tail happ hfold]⟩
      · exact inTree_of_atOrBeneath hne

/-- Exactly the rows of a directory's tree are deleted if and only if no row of the library lies
beneath a directory that differs from it in the case of letters only, or, for the root, below a
directory. -/
theorem removeTree_exact_iff (index : Index) (library dirRel : String) :
    (∀ r, r ∈ (index.removeTree library dirRel).1.videos ↔
      r ∈ index.videos ∧ ¬(r.record.library = library ∧ AtOrBeneath dirRel r.record.parent)) ↔
    ∀ r ∈ index.videos, r.record.library = library → TreeByText dirRel r.record.parent := by
  have hmem : ∀ r, r ∈ (index.removeTree library dirRel).1.videos ↔
      r ∈ index.videos ∧ ¬(r.record.library = library ∧ inTree dirRel r.record.parent = true) := by
    intro r
    refine Lib.Table.mem_delete.trans ?_
    simp
  constructor
  · intro hexact r hr hlib
    rw [← inTree_iff_atOrBeneath_iff]
    have hiff := (hmem r).symm.trans (hexact r)
    simp only [hr, hlib, true_and] at hiff
    exact not_iff_not.mp hiff
  · intro htext r
    rw [hmem r]
    apply and_congr_right
    intro hr
    apply not_congr
    apply and_congr_right
    intro hlib
    exact inTree_iff_atOrBeneath_iff.mpr (htext r hr hlib)

/-! ## Two trees that are not removed exactly -/

/-- A video below a directory. -/
def seasonRow : Row := ⟨1, .placed "movies" "shows/s1/ep.mkv" "shows/s1" "ep.mkv" 3 5, 1⟩

def seasonIndex : Index := { openInMemory with videos := upsertRecord 1 .empty seasonRow.record }

/-- The row stays when the root vanishes, and goes with a directory of the same letters. -/
theorem removeTree_not_exact :
    (seasonRow ∈ (seasonIndex.removeTree "movies" "").1.videos ∧
      AtOrBeneath "" seasonRow.record.parent) ∧
    seasonRow ∈ seasonIndex.videos ∧
      seasonRow ∉ (seasonIndex.removeTree "movies" "Shows").1.videos ∧
      ¬ AtOrBeneath "Shows" seasonRow.record.parent := by
  decide

end Index

end Loku
