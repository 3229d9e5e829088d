import Loku.Media.Worker
import Loku.Index.Collect

/-!
# Which master a sidecar belongs to

A sidecar is found, and written, under the stem of its master alone. Two masters of one
directory therefore own their sidecars separately exactly when their stems differ
(`ownership_unambiguous_iff`): with one stem, say `clip.mkv` beside `clip.mp4`, the worker's
output paths coincide and what it makes from one master is attributed to the other.
-/

namespace Loku

/-! ## Suffixes of one name -/

/-- The suffixes the worker writes under. -/
def outputSuffixes : List Suffix := [compatSuffix.part, compatSuffix, jpgSuffix.part, jpgSuffix]

/-- The suffixes the worker writes under or the scanner looks for. -/
def sidecarSuffixes : List Suffix := outputSuffixes ++ thumbSuffixes

theorem sidecarSuffixes_suffix {s s' : Suffix} (hs : s ∈ sidecarSuffixes)
    (hs' : s' ∈ sidecarSuffixes) (h : s.text.toList <:+ s'.text.toList) : s = s' := by
  have hall : ∀ s ∈ sidecarSuffixes, ∀ s' ∈ sidecarSuffixes,
      s.text.toList <:+ s'.text.toList → s = s' := by
    decide
  exact hall s hs s' hs' h

/-- A sidecar name determines its stem and its suffix. -/
theorem sidecar_inj {a b : FileName} {s s' : Suffix} (hs : s ∈ sidecarSuffixes)
    (hs' : s' ∈ sidecarSuffixes) :
    a.sidecar s = b.sidecar s' ↔ a.fileStem = b.fileStem ∧ s = s' := by
  constructor
  · intro h
    have htext := congrArg (fun n : FileName => n.text.toList) h
    simp only [FileName.sidecar, String.toList_append] at htext
    have heq : s = s' := by
      rcases List.suffix_or_suffix_of_suffix (List.suffix_append a.fileStem.toList s.text.toList)
        (htext ▸ List.suffix_append b.fileStem.toList s'.text.toList) with hsuf | hsuf
      · exact sidecarSuffixes_suffix hs hs' hsuf
      · exact (sidecarSuffixes_suffix hs' hs hsuf).symm
    subst heq
    exact ⟨String.toList_inj.mp (List.append_cancel_right htext), rfl⟩
  · rintro ⟨hstem, rfl⟩
    apply FileName.ext
    change a.fileStem ++ s.text = b.fileStem ++ s.text
    rw [hstem]

/-- The paths the worker writes when it derives from a master. -/
def workerOutputs (source : Path) : List Path :=
  [compatSuffix, jpgSuffix].flatMap fun s => [(siblingPaths source s).1, (siblingPaths source s).2]

theorem mem_workerOutputs {dir p : Path} {a : FileName} :
    p ∈ workerOutputs (dir ++ [a]) ↔ ∃ s ∈ outputSuffixes, p = sidecarPath dir a s := by
  unfold workerOutputs outputSuffixes
  simp only [List.flatMap_cons, List.flatMap_nil, siblingPaths_concat, List.append_nil,
    List.cons_append, List.nil_append, List.mem_cons, List.not_mem_nil, or_false]
  constructor
  · rintro (rfl | rfl | rfl | rfl)
    · exact ⟨_, Or.inl rfl, rfl⟩
    · exact ⟨_, Or.inr (Or.inl rfl), rfl⟩
    · exact ⟨_, Or.inr (Or.inr (Or.inl rfl)), rfl⟩
    · exact ⟨_, Or.inr (Or.inr (Or.inr rfl)), rfl⟩
  · rintro ⟨s, rfl | rfl | rfl | rfl, rfl⟩
    · exact Or.inl rfl
    · exact Or.inr (Or.inl rfl)
    · exact Or.inr (Or.inr (Or.inl rfl))
    · exact Or.inr (Or.inr (Or.inr rfl))

theorem sidecarPath_inj {dir : Path} {a b : FileName} {s s' : Suffix} (hs : s ∈ sidecarSuffixes)
    (hs' : s' ∈ sidecarSuffixes) :
    sidecarPath dir a s = sidecarPath dir b s' ↔ a.fileStem = b.fileStem ∧ s = s' := by
  unfold sidecarPath
  rw [List.append_cancel_left_eq, List.singleton_inj, sidecar_inj hs hs']

/-! ## Attribution -/

section Attribution
variable {t : FileTree} {root dir : Path} {a b : FileName}

/-- A sidecar that is found is the one at its path. -/
theorem findSidecar_eq_some_iff {s : Suffix} {rel : String} (hdir : root <+: dir) :
    findSidecar t dir b root s = some rel ↔
      t.pathExists (sidecarPath dir b s) = true ∧ rel = relativeOf (sidecarPath dir b s) root := by
  obtain ⟨below, rfl⟩ := hdir
  unfold findSidecar sidecarPath
  rw [List.append_assoc, Path.stripPrefix_append, relativeOf_append]
  split
  · rename_i h
    simp [h, eq_comm]
  · rename_i h
    simp [h]

theorem prefix_sidecarPath {s : Suffix} (hdir : root <+: dir) : root <+: sidecarPath dir a s :=
  hdir.trans (List.prefix_append _ _)

/-- What the scanner finds for `b` under some suffix is another master's output only if the
stems agree. -/
theorem findSidecar_ne {s s' : Suffix} (hdir : root <+: dir) (hs : s ∈ sidecarSuffixes)
    (hs' : s' ∈ sidecarSuffixes) (hstem : a.fileStem ≠ b.fileStem) :
    findSidecar t dir b root s ≠ some (relativeOf (sidecarPath dir a s') root) := by
  intro h
  have hrel := ((findSidecar_eq_some_iff hdir).mp h).2
  rw [relativeOf_inj (prefix_sidecarPath hdir) (prefix_sidecarPath hdir),
    sidecarPath_inj hs' hs] at hrel
  exact hstem hrel.1

/-- The sidecars of `a` and `b` are kept apart: the worker writes them to different paths, and
what it made from `a` is not attributed to `b`. -/
structure OwnershipUnambiguous (t : FileTree) (root dir : Path) (a b : FileName) : Prop where
  outputs : ∀ p ∈ workerOutputs (dir ++ [a]), p ∉ workerOutputs (dir ++ [b])
  attributed : ∀ s ∈ [compatSuffix, jpgSuffix],
    t.pathExists (siblingPaths (dir ++ [a]) s).2 = true →
      findCompat t dir b root ≠ some (relativeOf (siblingPaths (dir ++ [a]) s).2 root) ∧
        findThumbnail t dir b root ≠ some (relativeOf (siblingPaths (dir ++ [a]) s).2 root)

theorem ownershipUnambiguous_of_stem_ne (hdir : root <+: dir) (hstem : a.fileStem ≠ b.fileStem) :
    OwnershipUnambiguous t root dir a b where
  outputs := by
    intro p hp hp'
    obtain ⟨s, hs, rfl⟩ := mem_workerOutputs.mp hp
    obtain ⟨s', hs', heq⟩ := mem_workerOutputs.mp hp'
    exact hstem ((sidecarPath_inj (List.mem_append_left _ hs)
      (List.mem_append_left _ hs')).mp heq).1
  attributed := by
    intro s hs _
    have hmem : s ∈ sidecarSuffixes := by
      have hall : ∀ s ∈ [compatSuffix, jpgSuffix], s ∈ sidecarSuffixes := by decide
      exact hall s hs
    rw [siblingPaths_concat]
    refine ⟨findSidecar_ne hdir (by decide) hmem hstem, fun h => ?_⟩
    obtain ⟨s', hs', hfound⟩ := List.exists_of_findSome?_eq_some h
    exact findSidecar_ne hdir (List.mem_append_right _ hs') hmem hstem hfound

/-- With one stem, an existing compat copy of either name is the other's as well. -/
theorem findCompat_of_stem_eq (hdir : root <+: dir) (hstem : a.fileStem = b.fileStem)
    (h : t.pathExists (siblingPaths (dir ++ [a]) compatSuffix).2 = true) :
    findCompat t dir b root =
      some (relativeOf (siblingPaths (dir ++ [a]) compatSuffix).2 root) := by
  rw [siblingPaths_concat] at h ⊢
  have hpath : sidecarPath dir a compatSuffix = sidecarPath dir b compatSuffix :=
    (sidecarPath_inj (by decide) (by decide)).mpr ⟨hstem, rfl⟩
  exact (findSidecar_eq_some_iff hdir).mpr ⟨hpath ▸ h, by rw [hpath]⟩

/-- Two names own their sidecars separately if and only if their stems differ; with one stem,
whatever compat copy one of them has is attributed to the other. -/
theorem ownership_unambiguous_iff (t : FileTree) (a b : FileName) (hdir : root <+: dir) :
    (OwnershipUnambiguous t root dir a b ↔ a.fileStem ≠ b.fileStem) ∧
      (a.fileStem = b.fileStem →
        t.pathExists (siblingPaths (dir ++ [a]) compatSuffix).2 = true →
        findCompat t dir b root =
          some (relativeOf (siblingPaths (dir ++ [a]) compatSuffix).2 root)) := by
  refine ⟨⟨?_, ownershipUnambiguous_of_stem_ne hdir⟩, findCompat_of_stem_eq hdir⟩
  intro h hstem
  have hpath : sidecarPath dir a compatSuffix = sidecarPath dir b compatSuffix :=
    (sidecarPath_inj (by decide) (by decide)).mpr ⟨hstem, rfl⟩
  exact h.outputs (sidecarPath dir a compatSuffix)
    (mem_workerOutputs.mpr ⟨compatSuffix, by decide, rfl⟩)
    (mem_workerOutputs.mpr ⟨compatSuffix, by decide, hpath⟩)

end Attribution

/-! ## Two formats of one clip -/

namespace TwoFormats

open OneVideo (lib)

def clipMkv : FileName := ⟨"clip.mkv", by decide⟩

def clipMp4 : FileName := ⟨"clip.mp4", by decide⟩

/-- Two masters of one stem, with the compat copy that was made from the first. -/
def tree : FileTree :=
  .ofNodes [([], .dir), ([lib], .dir), ([lib, clipMkv], .file ⟨[1], 0⟩),
    ([lib, clipMp4], .file ⟨[2], 0⟩), ([lib, ⟨"clip.compat.mp4", by decide⟩], .file ⟨[3], 0⟩)]
    (by decide) (by decide)

theorem ownership_unambiguous_iff_twoFormats :
    (OwnershipUnambiguous tree [lib] [lib] clipMkv clipMp4 ↔
        clipMkv.fileStem ≠ clipMp4.fileStem) ∧
      (clipMkv.fileStem = clipMp4.fileStem →
        tree.pathExists (siblingPaths ([lib] ++ [clipMkv]) compatSuffix).2 = true →
        findCompat tree [lib] clipMp4 [lib] =
          some (relativeOf (siblingPaths ([lib] ++ [clipMkv]) compatSuffix).2 [lib])) :=
  ownership_unambiguous_iff tree clipMkv clipMp4 List.prefix_rfl

theorem ownership_ambiguous :
    ¬ ∀ (t : FileTree) (root dir : Path) (a b : FileName), root <+: dir → a ∈ masters t dir →
      b ∈ masters t dir → a ≠ b → OwnershipUnambiguous t root dir a b := by
  intro h
  have hclip := h tree [lib] [lib] clipMkv clipMp4 List.prefix_rfl (by decide) (by decide)
    (by decide)
  exact (hclip.attributed compatSuffix (by decide) (by decide)).1 (by decide)

end TwoFormats

end Loku
