import Loku.Config
import Loku.Index.Boundary

/-!
# Which libraries an event reaches

Every configured library is scanned, also when its root lies in that of another one, and a scan
goes into every directory whatever its name. The mapping of an event gives each path to the
first root that holds it, and passes over paths with the extension `part` before it is known
whether they are directories. It misses no library and no tree exactly when no second root
holds the path and, for a path with that extension, another path of the event reports the same
directories (`reported_iff`).
-/

namespace Loku

/-- Every library whose root holds the path is told of it, and of its parent where the root
holds that. -/
def Reported (event : Event) (roots : List (Library × Path)) (p : Path) : Prop :=
  ∀ (i : Nat) (library : Library) (root : Path), roots[i]? = some (library, root) → root <+: p →
    (i, p) ∈ dirtyDirectories event roots ∧
      ∀ parent, p.parent = some parent → root <+: parent →
        (i, parent) ∈ dirtyDirectories event roots

/-- No two roots hold the path. -/
def SingleRoot (roots : List (Library × Path)) (p : Path) : Prop :=
  ∀ (i j : Nat) (entry entry' : Library × Path), roots[i]? = some entry →
    roots[j]? = some entry' → entry.2 <+: p → entry'.2 <+: p → i = j

/-- A path of the event that is not passed over is the directory or lies directly in it. -/
def Names (event : Event) (dir : Path) : Prop :=
  ∃ path ∈ event.paths, isPart path = false ∧ (dir = path ∨ path.parent = some dir)

/-- The event names the path and its parent also without the path itself. -/
def StoodFor (event : Event) (roots : List (Library × Path)) (p : Path) : Prop :=
  ∀ entry ∈ roots, entry.2 <+: p →
    Names event p ∧ ∀ parent, p.parent = some parent → entry.2 <+: parent → Names event parent

theorem mem_dirtyDirectories_iff_names {event : Event} (hkind : event.kind ≠ .access)
    {roots : List (Library × Path)} {i : Nat} {dir : Path} :
    (i, dir) ∈ dirtyDirectories event roots ↔
      Names event dir ∧ owningRoot roots dir = some i := by
  rw [mem_dirtyDirectories_iff]
  constructor
  · rintro ⟨-, path, hpath, hpart, hdir, howning⟩
    exact ⟨⟨path, hpath, hpart, hdir⟩, howning⟩
  · rintro ⟨⟨path, hpath, hpart, hdir⟩, howning⟩
    exact ⟨hkind, path, hpath, hpart, hdir, howning⟩

theorem prefix_of_parent {p parent : Path} (h : p.parent = some parent) : parent <+: p := by
  unfold Path.parent at h
  split at h
  · cases h
  · rw [← Option.some.inj h]
    exact List.dropLast_prefix p

/-- The only root that holds a path owns what it holds above it. -/
theorem owningRoot_of_singleRoot {roots : List (Library × Path)} {p dir : Path}
    (h : SingleRoot roots p) (hdir : dir <+: p) {i : Nat} {library : Library} {root : Path}
    (hget : roots[i]? = some (library, root)) (hroot : root <+: dir) :
    owningRoot roots dir = some i := by
  obtain ⟨hi, hentry⟩ := List.getElem?_eq_some_iff.mp hget
  cases howning : owningRoot roots dir with
  | none =>
    unfold owningRoot at howning
    have hnot := List.findIdx?_eq_none_iff.mp howning _ (List.mem_of_getElem? hget)
    rw [Path.startsWith_iff.mpr hroot] at hnot
    cases hnot
  | some j =>
    have hj := howning
    unfold owningRoot at hj
    obtain ⟨hlt, hstarts, -⟩ := List.findIdx?_eq_some_iff_getElem.mp hj
    have hgetj : roots[j]? = some roots[j] := List.getElem?_eq_getElem hlt
    rw [Path.startsWith_iff] at hstarts
    rw [h i j _ _ hget hgetj (hroot.trans hdir) (hstarts.trans hdir)]

/-- The mapping misses neither a library nor a tree: exactly when one root at most holds the
path and, if its extension is `part`, the event names the directories in another way. -/
theorem reported_iff {event : Event} (hkind : event.kind ≠ .access) {p : Path}
    (hp : p ∈ event.paths) (roots : List (Library × Path)) :
    Reported event roots p ↔
      SingleRoot roots p ∧ (isPart p = true → StoodFor event roots p) := by
  constructor
  · intro h
    constructor
    · intro i j entry entry' hi hj hpre hpre'
      have howning := (mem_dirtyDirectories_iff_names hkind).mp (h i entry.1 entry.2 hi hpre).1
      have howning' := (mem_dirtyDirectories_iff_names hkind).mp (h j entry'.1 entry'.2 hj hpre').1
      exact Option.some.inj (howning.2.symm.trans howning'.2)
    · intro _ entry hentry hpre
      obtain ⟨i, hi⟩ := List.mem_iff_getElem?.mp hentry
      obtain ⟨hself, hparent⟩ := h i entry.1 entry.2 hi hpre
      refine ⟨((mem_dirtyDirectories_iff_names hkind).mp hself).1, ?_⟩
      intro parent hpar hroot
      exact ((mem_dirtyDirectories_iff_names hkind).mp (hparent parent hpar hroot)).1
  · rintro ⟨hsingle, hstood⟩ i library root hget hpre
    have hnames : Names event p ∧
        ∀ parent, p.parent = some parent → root <+: parent → Names event parent := by
      cases hpart : isPart p with
      | true => exact hstood hpart _ (List.mem_of_getElem? hget) hpre
      | false =>
        refine ⟨⟨p, hp, hpart, Or.inl rfl⟩, ?_⟩
        intro parent hpar _
        exact ⟨p, hp, hpart, Or.inr hpar⟩
    constructor
    · rw [mem_dirtyDirectories_iff_names hkind]
      exact ⟨hnames.1, owningRoot_of_singleRoot hsingle List.prefix_rfl hget hpre⟩
    · intro parent hpar hroot
      rw [mem_dirtyDirectories_iff_names hkind]
      exact ⟨hnames.2 parent hpar hroot,
        owningRoot_of_singleRoot hsingle (prefix_of_parent hpar) hget hroot⟩

/-! ## A library in another one -/

namespace NestedRoots

def extras : FileName := ⟨"Extras", by decide⟩

def oldPart : FileName := ⟨"Old.part", by decide⟩

/-- A directory with the extension `part`, and one that is a library of its own. -/
def tree : FileTree :=
  .ofNodes [([], .dir), ([OneVideo.lib], .dir), ([OneVideo.lib, oldPart], .dir),
    ([OneVideo.lib, extras], .dir)] (by decide) (by decide)

def entries : List LibraryFileEntry :=
  [⟨"movies", [OneVideo.lib], .downloads⟩, ⟨"extras", [OneVideo.lib, extras], .downloads⟩]

def libraries : List Library :=
  [⟨"movies", [OneVideo.lib], .downloads⟩, ⟨"extras", [OneVideo.lib, extras], .downloads⟩]

end NestedRoots

theorem singleRoot_singleton (entry : Library × Path) (p : Path) : SingleRoot [entry] p := by
  intro i j _ _ hi hj _ _
  obtain ⟨hi, -⟩ := List.getElem?_eq_some_iff.mp hi
  obtain ⟨hj, -⟩ := List.getElem?_eq_some_iff.mp hj
  simp only [List.length_singleton] at hi hj
  omega

theorem reported_oneVideo :
    Reported ⟨.create, [[OneVideo.lib, OneVideo.movie]]⟩
      (watchRoots OneVideo.tree [OneVideo.library]) [OneVideo.lib, OneVideo.movie] :=
  (reported_iff (by decide) List.mem_cons_self _).mpr
    ⟨singleRoot_singleton _ _, fun h => absurd h (by decide)⟩

open NestedRoots in
/-- The inner library is not told of its new video, and nobody of the directory `Old.part`,
though the scan visits it. -/
theorem not_reported :
    resolveLibraries tree none (some entries) = .ok libraries ∧
    ([OneVideo.lib, extras] <+: [OneVideo.lib, extras, OneVideo.movie] ∧
      (1, [OneVideo.lib, extras, OneVideo.movie]) ∉
        dirtyDirectories ⟨.create, [[OneVideo.lib, extras, OneVideo.movie]]⟩
          (watchRoots tree libraries)) ∧
    ([OneVideo.lib, oldPart] ∈ tree.walkDir [OneVideo.lib] ∧
      dirtyDirectories ⟨.remove, [[OneVideo.lib, oldPart]]⟩ (watchRoots tree libraries) = []) := by
  decide

end Loku
