import Loku.Lib.Text
import Mathlib.Data.List.Infix

/-!
# File names and paths

A `Path` is an absolute path: the components below `/`, each a `FileName`, that is a name a
directory listing can return. The index stores library-relative paths as texts; `relText` is
that text (components joined by `/`, empty for the library root) and `components` reads it
back (`components_relText`), so two relative paths with one text are equal
(`relText_injective`). File names are taken to be valid UTF-8.

The functions are those of `std::path`: `fileStem` and `extension` cut a name at its last dot
(a leading dot alone does not count), `startsWith` and `stripPrefix` compare whole components.
-/

namespace Loku

/-- What a component may be: not empty, without `/`, and not one of the two special names. -/
def ValidName (s : String) : Prop := s ≠ "" ∧ s ≠ "." ∧ s ≠ ".." ∧ '/' ∉ s.toList

instance (s : String) : Decidable (ValidName s) := inferInstanceAs (Decidable (_ ∧ _))

/-- A name that a directory listing can return. -/
structure FileName where
  text : String
  valid : ValidName text
deriving DecidableEq

theorem FileName.ext {m n : FileName} (h : m.text = n.text) : m = n := by
  cases m
  cases n
  cases h
  rfl

theorem FileName.slash_not_mem (n : FileName) : '/' ∉ n.text.toList := n.valid.2.2.2

/-- The components below `/`. -/
abbrev Path := List FileName

/-! ## Stem and extension -/

/-- `Path::file_stem`: the name up to its last dot, the whole name when there is no dot or only
a leading one. -/
def FileName.fileStem (n : FileName) : String :=
  match Lib.rsplitOnce ['.'] n.text.toList with
  | some (c :: before, _) => String.ofList (c :: before)
  | _ => n.text

/-- `Path::extension`: what follows the last dot, if that is not a leading one. -/
def FileName.extension (n : FileName) : Option String :=
  match Lib.rsplitOnce ['.'] n.text.toList with
  | some (_ :: _, after) => some (String.ofList after)
  | _ => none

/-- One character of `str::to_lowercase`. Besides the ASCII letters only the Kelvin sign has
an ASCII lower case form; the other characters never take part in a known extension and are
kept. -/
def lowercaseChar (c : Char) : Char := if c = Char.ofNat 0x212A then 'k' else c.toLower

/-- `str::to_lowercase`. -/
def toLowercase (s : String) : String := String.ofList (s.toList.map lowercaseChar)

/-- `str::eq_ignore_ascii_case`. -/
def eqIgnoreAsciiCase (s t : String) : Bool :=
  s.toList.map Char.toLower == t.toList.map Char.toLower

/-! ## Sidecar names -/

/-- A suffix that sidecars append to a stem: a dot, then at least two more characters, none of
them `/`. -/
structure Suffix where
  text : String
  valid : 3 ≤ text.toList.length ∧ '/' ∉ text.toList
deriving DecidableEq

/-- `format!("{suffix}.part")`. -/
def Suffix.part (s : Suffix) : Suffix where
  text := s.text ++ ".part"
  valid := by
    rw [String.toList_append, List.length_append, List.mem_append, not_or]
    exact ⟨by have := s.valid.1; omega, s.valid.2, by decide⟩

theorem slash_not_mem_fileStem (n : FileName) : '/' ∉ n.fileStem.toList := by
  unfold FileName.fileStem
  split
  · rename_i c before after h
    have happ := Lib.rsplitOnce_eq_append h
    have hslash := n.slash_not_mem
    rw [happ] at hslash
    simp only [List.append_assoc, List.mem_append, not_or] at hslash
    rw [String.toList_ofList]
    exact hslash.1
  · exact n.slash_not_mem

theorem validName_append_suffix {stem : String} (h : '/' ∉ stem.toList) (s : Suffix) :
    ValidName (stem ++ s.text) := by
  have hlen : 3 ≤ (stem ++ s.text).toList.length := by
    rw [String.toList_append, List.length_append]
    have := s.valid.1
    omega
  refine ⟨?_, ?_, ?_, ?_⟩
  · intro he
    rw [he] at hlen
    exact absurd hlen (by decide)
  · intro he
    rw [he] at hlen
    exact absurd hlen (by decide)
  · intro he
    rw [he] at hlen
    exact absurd hlen (by decide)
  · rw [String.toList_append, List.mem_append, not_or]
    exact ⟨h, s.valid.2⟩

/-- The sidecar of a name: the suffix appended to the stem, so that `foo.mov.webm` has the
sidecar `foo.mov.webp` and not `foo.webp`. -/
def FileName.sidecar (n : FileName) (s : Suffix) : FileName where
  text := n.fileStem ++ s.text
  valid := validName_append_suffix (slash_not_mem_fileStem n) s

/-- The suffix as a name of its own. -/
def Suffix.fileName (s : Suffix) : FileName where
  text := s.text
  valid := by
    have h : ValidName ("" ++ s.text) := validName_append_suffix (by simp) s
    rwa [String.empty_append] at h

/-- A stem with a dotted suffix has that suffix's last part as its extension. -/
theorem rsplitOnce_append_dot {stem ext : List Char} (h : '.' ∉ ext) :
    Lib.rsplitOnce ['.'] (stem ++ '.' :: ext) = some (stem, ext) :=
  Lib.rsplitOnce_singleton_append h

theorem fileStem_ne_empty (n : FileName) : n.fileStem ≠ "" := by
  unfold FileName.fileStem
  split
  · intro h
    have := congrArg String.toList h
    simp at this
  · exact n.valid.1

theorem extension_of_text {n : FileName} {before ext : List Char} (hb : before ≠ [])
    (hext : '.' ∉ ext) (h : n.text.toList = before ++ '.' :: ext) :
    n.extension = some (String.ofList ext) := by
  unfold FileName.extension
  rw [h, rsplitOnce_append_dot hext]
  cases before with
  | nil => exact absurd rfl hb
  | cons c cs => rfl

theorem fileStem_of_text {n : FileName} {before ext : List Char} (hb : before ≠ [])
    (hext : '.' ∉ ext) (h : n.text.toList = before ++ '.' :: ext) :
    n.fileStem = String.ofList before := by
  unfold FileName.fileStem
  rw [h, rsplitOnce_append_dot hext]
  cases before with
  | nil => exact absurd rfl hb
  | cons c cs => rfl

/-! ## Paths -/

namespace Path

/-- `Path::parent`. -/
def parent (p : Path) : Option Path := if p = [] then none else some p.dropLast

/-- `Path::extension` of the last component. -/
def extension (p : Path) : Option String := p.getLast?.bind FileName.extension

/-- `Path::starts_with`, component by component. -/
def startsWith (p root : Path) : Bool := root.isPrefixOf p

/-- `Path::strip_prefix`. -/
def stripPrefix : Path → Path → Option Path
  | p, [] => some p
  | [], _ :: _ => none
  | c :: p, r :: root => if c = r then stripPrefix p root else none

theorem startsWith_iff {p root : Path} : startsWith p root = true ↔ root <+: p :=
  List.isPrefixOf_iff_prefix

theorem stripPrefix_eq_some_iff {p root rel : Path} :
    stripPrefix p root = some rel ↔ p = root ++ rel := by
  induction root generalizing p with
  | nil => simp [stripPrefix, eq_comm]
  | cons r root ih =>
    cases p with
    | nil => simp [stripPrefix]
    | cons c p =>
      unfold stripPrefix
      split
      · rename_i h
        simp [h, ih]
      · rename_i h
        simp [h]

@[simp]
theorem stripPrefix_append (root rel : Path) : stripPrefix (root ++ rel) root = some rel :=
  stripPrefix_eq_some_iff.mpr rfl

/-- The text of an absolute path. -/
def absText (p : Path) : String := "/" ++ "/".intercalate (p.map FileName.text)

/-- The text of a path relative to some directory. -/
def relText (p : Path) : String := "/".intercalate (p.map FileName.text)

/-- The components of a text that name something: empty components and `.` are skipped, as
`Path::components` does. -/
def components (s : String) : Path :=
  (s.toList.splitOn '/').filterMap fun c =>
    if h : ValidName (String.ofList c) then some ⟨String.ofList c, h⟩ else none

/-- `Path::join` with a stored relative path; an absolute text replaces the base. -/
def join (base : Path) (s : String) : Path :=
  if s.toList.head? = some '/' then components s else base ++ components s

theorem toList_relText (p : Path) :
    (relText p).toList = ['/'].intercalate (p.map fun n => n.text.toList) := by
  unfold relText
  rw [String.toList_intercalate, List.map_map]
  rfl

theorem splitOn_relText {p : Path} (hp : p ≠ []) :
    (relText p).toList.splitOn '/' = p.map fun n => n.text.toList := by
  rw [toList_relText]
  apply List.splitOn_intercalate
  · intro l hl
    obtain ⟨n, -, rfl⟩ := List.mem_map.mp hl
    exact n.slash_not_mem
  · simpa using hp

/-- Reading a relative path back. -/
@[simp]
theorem components_relText (p : Path) : components (relText p) = p := by
  by_cases hp : p = []
  · subst hp
    decide
  · unfold components
    rw [splitOn_relText hp, List.filterMap_map]
    have hsome : (fun n : FileName => if h : ValidName (String.ofList n.text.toList) then
        some (⟨String.ofList n.text.toList, h⟩ : FileName) else none) = some := by
      funext n
      simp [n.valid]
    exact (congrArg (fun f => List.filterMap f p) hsome).trans (List.filterMap_some ..)

/-- Two relative paths with one text are equal. -/
theorem relText_injective : Function.Injective relText := fun p q h => by
  rw [← components_relText p, h, components_relText]

@[simp]
theorem relText_inj {p q : Path} : relText p = relText q ↔ p = q := relText_injective.eq_iff

theorem head?_relText (p : Path) : (relText p).toList.head? ≠ some '/' := by
  rw [toList_relText]
  cases p with
  | nil => simp
  | cons n p =>
    have hne : n.text.toList ≠ [] := by
      intro h
      exact n.valid.1 (String.toList_inj.mp h)
    obtain ⟨c, cs, hc⟩ := List.exists_cons_of_ne_nil hne
    have hslash := n.slash_not_mem
    rw [hc] at hslash
    have hslash' : c ≠ '/' := fun h => hslash (h ▸ List.mem_cons_self)
    cases p with
    | nil => simp [hc, hslash']
    | cons m p => simp [hc, hslash']

@[simp]
theorem join_relText (base p : Path) : join base (relText p) = base ++ p := by
  unfold join
  rw [if_neg (head?_relText p), components_relText]

/-- The text of a path below `p` begins with the text of `p` and a slash. -/
theorem toList_relText_append {p q : Path} (hp : p ≠ []) (hq : q ≠ []) :
    (relText (p ++ q)).toList = (relText p).toList ++ '/' :: (relText q).toList := by
  unfold relText
  rw [List.map_append, String.intercalate_append_of_ne_nil (by simpa using hp) (by simpa using hq)]
  simp [String.toList_append]

end Path

end Loku
