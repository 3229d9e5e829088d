import Loku.Index.Scan
import Loku.Lib.Text

/-!
# Where a title comes from

A record's title is the first one present among the NFO's title, the `info.json` title and, in a
library of discs, the rip name. A title that is present but blank is taken all the same, and
nothing after it is asked. `title_falls_through_iff` says for which sidecars and names this does
no harm: those whose first title present has a visible character. For a rip name it is the prefix
that counts (`visible_displayTitle_iff`).
-/

namespace Loku

/-- A text with a character that is not white space. -/
def Visible (s : String) : Prop := ∃ c ∈ s.toList, isWhitespace c = false

instance (s : String) : Decidable (Visible s) :=
  decidable_of_iff ((s.toList.any fun c => !isWhitespace c) = true) (by simp [Visible])

/-- The title in the video's NFO. -/
def nfoTitle (decoders : Decoders) (t : FileTree) (dir : Path) (video : FileName)
    (allowFolderNfo : Bool) : Option String :=
  (readNfo decoders t dir video allowFolderNfo).bind fun nfo => (nfoFacts nfo).title

/-- The title that a rip name gives. -/
def ripTitle (library : Library) (video : FileName) : Option String :=
  if library.kind = .discs then some (displayTitle (parseRipName video.text).pfx) else none

/-- The possible titles of a video, the preferred one first. -/
def titleSources (decoders : Decoders) (t : FileTree) (library : Library) (dir : Path)
    (video : FileName) (allowFolderNfo : Bool) : List (Option String) :=
  [nfoTitle decoders t dir video allowFolderNfo, (readInfoJson decoders t dir video).title,
    ripTitle library video]

/-- The first title that can be seen. -/
def firstVisible (sources : List (Option String)) : Option String :=
  (sources.filterMap id).find? fun title => Visible title

/-- The title that would be used is one that can be seen. A rip name is judged by its prefix. -/
def FirstSourceVisible (decoders : Decoders) (t : FileTree) (library : Library) (dir : Path)
    (video : FileName) (allowFolderNfo : Bool) : Prop :=
  match nfoTitle decoders t dir video allowFolderNfo, (readInfoJson decoders t dir video).title with
  | some title, _ => Visible title
  | none, some title => Visible title
  | none, none => library.kind = .discs →
      ∃ c ∈ (parseRipName video.text).pfx.toList, c ≠ '_' ∧ isWhitespace c = false

/-- The visible characters of a display title are those of the prefix that are no underscores. -/
theorem filter_displayTitle (pfx : String) :
    (displayTitle pfx).toList.filter (fun c => !isWhitespace c) =
      pfx.toList.filter fun c => !(c == '_' || isWhitespace c) := by
  have hspace : ∀ c ∈ " ".toList, (!isWhitespace c) = false := by
    intro c hc
    obtain rfl : c = ' ' := List.mem_singleton.mp hc
    rfl
  unfold displayTitle
  rw [String.toList_intercalate, List.map_map]
  have htexts : String.toList ∘ String.ofList = id := funext fun l => String.toList_ofList
  rw [htexts, List.map_id, Lib.filter_intercalate hspace]
  change (Lib.words (fun c => c == '_' || isWhitespace c) pfx.toList).flatten.filter _ = _
  rw [Lib.flatten_words, List.filter_filter]
  refine List.filter_congr fun c _ => ?_
  cases isWhitespace c <;> simp

theorem visible_iff_filter_ne_nil {s : String} :
    Visible s ↔ s.toList.filter (fun c => !isWhitespace c) ≠ [] := by
  unfold Visible
  rw [ne_eq, List.filter_eq_nil_iff]
  simp

/-- A prefix gives a title that can be seen when it is more than underscores and white space. -/
theorem visible_displayTitle_iff {pfx : String} :
    Visible (displayTitle pfx) ↔ ∃ c ∈ pfx.toList, c ≠ '_' ∧ isWhitespace c = false := by
  rw [visible_iff_filter_ne_nil, filter_displayTitle, ne_eq, List.filter_eq_nil_iff]
  simp

/-- The stored title is the first one present. -/
theorem title_buildRecord {decoders : Decoders} {t : FileTree} {library : Library}
    {root dir : Path} {video : FileName} {allowFolderNfo : Bool} {record : VideoRecord}
    (h : buildRecord decoders t library root dir video allowFolderNfo = some record) :
    record.title =
      ((titleSources decoders t library dir video allowFolderNfo).filterMap id).head? := by
  unfold buildRecord at h
  rw [Option.map_eq_some_iff] at h
  obtain ⟨metadata, -, rfl⟩ := h
  have hnfo : (((readNfo decoders t dir video allowFolderNfo).map nfoFacts).getD {}).title =
      nfoTitle decoders t dir video allowFolderNfo := by
    unfold nfoTitle
    cases readNfo decoders t dir video allowFolderNfo <;> rfl
  unfold titleSources ripTitle
  simp only [hnfo]
  cases nfoTitle decoders t dir video allowFolderNfo with
  | some title => rfl
  | none =>
    cases (readInfoJson decoders t dir video).title with
    | some title => rfl
    | none => split <;> rfl

theorem head?_eq_find?_iff {α : Type} {p : α → Bool} {l : List α} :
    l.head? = l.find? p ↔ ∀ a ∈ l.head?, p a = true := by
  cases l with
  | nil => simp
  | cons a l =>
    simp only [List.head?_cons, Option.mem_some_iff, forall_eq']
    constructor
    · intro h
      exact List.find?_some h.symm
    · intro ha
      rw [List.find?_cons_of_pos ha]

theorem firstSourceVisible_iff {decoders : Decoders} {t : FileTree} {library : Library}
    {dir : Path} {video : FileName} {allowFolderNfo : Bool} :
    FirstSourceVisible decoders t library dir video allowFolderNfo ↔
      ∀ title ∈ ((titleSources decoders t library dir video allowFolderNfo).filterMap id).head?,
        Visible title := by
  unfold FirstSourceVisible titleSources ripTitle
  cases nfoTitle decoders t dir video allowFolderNfo with
  | some title => simp
  | none =>
    cases (readInfoJson decoders t dir video).title with
    | some title => simp
    | none =>
      by_cases hkind : library.kind = .discs
      · simp [hkind, visible_displayTitle_iff]
      · simp [hkind]

/-- The title falls through to the first source that can be seen, and is never blank, exactly
when the first source present can be seen. -/
theorem title_falls_through_iff {decoders : Decoders} {t : FileTree} {library : Library}
    {root dir : Path} {video : FileName} {allowFolderNfo : Bool} {record : VideoRecord}
    (h : buildRecord decoders t library root dir video allowFolderNfo = some record) :
    (record.title = firstVisible (titleSources decoders t library dir video allowFolderNfo) ∧
      ∀ title ∈ record.title, Visible title) ↔
      FirstSourceVisible decoders t library dir video allowFolderNfo := by
  rw [firstSourceVisible_iff, title_buildRecord h]
  unfold firstVisible
  constructor
  · rintro ⟨-, hvisible⟩
    exact hvisible
  · intro hvisible
    exact ⟨head?_eq_find?_iff.mpr fun title htitle => decide_eq_true (hvisible title htitle),
      hvisible⟩

/-! ## A rip whose whole stem is its title index -/

namespace BareIndex

open OneVideo (lib decoders)

def rip : FileName := ⟨"_t00.mkv", by decide⟩

def tree : FileTree :=
  .ofNodes [([], .dir), ([lib], .dir), ([lib, rip], .file ⟨[4, 5], 7⟩)] (by decide) (by decide)

def library : Library := ⟨"discs", [lib], .discs⟩

def titleOf (video : FileName) : Option (Option String) :=
  (buildRecord decoders tree library [lib] [lib] video true).map VideoRecord.title

theorem blank_title_stored : titleOf rip = some (some "") ∧ ¬ Visible "" ∧
    ¬ ∀ record ∈ buildRecord decoders tree library [lib] [lib] rip true,
      record.title = firstVisible (titleSources decoders tree library [lib] rip true) ∧
        ∀ title ∈ record.title, Visible title := by
  have htitle : titleOf rip = some (some "") := by decide
  have hblank : ¬ Visible "" := by decide
  refine ⟨htitle, hblank, fun h => ?_⟩
  obtain ⟨record, hrecord, hempty⟩ := Option.map_eq_some_iff.mp htitle
  exact hblank ((h record hrecord).2 "" hempty)

theorem title_falls_through_iff_bareIndex : ∃ record,
    buildRecord decoders tree library [lib] [lib] rip true = some record ∧
    ((record.title = firstVisible (titleSources decoders tree library [lib] rip true) ∧
      ∀ title ∈ record.title, Visible title) ↔
      FirstSourceVisible decoders tree library [lib] rip true) := by
  have hsome : (buildRecord decoders tree library [lib] [lib] rip true).isSome = true := by decide
  obtain ⟨record, hrecord⟩ := Option.isSome_iff_exists.mp hsome
  exact ⟨record, hrecord, title_falls_through_iff hrecord⟩

end BareIndex

end Loku
