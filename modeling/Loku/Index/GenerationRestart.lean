import Loku.Index.ScanOutcome

/-!
# The sweep and a damaged counter

The sweep of a scan deletes the rows whose stamp lies below the new generation, and that is one
more than the number read from the stored text, or one when the text is missing or junk; after
the largest `i64` it is the smallest. A row of a directory that is walked goes with the reconcile
of the directory, whatever its stamp. A row of one that is not is deleted exactly when its stamp
lies below the generation: a counter that restarts below the stamps in the table hides what has
vanished (`scanAll_allSeen_iff`).
-/

namespace Loku

section Seen
variable (decoders : Decoders) (disk : Disk) (library : Library) (root : Path)

/-- The scan of the library has found a master with this key. -/
def Seen (k : RowKey) : Prop :=
  ∃ record, Collected decoders disk.collect library root (disk.walk.walkDir root) record ∧
    record.key = k

/-- Every row of the library is one of a master that the scan has found. -/
def AllSeen (index : Index) : Prop :=
  ∀ row ∈ index.videos, row.record.library = library.name →
    Seen decoders disk library root row.key

/-- The rows that only the sweep can delete have stamps below a generation. -/
def StampsOlder (generation : Int) (index : Index) : Prop :=
  ∀ row ∈ index.videos, row.record.library = library.name →
    ¬ Seen decoders disk library root row.key →
    (∀ dir ∈ disk.walk.walkDir root, row.record.parent ≠ relativeOf dir root) →
    row.lastSeen < generation

end Seen

section Scan
variable {decoders : Decoders} {disk : Disk} {library : Library} {root : Path} {generation : Int}

/-- The rows of the library without a master among the visited lie in no visited directory. -/
def OnlyElsewhere (decoders : Decoders) (disk : Disk) (library : Library) (root : Path)
    (visited : List Path) (index : Index) : Prop :=
  ∀ row ∈ index.videos, row.record.library = library.name →
    (∀ record, Collected decoders disk.collect library root visited record →
      record.key ≠ row.key) →
    ∀ dir ∈ visited, row.record.parent ≠ relativeOf dir root

/-- Reconciling one more directory deletes its other rows. -/
theorem OnlyElsewhere.step {index index' : Index} {visited : List Path} {dir : Path}
    (h : OnlyElsewhere decoders disk library root visited index)
    (hreconcile : index.reconcileDirectory library.name (relativeOf dir root)
      (collectDirectory decoders (disk.collect dir) library root dir) generation = .ok index') :
    OnlyElsewhere decoders disk library root (visited ++ [dir]) index' := by
  intro row hrow hlib hnone d hd
  have hkeys : ∀ r ∈ collectDirectory decoders (disk.collect dir) library root dir,
      r.key ≠ row.key := fun r hr => hnone r ⟨dir, by simp, hr⟩
  have hfind := Lib.Table.find?_key hrow
  rw [Index.find?_reconcileDirectory_of_not_mem (fun r hr => library_of_mem_collect hr) hreconcile
    hkeys, Option.filter_eq_some_iff] at hfind
  obtain ⟨hold, hkept⟩ := hfind
  rcases List.mem_append.mp hd with hd | hd
  · refine h row (Lib.Table.find?_eq_some_iff.mp hold).1 hlib ?_ d hd
    rintro record ⟨d', hd', hrecord⟩
    exact hnone record ⟨d', List.mem_append_left _ hd', hrecord⟩
  · rw [List.mem_singleton.mp hd]
    simpa [hlib] using hkept

theorem onlyElsewhere_scanDirectories {faults : Faults} :
    ∀ (dirs visited : List Path) (index scanned : Index) (stats stats' : ScanStats),
      OnlyElsewhere decoders disk library root visited index →
      scanDirectories decoders faults disk library root generation dirs index stats =
        (scanned, .ok stats') →
      OnlyElsewhere decoders disk library root (visited ++ dirs) scanned
  | [], visited, index, scanned, _, _, h, hscan => by
    obtain ⟨rfl, -⟩ := Prod.mk.inj hscan
    rwa [List.append_nil]
  | dir :: dirs, visited, index, scanned, stats, stats', h, hscan => by
    unfold scanDirectories at hscan
    dsimp only at hscan
    split at hscan
    · cases (Prod.mk.inj hscan).2
    · rename_i index' hcall
      have hrest := onlyElsewhere_scanDirectories dirs (visited ++ [dir]) index' scanned _ stats'
        (h.step (callIndex_ok_iff.mp hcall).2) hscan
      rwa [List.append_assoc] at hrest

theorem onlyElsewhere_nil (index : Index) : OnlyElsewhere decoders disk library root [] index := by
  intro row _ _ _ dir hdir
  cases hdir

/-- After the scan of a library only seen rows are left, if and only if the rows that are left
to the sweep are old enough. -/
theorem scanLibrary_allSeen_iff {faults : Faults} {before after : Index} {stats : ScanStats}
    (hroot : disk.walk.canonicalize library.path = some root)
    (hscan : scanLibrary decoders faults disk library generation before = (after, .ok stats)) :
    AllSeen decoders disk library root after ↔
      StampsOlder decoders disk library root generation before := by
  obtain ⟨root', scanned, stats', hroot', hdirs, rfl⟩ := scanLibrary_ok hscan
  cases hroot.symm.trans hroot'
  have hscanned := scanDirectories_scanned before _ [] before scanned {} stats'
    (.nil before) (by simp) (fun d hd => FileTree.prefix_of_mem_walkDir hd) hdirs
  have helsewhere := onlyElsewhere_scanDirectories _ [] before scanned {} stats'
    (onlyElsewhere_nil before) hdirs
  rw [List.nil_append] at hscanned helsewhere
  have hswept : ∀ row, row ∈ (scanned.removeUnseen library.name generation).1.videos ↔
      row ∈ scanned.videos ∧
        ¬(row.record.library = library.name ∧ row.lastSeen < generation) := by
    intro row
    refine Lib.Table.mem_delete.trans ?_
    simp
  constructor
  · intro hall row hrow hlib hunseen hparent
    have hkept := hscanned.kept row.key row (Lib.Table.find?_key hrow)
      (fun record hrecord heq => hunseen ⟨record, hrecord, heq⟩) (fun _ => hparent)
    by_contra hstamp
    refine hunseen (hall row ((hswept row).mpr ⟨?_, fun h => hstamp h.2⟩) hlib)
    exact (Lib.Table.find?_eq_some_iff.mp hkept).1
  · intro holder row hrow hlib
    obtain ⟨hrow, hkept⟩ := (hswept row).mp hrow
    by_contra hunseen
    rcases hscanned.stale row.key row (Lib.Table.find?_key hrow) with hseen | hold
    · exact hunseen hseen
    · -- a row that was there before, in a directory that was not walked
      have hparent := helsewhere row hrow hlib
        (fun record hrecord heq => hunseen ⟨record, hrecord, heq⟩)
      exact hkept ⟨hlib, holder row (Lib.Table.find?_eq_some_iff.mp hold).1 hlib hunseen hparent⟩

theorem forall_row_congr {P : Row → Prop} {name : String} {index index' : Index}
    (h : ∀ k : RowKey, k.1 = name → index'.videos.find? k = index.videos.find? k) :
    (∀ row ∈ index'.videos, row.record.library = name → P row) ↔
      ∀ row ∈ index.videos, row.record.library = name → P row := by
  have hmem : ∀ row : Row, row.record.library = name →
      (row ∈ index'.videos ↔ row ∈ index.videos) := by
    intro row hlib
    have hfind := h row.key hlib
    constructor
    · intro hrow
      rw [Lib.Table.find?_key hrow] at hfind
      exact (Lib.Table.find?_eq_some_iff.mp hfind.symm).1
    · intro hrow
      rw [Lib.Table.find?_key hrow] at hfind
      exact (Lib.Table.find?_eq_some_iff.mp hfind).1
  constructor
  · intro hall row hrow hlib
    exact hall row ((hmem row hlib).mpr hrow) hlib
  · intro hall row hrow hlib
    exact hall row ((hmem row hlib).mp hrow) hlib

/-- The same for libraries scanned one after the other. -/
theorem scanLibraries_allSeen_iff {faults : Faults} {disk : Library → Disk} :
    ∀ (libraries : List Library) (before after : Index) (stats stats' : ScanStats),
      (libraries.map Library.name).Nodup →
      scanLibraries decoders faults disk generation libraries before stats =
        (after, .ok stats') →
      ((∀ library ∈ libraries, ∀ root,
          (disk library).walk.canonicalize library.path = some root →
          AllSeen decoders (disk library) library root after) ↔
        ∀ library ∈ libraries, ∀ root,
          (disk library).walk.canonicalize library.path = some root →
          StampsOlder decoders (disk library) library root generation before)
  | [], before, after, _, _, _, _ => by simp
  | library :: libraries, before, after, stats, stats', hnames, hscan => by
    obtain ⟨scanned, libraryStats, restStats, hlibrary, hlibraries, hrest, hother⟩ :=
      scanLibraries_cons_ok hnames hscan
    rw [List.map_cons, List.nodup_cons] at hnames
    have htail := scanLibraries_allSeen_iff libraries scanned after _ _ hnames.2 hlibraries
    rw [List.forall_mem_cons, List.forall_mem_cons, htail]
    apply and_congr
    · apply forall_congr'
      intro root
      apply imp_congr_right
      intro hroot
      have hseen : AllSeen decoders (disk library) library root after ↔
          AllSeen decoders (disk library) library root scanned := forall_row_congr hrest
      rw [hseen]
      exact scanLibrary_allSeen_iff hroot hlibrary
    · apply forall_congr'
      intro l
      apply imp_congr_right
      intro hl
      apply forall_congr'
      intro root
      apply imp_congr_right
      intro _
      exact forall_row_congr (hother l hl)

end Scan

/-- The sweep of a scan starts from the rows as they were when its generation was drawn. -/
theorem stampsOlder_nextGeneration_iff {decoders : Decoders} {disk : Disk} {library : Library}
    {root : Path} {index started : Index} {generation : Int}
    (hnext : index.nextGeneration = (started, generation)) :
    StampsOlder decoders disk library root generation started ↔
      StampsOlder decoders disk library root (wrapI64 (index.currentGeneration + 1)) index := by
  obtain ⟨rfl, -, hvideos, -⟩ := Index.nextGeneration_spec hnext
  exact forall_row_congr fun k _ => by rw [hvideos]

/-- A full scan leaves only rows it has seen, if and only if every directory fits in a
transaction and the rows of vanished directories have stamps below the generation that is drawn;
and that one is the successor of the number read from the stored counter, if and only if the
number is not the largest `i64`. -/
theorem scanAll_allSeen_iff {decoders : Decoders} {disk : Library → Disk}
    {libraries : List Library} (hnames : (libraries.map Library.name).Nodup)
    (hroots : ∀ library ∈ libraries, ((disk library).walk.canonicalize library.path).isSome)
    (index : Index) :
    ((∃ scanned stats, scanAll decoders .none disk libraries index = (scanned, .ok stats) ∧
      ∀ library ∈ libraries, ∀ root,
        (disk library).walk.canonicalize library.path = some root →
        AllSeen decoders (disk library) library root scanned) ↔
      ∀ library ∈ libraries, ∀ root,
        (disk library).walk.canonicalize library.path = some root →
        DirectoriesFit decoders (disk library) library root ∧
          StampsOlder decoders (disk library) library root
            (wrapI64 (index.currentGeneration + 1)) index) ∧
    (index.nextGeneration.2 = index.currentGeneration + 1 ↔
      index.currentGeneration < i64Max) := by
  refine ⟨⟨?_, ?_⟩, (Index.hasRoom_iff rfl).symm⟩
  · rintro ⟨scanned, stats, hscan, hall⟩
    obtain ⟨started, generation, hnext, hlibraries⟩ := scanAll_ok hscan
    have hfit := (scanAll_completes_iff hroots).mp ⟨stats, by rw [hscan]⟩
    have holder := (scanLibraries_allSeen_iff libraries started scanned {} stats hnames
      hlibraries).mp hall
    intro library hlibrary root hroot
    exact ⟨hfit library hlibrary root hroot,
      (stampsOlder_nextGeneration_iff hnext).mp (holder library hlibrary root hroot)⟩
  · intro hcondition
    have hfit : ∀ library ∈ libraries, ∀ root,
        (disk library).walk.canonicalize library.path = some root →
        DirectoriesFit decoders (disk library) library root :=
      fun library hlibrary root hroot => (hcondition library hlibrary root hroot).1
    obtain ⟨stats, hok⟩ : Completes (scanAll decoders .none disk libraries index) :=
      (scanAll_completes_iff hroots).mpr hfit
    have hscan : scanAll decoders .none disk libraries index =
        ((scanAll decoders .none disk libraries index).1, .ok stats) := Prod.ext rfl hok
    obtain ⟨started, generation, hnext, hlibraries⟩ := scanAll_ok hscan
    refine ⟨_, stats, hscan, ?_⟩
    apply (scanLibraries_allSeen_iff libraries started _ {} stats hnames hlibraries).mpr
    intro library hlibrary root hroot
    exact (stampsOlder_nextGeneration_iff hnext).mpr (hcondition library hlibrary root hroot).2

/-! ## A counter that was lost -/

namespace LostCounter

/-- A row of a directory that is gone, stamped by the fifth scan. -/
def goneRow : Row := ⟨1, .placed "movies" "Gone/Old.mkv" "Gone" "Old.mkv" 3 5, 5⟩

/-- The row, and a counter that reads as `text`. -/
def index (text : Option String) : Index :=
  { Index.openInMemory with
    videos := Index.upsertRecord 5 .empty goneRow.record
    scanGeneration := text }

open OneVideo in
theorem allSeen_scanAll : (∃ scanned stats,
    scanAll decoders .none (fun _ => .still tree) [library] (index (some "5")) =
      (scanned, .ok stats) ∧
    ∀ l ∈ [library], ∀ root, (Disk.still tree).walk.canonicalize l.path = some root →
      AllSeen decoders (.still tree) l root scanned) ∧
    (index (some "5")).nextGeneration.2 = 6 := by
  have hroots : ∀ l ∈ [library], ((Disk.still tree).walk.canonicalize l.path).isSome := by decide
  have hnames : ([library].map Library.name).Nodup := by decide
  obtain ⟨hseen, hnext⟩ : (_ ↔ _) ∧ (_ ↔ _) := scanAll_allSeen_iff hnames hroots (index (some "5"))
  refine ⟨hseen.mpr ?_, hnext.mpr (by decide)⟩
  intro l hl root hroot
  constructor
  · rw [List.mem_singleton] at hl
    subst hl
    have hlib : (Disk.still tree).walk.canonicalize library.path = some [lib] := by decide
    cases hlib.symm.trans hroot
    decide
  · intro row hrow _ _ _
    have hstamp : ∀ r ∈ (index (some "5")).videos.rows, r.lastSeen = 5 := by decide
    have hcurrent : wrapI64 ((index (some "5")).currentGeneration + 1) = 6 := by decide
    rw [hstamp row hrow, hcurrent]
    omega

open OneVideo in
/-- With a counter that is no number the row outlives the scan. So it does with the largest one,
which the smallest follows. -/
theorem goneRow_mem_scanAll :
    ¬ Seen decoders (.still tree) library [lib] goneRow.key ∧
    (goneRow ∈ (scanAll decoders .none (fun _ => .still tree) [library]
        (index (some "junk"))).1.videos ∧
      Completes (scanAll decoders .none (fun _ => .still tree) [library]
        (index (some "junk")))) ∧
    (goneRow ∈ (scanAll decoders .none (fun _ => .still tree) [library]
        (index (some "9223372036854775807"))).1.videos ∧
      Completes (scanAll decoders .none (fun _ => .still tree) [library]
        (index (some "9223372036854775807"))) ∧
      (index (some "9223372036854775807")).nextGeneration.2 = -9223372036854775808) := by
  refine ⟨?_, ⟨by decide, ⟨_, rfl⟩⟩, by decide, ⟨_, rfl⟩, by decide⟩
  rintro ⟨record, ⟨dir, hdir, hrecord⟩, hkey⟩
  have hkeys : ∀ dir ∈ (Disk.still tree).walk.walkDir [lib],
      ∀ record ∈ collectDirectory decoders tree library [lib] dir,
        record.key ≠ goneRow.key := by decide
  exact hkeys dir hdir record hrecord hkey

end LostCounter

end Loku
