import Loku.Index.Boundary
import Loku.Index.CaseFold
import Loku.Index.ScanAll

/-!
# The watcher against the full scan

A full scan leaves the rows of the videos that are there (`lists_scanAll`). Between two flushes
files and directories come, go and move, each with its event; the flush should leave the same
rows. `flush_refines_iff` says exactly when: `FlushCovers` compares the tree before the
operations, the tree that the flush finds and the paths that the events name.

A directory that is gone is noticed only through a reported path at or above it that is no
directory any more. When another directory has taken that path, the rows beneath it stay
(`Replaced`).
-/

namespace Loku

/-! ## What a full scan leaves -/

theorem lists_of_scannedRecords {decoders : Decoders} {t : FileTree} {library : Library}
    {root : Path} {before after : Index} (h : ScannedRecords decoders t library before after)
    (hroot : t.canonicalize library.path = some root) :
    Lists after library.name root (videosOf t root) where
  under p hp := (FileTree.reachableDir_iff.mp hp.1).1
  sound row hrow hlib := by
    have hrecordAt := Index.recordAt_of_find? (Lib.Table.find?_key hrow)
    by_cases hmaster : ∃ record, MasterRecord decoders t library record ∧ record.key = row.key
    · obtain ⟨record, hrecord, hkey⟩ := hmaster
      have hwritten := h.master record hrecord
      rw [hkey, hrecordAt] at hwritten
      obtain ⟨root', hroot', dir, hdir, hcollect⟩ := hrecord
      cases hroot.symm.trans hroot'
      obtain ⟨video, hvideo, hbuild⟩ := mem_collectDirectory.mp hcollect
      obtain ⟨hrecordKey, hparent, -⟩ := buildRecord_columns hbuild
      refine ⟨(dir, video), ⟨hdir, hvideo⟩, congrArg Prod.snd (hkey.symm.trans hrecordKey), ?_⟩
      rw [Option.some.inj hwritten, ← hparent]
      cases before.recordAt row.key <;> rfl
    · have hnone := h.absent row.key hlib fun record hrecord hkey => hmaster ⟨record, hrecord, hkey⟩
      rw [hrecordAt] at hnone
      cases hnone
  complete p hp := by
    obtain ⟨record, hrecord, hbuild⟩ := exists_collect_of_mem_masters decoders library
      root hp.2
    have hmaster := h.master record ⟨root, hroot, p.1, hp.1, hrecord⟩
    obtain ⟨row, hrow, hwritten, hkey⟩ := Index.recordAt_eq_some_iff.mp hmaster
    refine ⟨row, hrow, ?_⟩
    rw [← (buildRecord_columns hbuild).1, ← hkey, ← hwritten]
    rfl

/-- A full scan lists the videos that it finds. -/
theorem lists_scanAll {decoders : Decoders} {faults : Faults} {t : FileTree}
    {libraries : List Library} {index scanned : Index} {stats : ScanStats}
    (hnames : (libraries.map Library.name).Nodup) (hplaced : RowsSatisfy WellPlaced index)
    (hstamps : index.StampsBelow) (hroom : index.HasRoom)
    (hscan : scanAll decoders faults (fun _ => .still t) libraries index = (scanned, .ok stats))
    {library : Library} (hlibrary : library ∈ libraries) {root : Path}
    (hroot : t.canonicalize library.path = some root) :
    Lists scanned library.name root (videosOf t root) :=
  lists_of_scannedRecords
    ((recordAt_scanAll hnames hplaced hstamps hroom hscan).1 library hlibrary) hroot

/-! ## Operations between two flushes -/

inductive TreeOp
  | writeFile (p : Path) (data : FileData)
  | createDir (p : Path)
  | remove (p : Path)
  | rename (src dst : Path)

namespace TreeOp

/-- The operation, if the file system allows it. A removed or renamed directory takes along
everything beneath it; a renamed file may replace another. -/
def apply (t : FileTree) : TreeOp → Option FileTree
  | writeFile p data => t.writeFile p data
  | createDir p =>
    if h : t.node p = none ∧ t.CanPut p .dir then some (t.put p .dir h.2) else none
  | remove p => if p ≠ [] ∧ t.node p ≠ none then some (t.remove p) else none
  | rename src dst =>
    if h : t.CanMove src dst then some (t.move src dst h) else t.renameFile src dst

/-- The event of an operation, with its source and its destination. -/
def event : TreeOp → Event
  | writeFile p _ => ⟨.create, [p]⟩
  | createDir p => ⟨.create, [p]⟩
  | remove p => ⟨.remove, [p]⟩
  | rename src dst => ⟨.modify, [src, dst]⟩

/-- Do some operations in turn: the tree they lead to, and the events of those that went
through. -/
def perform : FileTree → List TreeOp → FileTree × List Event
  | t, [] => (t, [])
  | t, op :: ops =>
    match op.apply t with
    | none => perform t ops
    | some t' => ((perform t' ops).1, op.event :: (perform t' ops).2)

end TreeOp

/-! ## When a flush covers the operations -/

/-- A directory is reconciled: it is found beneath a path that some event names, or the parent of
one, and that no other such path that is a directory covers, and its videos fit into one call. -/
def Rescanned (t : FileTree) (roots : List (Library × Path)) (events : List Event) (i : Nat)
    (dir : Path) : Prop :=
  (∃ p, Uncovered t roots events (i, p) ∧ t.FoundBeneath p dir) ∧ Fits t dir

/-- A directory's rows are removed: it is in the tree, up to case, of a path that some event
names, or the parent of one, and that is no directory now. -/
def Swept (t : FileTree) (roots : List (Library × Path)) (events : List Event) (i : Nat)
    (dir : Path) : Prop :=
  ∃ p, Candidate roots events (i, p) ∧ t.isDir p = false ∧ InTreeUpToCase p dir

/-- What the events name is what has changed, so far as a flush has to know. -/
structure FlushCovers (t₀ t : FileTree) (roots : List (Library × Path)) (events : List Event)
    (i : Nat) (root : Path) : Prop where
  /-- A directory that is not reconciled has the videos whose rows it keeps. -/
  kept : ∀ dir, t.ReachableDir root dir → ¬ Rescanned t roots events i dir → ∀ video,
    video ∈ masters t dir ↔
      (t₀.ReachableDir root dir ∧ video ∈ masters t₀ dir) ∧ ¬ Swept t roots events i dir
  /-- The rows of a directory that is gone are removed. -/
  gone : ∀ dir, ¬ t.ReachableDir root dir → ¬ Rescanned t roots events i dir →
    t₀.ReachableDir root dir → masters t₀ dir ≠ [] → Swept t roots events i dir
  /-- What is reconciled is reached from the root. -/
  reached : ∀ dir, Rescanned t roots events i dir → ¬ t.ReachableDir root dir →
    masters t dir = []

section Covers
variable {t₀ t : FileTree} {roots : List (Library × Path)} {events : List Event} {i : Nat}
  {root : Path} {dirty : List Dirty}

/-- The walks of the directories that pruning keeps visit what is found beneath those that no
other covers. -/
theorem refreshed_iff_rescanned
    (hdirty : ∀ d, d ∈ dirty ↔ ∃ event ∈ events, d ∈ dirtyDirectories event roots) {dir : Path} :
    Refreshed t dirty i dir ↔ Rescanned t roots events i dir := by
  unfold Refreshed Visited Rescanned
  refine and_congr_left fun _ => ?_
  simp only [mem_pruneNested_iff, uncovered_iff hdirty, FileTree.mem_walkDir_iff]
  constructor
  · rintro ⟨⟨j, p⟩, huncov, rfl, hfound⟩
    exact ⟨p, huncov, hfound⟩
  · rintro ⟨p, huncov, hfound⟩
    exact ⟨(i, p), huncov, rfl, hfound⟩

/-- Beneath the root, which is a directory, rows are removed up to case. -/
theorem rowsRemoved_iff_swept {library : Library} (hroots : roots[i]? = some (library, root))
    (hnode : t.isDir root = true)
    (hdirty : ∀ d, d ∈ dirty ↔ ∃ event ∈ events, d ∈ dirtyDirectories event roots) {dir : Path}
    (hdir : root <+: dir) : RowsRemoved t dirty i root dir ↔ Swept t roots events i dir := by
  have htree : ∀ p, Candidate roots events (i, p) → t.isDir p = false →
      (Index.inTree (relativeOf p root) (relativeOf dir root) = true ↔ InTreeUpToCase p dir) := by
    rintro p ⟨-, -, -, -, -, -, -, howning⟩ hgone
    refine inTree_relativeOf_iff (prefix_of_owningRoot hroots howning) ?_ hdir
    rintro rfl
    rw [hnode] at hgone
    cases hgone
  unfold RowsRemoved Swept vanishedDirty
  constructor
  · rintro ⟨⟨j, p⟩, hvanished, rfl, hin⟩
    obtain ⟨hmem, hgone⟩ := List.mem_filter.mp hvanished
    have hcandidate := (mem_dirty_iff_candidate hdirty).mp hmem
    have hgone : t.isDir p = false := by simpa using hgone
    exact ⟨p, hcandidate, hgone, (htree p hcandidate hgone).mp hin⟩
  · rintro ⟨p, hcandidate, hgone, hin⟩
    refine ⟨(i, p), List.mem_filter.mpr ⟨(mem_dirty_iff_candidate hdirty).mpr hcandidate, ?_⟩, rfl,
      (htree p hcandidate hgone).mpr hin⟩
    rw [hgone]
    rfl

/-- What a flush lists is what a full scan lists exactly if the events cover what changed. -/
theorem flushed_eq_iff :
    {p : Video | (Rescanned t roots events i p.1 ∧ p.2 ∈ masters t p.1) ∨
        (¬ Rescanned t roots events i p.1 ∧ p ∈ videosOf t₀ root ∧
          ¬ Swept t roots events i p.1)} = videosOf t root ↔
      FlushCovers t₀ t roots events i root := by
  constructor
  · intro h
    have hmem : ∀ p : Video, p ∈ videosOf t root ↔
        (Rescanned t roots events i p.1 ∧ p.2 ∈ masters t p.1) ∨
          (¬ Rescanned t roots events i p.1 ∧ p ∈ videosOf t₀ root ∧
            ¬ Swept t roots events i p.1) := by
      intro p
      rw [← h]
      rfl
    refine ⟨?_, ?_, ?_⟩
    · intro dir hdir hnot video
      have hp := hmem (dir, video)
      simp only [videosOf, Set.mem_ofPred_eq, hdir, hnot, true_and, false_and, not_false_eq_true,
        false_or] at hp
      exact hp
    · intro dir hdir hnot hdir₀ hmasters
      by_contra hkept
      obtain ⟨video, hvideo⟩ := List.exists_mem_of_ne_nil _ hmasters
      exact hdir ((hmem (dir, video)).mpr (Or.inr ⟨hnot, ⟨hdir₀, hvideo⟩, hkept⟩)).1
    · intro dir hrescanned hdir
      refine List.eq_nil_iff_forall_not_mem.mpr fun video hvideo => ?_
      exact hdir ((hmem (dir, video)).mpr (Or.inl ⟨hrescanned, hvideo⟩)).1
  · intro h
    ext p
    obtain ⟨dir, video⟩ := p
    simp only [videosOf, Set.mem_ofPred_eq]
    by_cases hrescanned : Rescanned t roots events i dir
    · constructor
      · rintro (⟨-, hvideo⟩ | ⟨hnot, -⟩)
        · refine ⟨?_, hvideo⟩
          by_contra hdir
          rw [h.reached dir hrescanned hdir] at hvideo
          cases hvideo
        · exact absurd hrescanned hnot
      · rintro ⟨-, hvideo⟩
        exact Or.inl ⟨hrescanned, hvideo⟩
    · by_cases hdir : t.ReachableDir root dir
      · rw [h.kept dir hdir hrescanned video]
        simp [hrescanned, hdir]
      · constructor
        · rintro (⟨hyes, -⟩ | ⟨-, ⟨hdir₀, hvideo⟩, hkept⟩)
          · exact absurd hyes hrescanned
          · exact absurd (h.gone dir hdir hrescanned hdir₀ (List.ne_nil_of_mem hvideo)) hkept
        · rintro ⟨hyes, -⟩
          exact absurd hyes hdir

end Covers

/-- After the operations and their flush the library's rows are those of a full scan exactly if
the events cover what changed. -/
theorem flush_refines_iff {decoders : Decoders} {roots : List (Library × Path)} {i : Nat}
    {library : Library} {root : Path} {t₀ : FileTree} {ops : List TreeOp} {index : Index}
    {dirty : List Dirty} (hroots : roots[i]? = some (library, root))
    (hnames : (roots.map fun r => r.1.name).Nodup)
    (hpersists : (TreeOp.perform t₀ ops).1.canonicalize library.path = some root)
    (hnode : (TreeOp.perform t₀ ops).1.isDir root = true)
    (hagrees : Lists index library.name root (videosOf t₀ root))
    (hdirty : ∀ d, d ∈ dirty ↔
      ∃ event ∈ (TreeOp.perform t₀ ops).2, d ∈ dirtyDirectories event roots) :
    Lists (flush decoders Faults.none (.still (TreeOp.perform t₀ ops).1) roots dirty index)
        library.name root (videosOf (TreeOp.perform t₀ ops).1 root) ↔
      FlushCovers t₀ (TreeOp.perform t₀ ops).1 roots (TreeOp.perform t₀ ops).2 i root := by
  generalize TreeOp.perform t₀ ops = performed at *
  obtain ⟨t, events⟩ := performed
  dsimp only at *
  have hunder : ∀ d ∈ dirty, d.1 = i → root <+: d.2 := by
    rintro ⟨j, p⟩ hd rfl
    obtain ⟨-, -, -, -, -, -, -, howning⟩ := (mem_dirty_iff_candidate hdirty).mp hd
    exact prefix_of_owningRoot hroots howning
  have hflush := hagrees.flush decoders hroots hnames hpersists hnode hunder
  have hset : {p : Video | (Refreshed t dirty i p.1 ∧ p.2 ∈ masters t p.1) ∨
        (¬ Refreshed t dirty i p.1 ∧ p ∈ videosOf t₀ root ∧ ¬ RowsRemoved t dirty i root p.1)} =
      {p : Video | (Rescanned t roots events i p.1 ∧ p.2 ∈ masters t p.1) ∨
        (¬ Rescanned t roots events i p.1 ∧ p ∈ videosOf t₀ root ∧
          ¬ Swept t roots events i p.1)} := by
    ext p
    simp only [Set.mem_ofPred_eq, refreshed_iff_rescanned hdirty]
    refine or_congr_right (and_congr_right fun _ => and_congr_right fun hp => not_congr ?_)
    exact rowsRemoved_iff_swept hroots hnode hdirty (FileTree.reachableDir_iff.mp hp.1).1
  rw [hset] at hflush
  rw [← flushed_eq_iff]
  constructor
  · intro h
    exact hflush.unique h
  · intro h
    rw [← h]
    exact hflush

/-! ## A directory that takes the place of another -/

namespace Replaced

open OneVideo (lib library decoders)

def shows : FileName := ⟨"A", by decide⟩

def season : FileName := ⟨"x", by decide⟩

def episode : FileName := ⟨"ep.mp4", by decide⟩

/-- The directory `A` holds a season; `C` is empty. -/
def tree : FileTree :=
  .ofNodes [([], .dir), ([lib], .dir), ([lib, shows], .dir), ([lib, shows, season], .dir),
    ([lib, shows, season, episode], .file ⟨[1, 2, 3], 5⟩), ([lib, ⟨"C", by decide⟩], .dir)]
    (by decide) (by decide)

def roots : List (Library × Path) := [(library, [lib])]

/-- `A` moves away and `C` takes its place. -/
def ops : List TreeOp :=
  [.rename [lib, shows] [lib, ⟨"B", by decide⟩], .rename [lib, ⟨"C", by decide⟩] [lib, shows]]

def index : Index := (scanAll decoders Faults.none (fun _ => .still tree) [library] .openInMemory).1

def dirty : List Dirty :=
  (TreeOp.perform tree ops).2.flatMap fun event => dirtyDirectories event roots

theorem lists_index : Lists index library.name [lib] (videosOf tree [lib]) := by
  have hscan : scanAll decoders Faults.none (fun _ => .still tree) [library] .openInMemory =
      (index, .ok { directories := 4, videos := 1, removed := 0 }) := by decide
  exact lists_scanAll (by decide) (fun r hr => absurd hr (Lib.Table.not_mem_empty r))
    Index.stampsBelow_openInMemory Index.hasRoom_openInMemory hscan List.mem_cons_self (by decide)

/-- The rows beneath `A` outlive the directories they name. -/
theorem flush_misses_replaced :
    ¬ ∀ (decoders : Decoders) (roots : List (Library × Path)) (i : Nat) (library : Library)
      (root : Path) (t₀ : FileTree) (ops : List TreeOp) (index : Index) (dirty : List Dirty),
      roots[i]? = some (library, root) → (roots.map fun r => r.1.name).Nodup →
      (TreeOp.perform t₀ ops).1.canonicalize library.path = some root →
      (TreeOp.perform t₀ ops).1.isDir root = true →
      Lists index library.name root (videosOf t₀ root) →
      (∀ d, d ∈ dirty ↔ ∃ event ∈ (TreeOp.perform t₀ ops).2, d ∈ dirtyDirectories event roots) →
      Lists (flush decoders Faults.none (.still (TreeOp.perform t₀ ops).1) roots dirty index)
        library.name root (videosOf (TreeOp.perform t₀ ops).1 root) := by
  intro h
  have hlists := h decoders roots 0 library [lib] tree ops index dirty rfl (by decide) (by decide)
    (by decide) lists_index fun d => List.mem_flatMap
  have hrow : ∃ row ∈ (flush decoders Faults.none (.still (TreeOp.perform tree ops).1) roots dirty
      index).videos.rows, row.record.library = library.name ∧
        row.record.relPath = Path.relText ([shows, season] ++ [episode]) := by decide
  obtain ⟨row, hmem, hlib, hrel⟩ := hrow
  obtain ⟨p, hp, hpath, -⟩ := hlists.sound row hmem hlib
  have hfile := relativeOf_eq_relText (hpath.symm.trans hrel)
  rw [← List.append_assoc] at hfile
  have hdir := (List.append_inj' hfile rfl).1
  -- the season is no directory any more
  have hgone : (TreeOp.perform tree ops).1.node ([lib] ++ [shows, season]) = none := by decide
  have hreached := (FileTree.reachableDir_iff.mp hp.1).2
  rw [hdir, hgone] at hreached
  cases hreached

theorem flush_refines_iff_replaced :
    Lists (flush decoders Faults.none (.still (TreeOp.perform tree ops).1) roots dirty index)
        library.name [lib] (videosOf (TreeOp.perform tree ops).1 [lib]) ↔
      FlushCovers tree (TreeOp.perform tree ops).1 roots (TreeOp.perform tree ops).2 0 [lib] :=
  flush_refines_iff (by decide) (by decide) (by decide) (by decide) lists_index
    fun _ => List.mem_flatMap

end Replaced

end Loku
