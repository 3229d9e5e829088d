import Loku.Index.CaseFold
import Loku.Index.ScanAll
import Loku.System.Undeterminable

/-!
# Scanning again

`Steady` says that a tree has nothing to tell the index: writing a master's record over its row
changes nothing, and no other row of a configured library is there. One completed scan makes the
index steady. While no file changes it stays so, whatever is scanned, flushed, probed or recorded:
a scan, complete or cut short, changes no record, and a probe pass only fills in codec facts that
were missing, which every later scan keeps (`rescan_unchanged`).
-/

namespace Loku

/-! ## Filling in -/

theorem Index.written_withProbe {record old : VideoRecord} (probe : ProbeResult)
    (h : Index.written record (some old) = old) (hfacts : old.codecSource = none) :
    Index.written record (some (Index.withProbe probe old)) = Index.withProbe probe old := by
  have hsize : record.size = old.size := (congrArg VideoRecord.size h :)
  have hmtime : record.mtime = old.mtime := (congrArg VideoRecord.mtime h :)
  have hsource : record.codecSource = none := by
    have heq : Index.keepCodec (Index.stored record) old VideoRecord.codecSource = none :=
      (congrArg VideoRecord.codecSource h).trans hfacts
    unfold Index.keepCodec at heq
    split at heq
    · exact heq
    · rename_i hnone
      exact Option.not_isSome_iff_eq_none.mp hnone
  calc Index.written record (some (Index.withProbe probe old))
      = Index.withProbe probe (Index.written record (some old)) := by
        unfold Index.written Index.conflictUpdate Index.withProbe Index.keepDuration
          Index.keepCodec Index.unchanged Index.stored
        cases hduration : Index.sqlReal record.durationSecs <;>
          simp [hsize, hmtime, hsource]
    _ = Index.withProbe probe old := by rw [h]

/-- No record has changed, but for codec facts where there were none. -/
def FilledIn (before after : Index) : Prop :=
  ∀ k, after.recordAt k = before.recordAt k ∨
    ∃ r probe, before.recordAt k = some r ∧ r.codecSource = none ∧
      after.recordAt k = some (Index.withProbe probe r)

namespace FilledIn

variable {before between after : Index}

theorem of_eq (h : ∀ k, after.recordAt k = before.recordAt k) : FilledIn before after :=
  fun k => Or.inl (h k)

theorem trans (h : FilledIn before between) (h' : FilledIn between after) :
    FilledIn before after := by
  intro k
  rcases h' k with hsame | ⟨r, probe, hr, hfacts, hafter⟩
  · rw [hsame]
    exact h k
  · rcases h k with hsame | ⟨r₀, probe₀, -, -, hbetween⟩
    · exact Or.inr ⟨r, probe, hsame ▸ hr, hfacts, hafter⟩
    · -- what is filled in has its facts
      rw [hbetween] at hr
      cases hr
      cases hfacts

end FilledIn

section Pass
variable {faults : Faults} {runner : ProbeRunner} {libraries : List Library}

/-- What resolving a candidate does to the record of a key. -/
theorem recordAt_probeCandidate_cases (index : Index) (candidate : ProbeCandidate) (k : RowKey) :
    (probeCandidate faults runner libraries index candidate).1.recordAt k = index.recordAt k ∨
      candidate.key = k ∧ ∃ r probe, index.recordAt k = some r ∧
        (probeCandidate faults runner libraries index candidate).1.recordAt k =
          some (Index.withProbe probe r) := by
  rcases probeCandidate_cases faults runner libraries index candidate with hsame |
      ⟨probe, hrecord, -⟩
  · rw [hsame]
    exact Or.inl rfl
  · rw [hrecord]
    unfold Index.recordAt
    rw [Index.find?_recordProbe]
    by_cases hk : candidate.key = k
    · cases hrow : index.videos.find? k with
      | none => exact Or.inl rfl
      | some row =>
        refine Or.inr ⟨hk, row.record, probe, rfl, ?_⟩
        simp [hk]
    · left
      simp [Ne.symm hk]

theorem recordAt_foldl_probeStep_cases :
    ∀ (candidates : List ProbeCandidate) (acc : Index × Nat) (k : RowKey),
      (candidates.map ProbeCandidate.key).Nodup →
      (candidates.foldl (probeStep faults runner libraries) acc).1.recordAt k =
          acc.1.recordAt k ∨
        ∃ candidate ∈ candidates, candidate.key = k ∧ ∃ r probe, acc.1.recordAt k = some r ∧
          (candidates.foldl (probeStep faults runner libraries) acc).1.recordAt k =
            some (Index.withProbe probe r)
  | [], _, _, _ => Or.inl rfl
  | c :: candidates, acc, k, hnodup => by
    rw [List.map_cons, List.nodup_cons] at hnodup
    have hrest := recordAt_foldl_probeStep_cases candidates
      (probeStep faults runner libraries acc c) k hnodup.2
    rw [List.foldl_cons]
    rcases recordAt_probeCandidate_cases acc.1 c k with hsame | ⟨hk, r, probe, hr, hfilled⟩
    · have hstep : (probeStep faults runner libraries acc c).1.recordAt k = acc.1.recordAt k :=
        hsame
      rw [hstep] at hrest
      refine hrest.imp_right ?_
      rintro ⟨c', hc', hrest⟩
      exact ⟨c', List.mem_cons_of_mem _ hc', hrest⟩
    · -- the later candidates have other keys
      refine Or.inr ⟨c, List.mem_cons_self, hk, r, probe, hr, ?_⟩
      rcases hrest with hsame | ⟨c', hc', hk', -⟩
      · exact hsame.trans hfilled
      · exact absurd (List.mem_map_of_mem hc') (hk'.trans hk.symm ▸ hnodup.1)

/-- A probe pass with any answers and refusals. -/
theorem filledIn_probePending (index : Index) :
    FilledIn index (probePending faults runner libraries index).1 := by
  unfold probePending
  split
  · exact .of_eq fun _ => rfl
  · intro k
    refine (recordAt_foldl_probeStep_cases index.videosNeedingProbe (index, 0) k
      (nodup_videosNeedingProbe index)).imp_right ?_
    rintro ⟨candidate, hcandidate, hk, r, probe, hr, hfilled⟩
    refine ⟨r, probe, hr, ?_, hfilled⟩
    obtain ⟨row, hrow, hfacts, rfl⟩ := mem_videosNeedingProbe.mp hcandidate
    have hkey : row.key = k := hk
    have hrecord := Index.recordAt_of_find? (Lib.Table.find?_key hrow)
    rw [hkey] at hrecord
    cases hrecord.symm.trans hr
    exact hfacts

end Pass

/-! ## Steady -/

/-- The tree has nothing to tell the index about these libraries. -/
structure Steady (decoders : Decoders) (t : FileTree) (libraries : List Library)
    (index : Index) : Prop where
  master : ∀ library ∈ libraries, ∀ record, MasterRecord decoders t library record →
    ∃ old, index.recordAt record.key = some old ∧ Index.written record (some old) = old
  absent : ∀ library ∈ libraries, ∀ k : RowKey, k.1 = library.name →
    (∀ record, MasterRecord decoders t library record → record.key ≠ k) →
    index.recordAt k = none

/-- A candidate that stands for no change: a directory that is found where it was, or a path at
which no directory is, with none of the library's at or beneath it up to letter case. -/
inductive Idle (t : FileTree) (watched root p : Path) : Prop
  | dir (hreached : t.ReachableDir root p)
  | leaf (hnotDir : t.isDir p = false) (hwatched : watched = root) (hunder : root <+: p)
      (halone : ∀ dir, t.ReachableDir root dir → ¬ InTreeUpToCase p dir)

theorem Idle.reachable {t : FileTree} {watched root p : Path} (h : Idle t watched root p)
    (hdir : t.isDir p = true) : t.ReachableDir root p := by
  cases h with
  | dir hreached => exact hreached
  | leaf hnotDir => exact absurd (hdir.symm.trans hnotDir) (by decide)

theorem Idle.alone {t : FileTree} {watched root p : Path} (h : Idle t watched root p)
    (hnotDir : t.isDir p = false) : watched = root ∧ root <+: p ∧
      ∀ dir, t.ReachableDir root dir → ¬ InTreeUpToCase p dir := by
  cases h with
  | dir hreached =>
    have hdir := FileTree.isDir_of_node (FileTree.reachableDir_iff.mp hreached).2
    exact absurd (hdir.symm.trans hnotDir) (by decide)
  | leaf _ hwatched hunder halone => exact ⟨hwatched, hunder, halone⟩

section Steady
variable {decoders : Decoders} {faults : Faults} {t : FileTree} {libraries : List Library}
  {library : Library} {root dir : Path} {index index' : Index} {generation : Int}

theorem rowsSatisfy_of_reachable {P : VideoRecord → Prop} (hP : RowProperty decoders P)
    (hreach : ReachableIndex decoders index) : RowsSatisfy P index := by
  unfold ReachableIndex at hreach
  induction hreach with
  | refl => exact fun r hr => (by cases hr)
  | tail _ hw ih =>
    rcases hw.1 with hw | hw
    · exact ih.maintenanceWrite hP hw
    · exact ih.workerWrite hP hw

/-- A completed scan of a tree that does not change meanwhile. -/
theorem steady_scanAll {stats : ScanStats} (hnames : (libraries.map Library.name).Nodup)
    (hreach : ReachableIndex decoders index)
    (hscan : scanAll decoders faults (fun _ => .still t) libraries index = (index', .ok stats)) :
    Steady decoders t libraries index' := by
  obtain ⟨hrecords, -⟩ := recordAt_scanAll hnames
    (rowsSatisfy_of_reachable (wellPlaced_rowProperty decoders) hreach)
    (stampsBelow_of_reachable hreach) (hasRoom_of_reachable hreach) hscan
  refine ⟨fun library hlibrary record hrecord => ?_,
    fun library hlibrary => (hrecords library hlibrary).absent⟩
  refine ⟨_, (hrecords library hlibrary).master record hrecord, ?_⟩
  exact Index.written_written record _ fun o ho => Index.recordAt_key ho

namespace Steady

theorem filledIn (h : Steady decoders t libraries index) (hfilled : FilledIn index index') :
    Steady decoders t libraries index' where
  master library hlibrary record hrecord := by
    obtain ⟨old, hold, hwritten⟩ := h.master library hlibrary record hrecord
    rcases hfilled record.key with hsame | ⟨r, probe, hr, hfacts, hafter⟩
    · exact ⟨old, hsame.trans hold, hwritten⟩
    · cases hold.symm.trans hr
      exact ⟨_, hafter, Index.written_withProbe probe hwritten hfacts⟩
  absent library hlibrary k hk hnone := by
    have habsent := h.absent library hlibrary k hk hnone
    rcases hfilled k with hsame | ⟨r, probe, hr, -⟩
    · exact hsame.trans habsent
    · cases habsent.symm.trans hr

/-- A record that is there is a master's. -/
theorem exists_masterRecord (h : Steady decoders t libraries index) (hlibrary : library ∈ libraries)
    {k : RowKey} (hk : k.1 = library.name) {r : VideoRecord} (hr : index.recordAt k = some r) :
    ∃ record, MasterRecord decoders t library record ∧ record.key = k ∧
      Index.written record (some r) = r := by
  by_contra hnone
  push Not at hnone
  have habsent : index.recordAt k = none := by
    refine h.absent library hlibrary k hk fun record hrecord hkey => ?_
    obtain ⟨old, hold, hwritten⟩ := h.master library hlibrary record hrecord
    rw [hkey, hr] at hold
    cases hold
    exact hnone record hrecord hkey hwritten
  cases habsent.symm.trans hr

/-- Reconciling a directory that the walk reaches. -/
theorem recordAt_reconcileDirectory (h : Steady decoders t libraries index)
    (hlibrary : library ∈ libraries) (hroot : t.canonicalize library.path = some root)
    (hdir : t.ReachableDir root dir)
    (hok : index.reconcileDirectory library.name (relativeOf dir root)
      (collectDirectory decoders t library root dir) generation = .ok index') (k : RowKey) :
    index'.recordAt k = index.recordAt k := by
  have hbeneath := (FileTree.reachableDir_iff.mp hdir).1
  have hrecords := directoryRecords_collectDirectory decoders t library hbeneath
  by_cases hmem : ∃ record ∈ collectDirectory decoders t library root dir, record.key = k
  · obtain ⟨record, hrecord, rfl⟩ := hmem
    obtain ⟨old, hold, hwritten⟩ :=
      h.master library hlibrary record ⟨root, hroot, dir, hdir, hrecord⟩
    obtain ⟨id, hfind, -⟩ := Index.find?_reconcileDirectory_of_mem hrecords hok hrecord
    rw [Index.recordAt_of_find? hfind, hold, hwritten]
  · push Not at hmem
    by_cases hk : k.1 = library.name
    · -- the row of another master has another parent
      refine recordAt_congr
        (Index.find?_reconcileDirectory_of_parent_ne hrecords.library_eq hok hmem ?_)
      intro row hrow hparent
      obtain ⟨record, ⟨root', hroot', dir', hdir', hrecord⟩, hkey, hwritten⟩ :=
        h.exists_masterRecord hlibrary hk (Index.recordAt_of_find? hrow)
      cases hroot.symm.trans hroot'
      have hbeneath' := (FileTree.reachableDir_iff.mp hdir').1
      have hsame : row.record.parent = record.parent :=
        (congrArg VideoRecord.parent hwritten.symm :)
      rw [hsame, parent_of_mem_collect hrecord] at hparent
      cases (relativeOf_inj hbeneath' hbeneath).mp hparent
      exact hmem record hrecord hkey
    · exact recordAt_congr (Index.find?_reconcileDirectory_other hrecords.library_eq hok hk)

theorem recordAt_scanDirectories (hlibrary : library ∈ libraries)
    (hroot : t.canonicalize library.path = some root) :
    ∀ (dirs : List Path) (index : Index) (stats : ScanStats),
      (∀ dir ∈ dirs, t.ReachableDir root dir) → Steady decoders t libraries index →
      ∀ k, (scanDirectories decoders faults (.still t) library root generation dirs index
        stats).1.recordAt k = index.recordAt k
  | [], _, _, _, _, _ => rfl
  | dir :: dirs, index, stats, hdirs, h, k => by
    unfold scanDirectories
    dsimp only
    split
    · rfl
    · rename_i index' hcall
      have hsame := h.recordAt_reconcileDirectory hlibrary hroot (hdirs dir List.mem_cons_self)
        (callIndex_ok_iff.mp hcall).2
      rw [recordAt_scanDirectories hlibrary hroot dirs index' _
        (fun dir' hdir' => hdirs dir' (List.mem_cons_of_mem _ hdir'))
        (h.filledIn (.of_eq hsame)) k, hsame k]

/-- The sweep finds nothing: the walk has stamped every row of the library. -/
theorem recordAt_removeUnseen {before : Index} (h : Steady decoders t libraries index)
    (hlibrary : library ∈ libraries) (hroot : t.canonicalize library.path = some root)
    (hscanned : Scanned decoders (fun _ => t) library root generation before (t.walkDir root)
      index) (k : RowKey) :
    (index.removeUnseen library.name generation).1.recordAt k = index.recordAt k := by
  refine recordAt_congr ?_
  by_cases hk : k.1 = library.name
  · rw [Index.find?_removeUnseen]
    cases hrow : index.videos.find? k with
    | none => rfl
    | some row =>
      obtain ⟨record, ⟨root', hroot', dir, hdir, hrecord⟩, hkey, -⟩ :=
        h.exists_masterRecord hlibrary hk (Index.recordAt_of_find? hrow)
      cases hroot.symm.trans hroot'
      have hwalk := (FileTree.mem_walkDir_iff_reachable
        (FileTree.plain_of_canonicalize hroot)).mpr hdir
      obtain ⟨row', -, hrow', hstamp, -⟩ := hscanned.fresh record ⟨dir, hwalk, hrecord⟩
      rw [hkey, hrow] at hrow'
      cases hrow'
      rw [Option.filter_some, if_pos]
      simp [hstamp]
  · exact find?_removeUnseen_other hk

theorem recordAt_scanLibrary (h : Steady decoders t libraries index)
    (hlibrary : library ∈ libraries) (k : RowKey) :
    (scanLibrary decoders faults (.still t) library generation index).1.recordAt k =
      index.recordAt k := by
  unfold scanLibrary
  split
  · rfl
  · rename_i root hroot
    have hroot : t.canonicalize library.path = some root := hroot
    have hreached : ∀ dir ∈ t.walkDir root, t.ReachableDir root dir := fun dir hdir =>
      (FileTree.mem_walkDir_iff_reachable (FileTree.plain_of_canonicalize hroot)).mp hdir
    have hdirs : ∀ k, (scanDirectories decoders faults (.still t) library root generation
        (t.walkDir root) index {}).1.recordAt k = index.recordAt k :=
      recordAt_scanDirectories hlibrary hroot _ _ _ hreached h
    have hwalk : (Disk.still t).walk.walkDir root = t.walkDir root := rfl
    rw [hwalk]
    split
    · rename_i hscan
      rw [hscan] at hdirs
      exact hdirs k
    · rename_i scanned stats hscan
      rw [hscan] at hdirs
      split
      · exact hdirs k
      · have hscanned := scanDirectories_scanned index _ [] index scanned {} stats (.nil index)
          (by simp) (fun d hd => FileTree.prefix_of_mem_walkDir hd) hscan
        exact ((h.filledIn (.of_eq hdirs)).recordAt_removeUnseen hlibrary hroot hscanned k).trans
          (hdirs k)

theorem recordAt_scanLibraries :
    ∀ (scans : List Library) (index : Index) (stats : ScanStats),
      scans ⊆ libraries → Steady decoders t libraries index →
      ∀ k, (scanLibraries decoders faults (fun _ => .still t) generation scans index
        stats).1.recordAt k = index.recordAt k
  | [], _, _, _, _, _ => rfl
  | library :: scans, index, stats, hscans, h, k => by
    have hlibrary : library ∈ libraries := hscans List.mem_cons_self
    have hsame : ∀ k, (scanLibrary decoders faults (.still t) library generation
        index).1.recordAt k = index.recordAt k := h.recordAt_scanLibrary hlibrary
    unfold scanLibraries
    split
    · rename_i hscan
      rw [hscan] at hsame
      exact hsame k
    · rename_i scanned libraryStats hscan
      rw [hscan] at hsame
      rw [recordAt_scanLibraries scans scanned _ (fun l hl => hscans (List.mem_cons_of_mem _ hl))
        (h.filledIn (.of_eq hsame)) k]
      exact hsame k

/-- A scan, complete or cut short at any of its calls. -/
theorem recordAt_scanAll_again (h : Steady decoders t libraries index) (k : RowKey) :
    (scanAll decoders faults (fun _ => .still t) libraries index).1.recordAt k =
      index.recordAt k := by
  unfold scanAll
  split
  · rfl
  · obtain ⟨started, generation, hnext⟩ : ∃ started generation,
        index.nextGeneration = (started, generation) := ⟨_, _, rfl⟩
    rw [hnext]
    dsimp only
    have hstart : ∀ k, started.recordAt k = index.recordAt k := fun k =>
      recordAt_congr (by rw [(Index.nextGeneration_spec hnext).2.2.1])
    have hsame : (scanLibraries decoders faults (fun _ => .still t) generation libraries started
        {}).1.recordAt k = started.recordAt k :=
      recordAt_scanLibraries libraries started {} (List.Subset.refl _)
        (h.filledIn (.of_eq hstart)) k
    split
    · rename_i hscan
      rw [hscan] at hsame
      exact hsame.trans (hstart k)
    · rename_i hscan
      rw [hscan] at hsame
      split <;> exact hsame.trans (hstart k)

theorem recordAt_reconcileLive {roots : List (Library × Path)} {d : Dirty} {watched : Path}
    (h : Steady decoders t libraries index) (hroots : roots[d.1]? = some (library, watched))
    (hlibrary : library ∈ libraries) (hroot : t.canonicalize library.path = some root)
    (hreached : t.ReachableDir root d.2) (k : RowKey) :
    (reconcileLive decoders faults (.still t) roots generation index d).recordAt k =
      index.recordAt k := by
  have hbelow : ∀ dir ∈ t.walkDir d.2, t.ReachableDir root dir := by
    intro dir hdir
    obtain ⟨hbeneath, hnode⟩ := FileTree.reachableDir_iff.mp hreached
    obtain ⟨hd, hdirNode⟩ := (FileTree.mem_walkDir hnode).mp hdir
    exact FileTree.reachableDir_iff.mpr ⟨hbeneath.trans hd, hdirNode⟩
  unfold reconcileLive
  rw [hroots]
  refine List.foldlRecOn (t.walkDir d.2) _
    (motive := fun index' : Index => ∀ k, index'.recordAt k = index.recordAt k) (fun _ => rfl) ?_ k
  intro index' hindex' dir hdir
  unfold reconcileOrSkip reconcileDirectory
  split
  · rename_i index'' hreconcile
    split at hreconcile
    · cases hreconcile
    · rename_i root' hroot'
      cases hroot.symm.trans hroot'
      have hsame := (h.filledIn (.of_eq hindex')).recordAt_reconcileDirectory hlibrary hroot
        (hbelow dir hdir) (callIndex_ok_iff.mp hreconcile).2
      exact fun k => (hsame k).trans (hindex' k)
  · exact hindex'

/-- No row lies in the tree of such a path. -/
theorem recordAt_removeVanished {roots : List (Library × Path)} {d : Dirty} {watched : Path}
    (h : Steady decoders t libraries index) (hroots : roots[d.1]? = some (library, watched))
    (hlibrary : library ∈ libraries) (hroot : t.canonicalize library.path = some root)
    (hidle : Idle t watched root d.2) (hnotDir : t.isDir d.2 = false) (k : RowKey) :
    (removeVanished faults roots index d).recordAt k = index.recordAt k := by
  obtain ⟨rfl, hunder, halone⟩ := hidle.alone hnotDir
  unfold removeVanished
  rw [hroots]
  dsimp only
  split
  · rfl
  refine recordAt_congr ?_
  rw [Index.find?_removeTree]
  cases hrow : index.videos.find? k with
  | none => rfl
  | some row =>
    rw [Option.filter_some]
    refine if_pos ?_
    by_cases hk : row.record.library = library.name
    · have hkey := (Lib.Table.find?_eq_some_iff.mp hrow).2
      have hlib : k.1 = library.name := (congrArg Prod.fst hkey).symm.trans hk
      obtain ⟨record, ⟨root', hroot', dir, hdir, hrecord⟩, -, hwritten⟩ :=
        h.exists_masterRecord hlibrary hlib (Index.recordAt_of_find? hrow)
      cases hroot.symm.trans hroot'
      obtain ⟨hbeneath, hnode⟩ := FileTree.reachableDir_iff.mp hdir
      have hsame : row.record.parent = record.parent :=
        (congrArg VideoRecord.parent hwritten.symm :)
      have hparent := hsame.trans (parent_of_mem_collect hrecord)
      have hne : d.2 ≠ watched := by
        intro heq
        have hrootNode := (Lib.PathTree.node_of_prefix hbeneath hnode).elim id And.right
        rw [heq, FileTree.isDir_of_node hrootNode] at hnotDir
        cases hnotDir
      have houtside : Index.inTree (relativeOf d.2 watched) row.record.parent = false := by
        rw [hparent, Bool.eq_false_iff]
        exact fun htree => halone dir hdir ((inTree_relativeOf_iff hunder hne hbeneath).mp htree)
      rw [houtside, Bool.and_false]
      rfl
    · rw [beq_false_of_ne hk]
      rfl

/-- A flush of candidates that stand for no change. -/
theorem recordAt_flush {roots : List (Library × Path)} {dirty : List Dirty}
    (h : Steady decoders t libraries index)
    (hdirty : ∀ d ∈ dirty, ∃ library watched root, roots[d.1]? = some (library, watched) ∧
      library ∈ libraries ∧ t.canonicalize library.path = some root ∧ Idle t watched root d.2)
    (k : RowKey) :
    (flush decoders faults (.still t) roots dirty index).recordAt k = index.recordAt k := by
  unfold flush
  split
  · rfl
  · dsimp only
    have hremoved : ∀ k, (List.foldl (removeVanished faults roots) index
        (pruneNested (dirty.filter fun d => !t.isDir d.2))).recordAt k = index.recordAt k := by
      refine List.foldlRecOn _ _
        (motive := fun index' : Index => ∀ k, index'.recordAt k = index.recordAt k)
        (fun _ => rfl) ?_
      intro index' hindex' d hd
      obtain ⟨hmem, hgone⟩ := List.mem_filter.mp (mem_of_mem_pruneNested hd)
      obtain ⟨library, watched, root, hroots, hlibrary, hroot, hidle⟩ := hdirty d hmem
      have hsame : ∀ k, (removeVanished faults roots index' d).recordAt k = index'.recordAt k :=
        (h.filledIn (.of_eq hindex')).recordAt_removeVanished hroots hlibrary hroot hidle
          (Bool.not_eq_true' _ |>.mp hgone)
      exact fun k => (hsame k).trans (hindex' k)
    change (List.foldl _ (List.foldl (removeVanished faults roots) index _) _).recordAt k = _
    refine List.foldlRecOn _ _
      (motive := fun index' : Index => ∀ k, index'.recordAt k = index.recordAt k)
      hremoved ?_ k
    intro index' hindex' d hd
    obtain ⟨hmem, hlive⟩ := List.mem_filter.mp (mem_of_mem_pruneNested hd)
    obtain ⟨library, watched, root, hroots, hlibrary, hroot, hidle⟩ := hdirty d hmem
    have hsame : ∀ k, (reconcileLive decoders faults (.still t) roots index.currentGeneration
        index' d).recordAt k = index'.recordAt k :=
      (h.filledIn (.of_eq hindex')).recordAt_reconcileLive hroots hlibrary hroot
        (hidle.reachable hlive)
    exact fun k => (hsame k).trans (hindex' k)

end Steady

end Steady

/-! ## While no file changes -/

/-- What the program does while no file changes. The scan may be cut short at any call, and any
call of the flush and of the pass may be refused. -/
inductive QuietStep (decoders : Decoders) (t : FileTree) (libraries : List Library) :
    Index → Index → Prop
  | scan (faults : Faults) (index : Index) :
      QuietStep decoders t libraries index
        (scanAll decoders faults (fun _ => .still t) libraries index).1
  /-- A flush for events that changed nothing. -/
  | flush (faults : Faults) (roots : List (Library × Path)) (dirty : List Dirty) (index : Index)
      (hdirty : ∀ d ∈ dirty, ∃ library watched root, roots[d.1]? = some (library, watched) ∧
        library ∈ libraries ∧ t.canonicalize library.path = some root ∧ Idle t watched root d.2) :
      QuietStep decoders t libraries index (flush decoders faults (.still t) roots dirty index)
  | probePending (faults : Faults) (runner : ProbeRunner) (index : Index) :
      QuietStep decoders t libraries index (probePending faults runner libraries index).1
  | recordDerivationFailure (index : Index) (library relPath : String) (size mtime : Int)
      (error : String) :
      QuietStep decoders t libraries index
        (index.recordDerivationFailure library relPath size mtime error)
  | setMainTitle (index : Index) (library discSet mainRelPath : String) :
      QuietStep decoders t libraries index (index.setMainTitle library discSet mainRelPath)

section Quiet
variable {decoders : Decoders} {t : FileTree} {libraries : List Library} {index index' : Index}

theorem QuietStep.filledIn (h : Steady decoders t libraries index)
    (hstep : QuietStep decoders t libraries index index') : FilledIn index index' := by
  cases hstep with
  | scan faults => exact .of_eq h.recordAt_scanAll_again
  | flush faults roots dirty _ hdirty => exact .of_eq (h.recordAt_flush hdirty)
  | probePending faults runner => exact filledIn_probePending index
  | recordDerivationFailure => exact .of_eq fun _ => rfl
  | setMainTitle => exact .of_eq fun _ => rfl

theorem Steady.run (h : Steady decoders t libraries index)
    (hrun : Relation.ReflTransGen (QuietStep decoders t libraries) index index') :
    Steady decoders t libraries index' ∧ FilledIn index index' := by
  induction hrun with
  | refl => exact ⟨h, .of_eq fun _ => rfl⟩
  | tail _ hstep ih =>
    have hfilled := hstep.filledIn ih.1
    exact ⟨ih.1.filledIn hfilled, ih.2.trans hfilled⟩

/-- From any history on, once a scan has completed and while no file changes, a scan, complete or
cut short at any call, changes no record. Between them a record changes at most once, when a probe
fills in the codec facts that it lacked. -/
theorem rescan_unchanged {faults : Faults} {first last : Index} {stats : ScanStats}
    (hnames : (libraries.map Library.name).Nodup) (hreach : ReachableIndex decoders index)
    (hscan : scanAll decoders faults (fun _ => .still t) libraries index = (first, .ok stats))
    (hquiet : Relation.ReflTransGen (QuietStep decoders t libraries) first last) :
    (∀ faults' k, (scanAll decoders faults' (fun _ => .still t) libraries last).1.recordAt k =
        last.recordAt k) ∧
      ∀ k, last.recordAt k = first.recordAt k ∨
        ∃ r probe, first.recordAt k = some r ∧ r.codecSource = none ∧
          last.recordAt k = some (Index.withProbe probe r) := by
  obtain ⟨hsteady, hfilled⟩ := (steady_scanAll hnames hreach hscan).run hquiet
  exact ⟨fun faults' k => hsteady.recordAt_scanAll_again k, hfilled⟩

end Quiet

/-! ## A library with one video -/

namespace OneVideo

def firstScan : Index :=
  (scanAll decoders Faults.none (fun _ => .still tree) [library] .openInMemory).1

/-- After a probe pass that answers and one more scan. -/
def probedAndScanned : Index :=
  (scanAll decoders Faults.none (fun _ => .still tree) [library]
    (probePending Faults.none (fun _ => .ok { vcodec := some "h264" }) [library] firstScan).1).1

theorem rescan_unchanged_probed :
    (probedAndScanned.recordAt ("movies", "Movie.mkv")).map VideoRecord.codecSource =
        some (some .ffprobe) ∧
      (scanAll decoders Faults.none (fun _ => .still tree) [library] probedAndScanned).1.recordAt
          ("movies", "Movie.mkv") =
        probedAndScanned.recordAt ("movies", "Movie.mkv") :=
  have hscan : scanAll decoders Faults.none (fun _ => .still tree) [library] .openInMemory =
      (firstScan, .ok { directories := 1, videos := 1, removed := 0 }) := by decide
  ⟨by decide, (rescan_unchanged (by decide) Relation.ReflTransGen.refl hscan
    (.tail (.single (.probePending Faults.none _ firstScan)) (.scan Faults.none _))).1 _ _⟩

end OneVideo

end Loku
