import Loku.Index.Collect

/-!
# What a scan leaves

`Scanned` describes the index after some directories of one library were reconciled under one
generation: each of their masters has a row written from its record, a row of any other key is
one that was there, and nothing happened to rows that neither belong to a visited directory
nor to one of its masters. One reconcile extends it by its directory (`Scanned.step`), so a
scan establishes it for every directory it walked (`scanDirectories_scanned`). The sweep then
leaves no row of the library but those of the masters (`scanLibrary_spec`).
-/

namespace Loku

namespace Index

/-- Writing a record twice is writing it once. -/
theorem written_written (record : VideoRecord) (old : Option VideoRecord)
    (h : ∀ o ∈ old, o.key = record.key) :
    written record (some (written record old)) = written record old := by
  cases old with
  | none =>
    unfold written conflictUpdate keepDuration keepCodec unchanged stored
    cases record.codecSource <;> cases sqlReal record.durationSecs <;> simp
  | some o =>
    have hkey := h o rfl
    have hlib : o.library = record.library := congrArg Prod.fst hkey
    have hrel : o.relPath = record.relPath := congrArg Prod.snd hkey
    unfold written conflictUpdate keepDuration keepCodec unchanged stored
    cases record.codecSource <;> cases sqlReal record.durationSecs <;> simp

end Index

section Scan
variable (decoders : Decoders) (view : Path → FileTree) (library : Library) (root : Path)
  (generation : Int)

/-- `record` is collected from one of the visited directories. -/
def Collected (visited : List Path) (record : VideoRecord) : Prop :=
  ∃ dir ∈ visited, record ∈ collectDirectory decoders (view dir) library root dir

/-- The index after the visited directories were reconciled, starting from `before`. -/
structure Scanned (before : Index) (visited : List Path) (index : Index) : Prop where
  fresh : ∀ record, Collected decoders view library root visited record →
    ∃ row old, index.videos.find? record.key = some row ∧ row.lastSeen = generation ∧
      row.record = Index.written record old ∧ (∀ o ∈ old, o.key = record.key) ∧
      ((∀ row₀, before.videos.find? record.key = some row₀ → row₀.record.parent = record.parent) →
        old = before.recordAt record.key)
  stale : ∀ k row, index.videos.find? k = some row →
    (∃ record, Collected decoders view library root visited record ∧ record.key = k) ∨
      before.videos.find? k = some row
  kept : ∀ k row, before.videos.find? k = some row →
    (∀ record, Collected decoders view library root visited record → record.key ≠ k) →
    (row.record.library = library.name → ∀ dir ∈ visited, row.record.parent ≠ relativeOf dir root) →
    index.videos.find? k = some row
  cache : index.probeCache = before.probeCache
  failures : index.derivationFailures = before.derivationFailures
  counter : index.scanGeneration = before.scanGeneration

variable {decoders view library root generation}

theorem Scanned.nil (before : Index) :
    Scanned decoders view library root generation before [] before where
  fresh := by
    rintro record ⟨dir, hdir, -⟩
    cases hdir
  stale k row h := Or.inr h
  kept k row h _ _ := h
  cache := rfl
  failures := rfl
  counter := rfl

theorem library_of_collected {visited : List Path} {record : VideoRecord}
    (h : Collected decoders view library root visited record) : record.library = library.name := by
  obtain ⟨d, -, hrecord⟩ := h
  exact library_of_mem_collect hrecord

namespace Scanned

variable {before index index' : Index} {visited : List Path} {dir : Path}

/-- The record under a key of an unvisited directory is the one that was there. -/
theorem recordAt_of_not_mem (h : Scanned decoders view library root generation before visited index)
    (hvisited : ∀ d ∈ visited, root <+: d) (hdir : root <+: dir) (hnot : dir ∉ visited)
    {record : VideoRecord}
    (hrecord : record ∈ collectDirectory decoders (view dir) library root dir)
    (hparent : ∀ row₀, before.videos.find? record.key = some row₀ →
      row₀.record.parent = record.parent) :
    index.recordAt record.key = before.recordAt record.key := by
  have hfresh : ∀ r, Collected decoders view library root visited r → r.key ≠ record.key := by
    rintro r ⟨d, hd, hr⟩ hkey
    have hsame := (collect_key_inj (hvisited d hd) hdir hr hrecord hkey).1
    exact hnot (hsame ▸ hd)
  unfold Index.recordAt
  cases hbefore : before.videos.find? record.key with
  | some row =>
    rw [h.kept _ row hbefore hfresh]
    intro _ d hd heq
    rw [hparent row hbefore, parent_of_mem_collect hrecord] at heq
    have hsame := (relativeOf_inj hdir (hvisited d hd)).mp heq
    exact hnot (hsame ▸ hd)
  | none =>
    cases hindex : index.videos.find? record.key with
    | none => rfl
    | some row =>
      rcases h.stale _ row hindex with ⟨r, hr, hkey⟩ | hold
      · exact absurd hkey (hfresh r hr)
      · rw [hbefore] at hold
        cases hold

/-- Reconciling one more directory. -/
theorem step (h : Scanned decoders view library root generation before visited index)
    (hvisited : ∀ d ∈ visited, root <+: d) (hdir : root <+: dir)
    (hreconcile : index.reconcileDirectory library.name (relativeOf dir root)
      (collectDirectory decoders (view dir) library root dir) generation = .ok index') :
    Scanned decoders view library root generation before (visited ++ [dir]) index' := by
  have hrecords := directoryRecords_collectDirectory decoders (view dir) library hdir
  obtain ⟨hcache, hfailures, -, hcounter⟩ := Index.reconcileDirectory_frame hreconcile
  have hcollected : ∀ r, Collected decoders view library root (visited ++ [dir]) r →
      Collected decoders view library root visited r ∨
        r ∈ collectDirectory decoders (view dir) library root dir := by
    rintro r ⟨d, hd, hr⟩
    rcases List.mem_append.mp hd with hd | hd
    · exact Or.inl ⟨d, hd, hr⟩
    · rw [List.mem_singleton] at hd
      exact Or.inr (hd ▸ hr)
  refine ⟨?_, ?_, ?_, hcache.trans h.cache, hfailures.trans h.failures, hcounter.trans h.counter⟩
  · intro record hrecord
    by_cases hmem : record ∈ collectDirectory decoders (view dir) library root dir
    · -- its row is written now
      obtain ⟨id, hfind, -⟩ := Index.find?_reconcileDirectory_of_mem hrecords hreconcile hmem
      by_cases hseen : dir ∈ visited
      · obtain ⟨row, old, hrow, -, hwritten, hold, hexact⟩ := h.fresh record ⟨dir, hseen, hmem⟩
        refine ⟨_, old, hfind, rfl, ?_, hold, hexact⟩
        dsimp only
        rw [Index.recordAt_of_find? hrow, hwritten, Index.written_written record old hold]
      · exact ⟨_, _, hfind, rfl, rfl, fun o ho => Index.recordAt_key ho,
          h.recordAt_of_not_mem hvisited hdir hseen hmem⟩
    · -- its row was written before and belongs to another directory
      have hbefore := (hcollected record hrecord).resolve_right hmem
      obtain ⟨row, old, hrow, hstamp, hwritten, hold, hexact⟩ := h.fresh record hbefore
      refine ⟨row, old, ?_, hstamp, hwritten, hold, hexact⟩
      obtain ⟨d, hd, hr⟩ := hbefore
      have hne : d ≠ dir := fun heq => hmem (heq ▸ hr)
      rw [Index.find?_reconcileDirectory_of_parent_ne hrecords.library_eq hreconcile, hrow]
      · intro r hr' hkey
        exact hne (collect_key_inj (hvisited d hd) hdir hr hr' hkey.symm).1
      · intro row' hrow' heq
        rw [hrow] at hrow'
        cases hrow'
        have hpar : row.record.parent = record.parent := by
          change (copied row.record).parent = (copied record).parent
          rw [hwritten, copied_written hold]
        rw [hpar, parent_of_mem_collect hr] at heq
        exact hne ((relativeOf_inj (hvisited d hd) hdir).mp heq)
  · intro k row hrow
    obtain ⟨hmem, rfl⟩ := Lib.Table.find?_eq_some_iff.mp hrow
    rcases Index.row_of_reconcileDirectory hrecords hreconcile hmem with
      ⟨r, hr, hrk, -⟩ | ⟨hbefore, -⟩
    · exact Or.inl ⟨r, ⟨dir, by simp, hr⟩, hrk⟩
    · rcases h.stale row.key row (Lib.Table.find?_key hbefore) with ⟨r, ⟨d, hd, hr⟩, hrk⟩ | hold
      · exact Or.inl ⟨r, ⟨d, List.mem_append_left _ hd, hr⟩, hrk⟩
      · exact Or.inr hold
  · intro k row hrow hfresh hparent
    have hkept := h.kept k row hrow
      (fun r hr => hfresh r (by
        obtain ⟨d, hd, hr⟩ := hr
        exact ⟨d, List.mem_append_left _ hd, hr⟩))
      (fun hlib d hd => hparent hlib d (List.mem_append_left _ hd))
    have hnone : ∀ r ∈ collectDirectory decoders (view dir) library root dir, r.key ≠ k :=
      fun r hr => hfresh r ⟨dir, by simp, hr⟩
    rw [Index.find?_reconcileDirectory_of_not_mem hrecords.library_eq hreconcile hnone, hkept,
      Option.filter_some, if_pos]
    by_cases hlib : row.record.library = library.name
    · have hne := hparent hlib dir (by simp)
      simp [hlib, hne]
    · simp [hlib]

/-- Rows of other libraries do not change. -/
theorem other (h : Scanned decoders view library root generation before visited index)
    {k : RowKey} (hk : k.1 ≠ library.name) : index.videos.find? k = before.videos.find? k := by
  have hfresh : ∀ r, Collected decoders view library root visited r → r.key ≠ k := by
    intro r hr heq
    exact hk ((congrArg Prod.fst heq).symm.trans (library_of_collected hr))
  apply Option.ext
  intro row
  constructor
  · intro hrow
    rcases h.stale k row hrow with ⟨r, hr, hrk⟩ | hold
    · exact absurd hrk (hfresh r hr)
    · exact hold
  · intro hrow
    refine h.kept k row hrow hfresh fun hlib => ?_
    have hkey := (Lib.Table.find?_eq_some_iff.mp hrow).2
    exact absurd ((congrArg Prod.fst hkey).symm.trans hlib) hk

end Scanned

end Scan

/-! ## A whole scan -/

theorem callIndex_ok_iff {faults : Faults} {call : IndexCall} {result : Except IndexError Index}
    {index : Index} :
    callIndex faults call result = .ok index ↔ faults call = false ∧ result = .ok index := by
  unfold callIndex
  split
  · rename_i h
    simp [h]
  · rename_i h
    cases result with
    | error e => simp [Except.mapError]
    | ok i => simp [Except.mapError, h]

section ScanDirectories
variable {decoders : Decoders} {faults : Faults} {disk : Disk} {library : Library} {root : Path}
  {generation : Int}

/-- A scan that goes through has reconciled every directory. -/
theorem scanDirectories_scanned (before : Index) :
    ∀ (dirs visited : List Path) (index scanned : Index) (stats stats' : ScanStats),
      Scanned decoders disk.collect library root generation before visited index →
      (∀ d ∈ visited, root <+: d) → (∀ d ∈ dirs, root <+: d) →
      scanDirectories decoders faults disk library root generation dirs index stats =
        (scanned, .ok stats') →
      Scanned decoders disk.collect library root generation before (visited ++ dirs) scanned
  | [], visited, index, scanned, stats, stats', h, _, _, hscan => by
    obtain ⟨rfl, -⟩ := Prod.mk.inj hscan
    rwa [List.append_nil]
  | dir :: dirs, visited, index, scanned, stats, stats', h, hvisited, hdirs, hscan => by
    have hdir := hdirs dir List.mem_cons_self
    unfold scanDirectories at hscan
    dsimp only at hscan
    split at hscan
    · cases (Prod.mk.inj hscan).2
    · rename_i index' hcall
      have hstep := h.step hvisited hdir (callIndex_ok_iff.mp hcall).2
      have hrest := scanDirectories_scanned before dirs (visited ++ [dir]) index' scanned _ stats'
        hstep
        (by
          intro d hd
          rcases List.mem_append.mp hd with hd | hd
          · exact hvisited d hd
          · rw [List.mem_singleton.mp hd]
            exact hdir)
        (fun d hd => hdirs d (List.mem_cons_of_mem _ hd)) hscan
      rwa [List.append_assoc] at hrest

end ScanDirectories

section ScanLibrary
variable {decoders : Decoders} {faults : Faults} {disk : Disk} {library : Library}
  {generation : Int} {before after : Index} {stats : ScanStats}

/-- A scan that goes through has walked the library, reconciled the directories and swept. -/
theorem scanLibrary_ok
    (hscan : scanLibrary decoders faults disk library generation before = (after, .ok stats)) :
    ∃ root scanned stats', disk.walk.canonicalize library.path = some root ∧
      scanDirectories decoders faults disk library root generation (disk.walk.walkDir root)
        before {} = (scanned, .ok stats') ∧
      after = (scanned.removeUnseen library.name generation).1 := by
  unfold scanLibrary at hscan
  split at hscan
  · cases (Prod.mk.inj hscan).2
  · rename_i root hroot
    split at hscan
    · cases (Prod.mk.inj hscan).2
    · rename_i scanned stats' hdirs
      split at hscan
      · cases (Prod.mk.inj hscan).2
      · obtain ⟨rfl, -⟩ := Prod.mk.inj hscan
        exact ⟨root, scanned, stats', hroot, hdirs, rfl⟩

/-- A scan that goes through has reconciled every directory of the walk and then swept. -/
theorem scanLibrary_scanned
    (hscan : scanLibrary decoders faults disk library generation before = (after, .ok stats)) :
    ∃ root scanned, disk.walk.canonicalize library.path = some root ∧
      Scanned decoders disk.collect library root generation before (disk.walk.walkDir root)
        scanned ∧
      after = (scanned.removeUnseen library.name generation).1 := by
  obtain ⟨root, scanned, stats', hroot, hdirs, hafter⟩ := scanLibrary_ok hscan
  have h := scanDirectories_scanned before _ [] before scanned {} stats'
    (.nil before) (by simp) (fun d hd => FileTree.prefix_of_mem_walkDir hd) hdirs
  exact ⟨root, scanned, hroot, h, hafter⟩

end ScanLibrary

/-- The sweep keeps the rows of other libraries. -/
theorem find?_removeUnseen_other {index : Index} {library : String} {generation : Int}
    {k : RowKey} (hk : k.1 ≠ library) :
    (index.removeUnseen library generation).1.videos.find? k = index.videos.find? k := by
  rw [Index.find?_removeUnseen]
  cases hrow : index.videos.find? k with
  | none => rfl
  | some row =>
    have hkey := (Lib.Table.find?_eq_some_iff.mp hrow).2
    have hlib : row.record.library ≠ library := by
      intro heq
      exact hk ((congrArg Prod.fst hkey).symm.trans heq)
    rw [Option.filter_some, if_pos]
    simp [hlib]

theorem scanLibrary_other {decoders : Decoders} {faults : Faults} {disk : Disk}
    {library : Library} {generation : Int} {before after : Index} {stats : ScanStats}
    (hscan : scanLibrary decoders faults disk library generation before = (after, .ok stats))
    {k : RowKey} (hk : k.1 ≠ library.name) : after.videos.find? k = before.videos.find? k := by
  obtain ⟨root, scanned, -, h, rfl⟩ := scanLibrary_scanned hscan
  rw [find?_removeUnseen_other hk, h.other hk]

theorem scanLibraries_other {decoders : Decoders} {faults : Faults} {disk : Library → Disk}
    {generation : Int} {k : RowKey} :
    ∀ (libraries : List Library) (before after : Index) (stats stats' : ScanStats),
      scanLibraries decoders faults disk generation libraries before stats = (after, .ok stats') →
      (∀ l ∈ libraries, k.1 ≠ l.name) → after.videos.find? k = before.videos.find? k
  | [], before, after, _, _, hscan, _ => by
    obtain ⟨rfl, -⟩ := Prod.mk.inj hscan
    rfl
  | library :: libraries, before, after, _, _, hscan, hk => by
    unfold scanLibraries at hscan
    split at hscan
    · cases (Prod.mk.inj hscan).2
    · rename_i scanned libraryStats hlibrary
      rw [scanLibraries_other libraries scanned after _ _ hscan
        fun l hl => hk l (List.mem_cons_of_mem _ hl)]
      exact scanLibrary_other hlibrary (hk library List.mem_cons_self)

/-- A library and the ones after it, under other names, leave each other's rows alone. -/
theorem scanLibraries_cons_ok {decoders : Decoders} {faults : Faults} {disk : Library → Disk}
    {generation : Int} {library : Library} {libraries : List Library} {before after : Index}
    {stats stats' : ScanStats} (hnames : ((library :: libraries).map Library.name).Nodup)
    (hscan : scanLibraries decoders faults disk generation (library :: libraries) before stats =
      (after, .ok stats')) :
    ∃ scanned libraryStats restStats,
      scanLibrary decoders faults (disk library) library generation before =
        (scanned, .ok libraryStats) ∧
      scanLibraries decoders faults disk generation libraries scanned restStats =
        (after, .ok stats') ∧
      (∀ k : RowKey, k.1 = library.name → after.videos.find? k = scanned.videos.find? k) ∧
      ∀ l ∈ libraries, ∀ k : RowKey, k.1 = l.name →
        scanned.videos.find? k = before.videos.find? k := by
  rw [List.map_cons, List.nodup_cons] at hnames
  have hne : ∀ l ∈ libraries, l.name ≠ library.name := fun l hl heq =>
    hnames.1 (heq ▸ List.mem_map_of_mem hl)
  unfold scanLibraries at hscan
  split at hscan
  · cases (Prod.mk.inj hscan).2
  · rename_i scanned libraryStats hlibrary
    refine ⟨scanned, libraryStats, _, hlibrary, hscan, ?_, ?_⟩
    · intro k hk
      exact scanLibraries_other libraries scanned after _ _ hscan
        fun l hl heq => hne l hl (heq.symm.trans hk)
    · intro l hl k hk
      exact scanLibrary_other hlibrary fun heq => hne l hl (hk.symm.trans heq)

/-- A full scan that goes through has drawn a generation and scanned the libraries. -/
theorem scanAll_ok {decoders : Decoders} {faults : Faults} {disk : Library → Disk}
    {libraries : List Library} {index scanned : Index} {stats : ScanStats}
    (hscan : scanAll decoders faults disk libraries index = (scanned, .ok stats)) :
    ∃ started generation, index.nextGeneration = (started, generation) ∧
      scanLibraries decoders faults disk generation libraries started {} =
        (scanned, .ok stats) := by
  unfold scanAll at hscan
  split at hscan
  · cases (Prod.mk.inj hscan).2
  · obtain ⟨started, generation, hnext⟩ : ∃ started generation,
        index.nextGeneration = (started, generation) := ⟨_, _, rfl⟩
    rw [hnext] at hscan
    dsimp only at hscan
    split at hscan
    · cases (Prod.mk.inj hscan).2
    · rename_i scanned' stats' hlibraries
      split at hscan
      · cases (Prod.mk.inj hscan).2
      · exact ⟨started, generation, hnext, hlibraries.trans hscan⟩

/-- The stamps of a library's rows all predate a generation. -/
def StampsPredate (index : Index) (library : String) (generation : Int) : Prop :=
  ∀ k row, index.videos.find? k = some row → k.1 = library → row.lastSeen < generation

section Sweep
variable {decoders : Decoders} {view : Path → FileTree} {library : Library} {root : Path}
  {generation : Int} {before scanned : Index} {visited : List Path}

/-- After the sweep every row of the library is a collected one. -/
theorem collected_of_find?_removeUnseen
    (h : Scanned decoders view library root generation before visited scanned)
    (hstamps : StampsPredate before library.name generation) {k : RowKey} {row : Row}
    (hrow : (scanned.removeUnseen library.name generation).1.videos.find? k = some row)
    (hk : k.1 = library.name) :
    ∃ record, Collected decoders view library root visited record ∧ record.key = k := by
  rw [Index.find?_removeUnseen, Option.filter_eq_some_iff] at hrow
  rcases h.stale k row hrow.1 with hcollected | hold
  · exact hcollected
  · -- a row of an earlier generation is swept
    have hlt := hstamps k row hold hk
    have hkey := (Lib.Table.find?_eq_some_iff.mp hold).2
    have hlib : row.record.library = library.name := (congrArg Prod.fst hkey).trans hk
    have hkeep := hrow.2
    simp [hlib, hlt] at hkeep

/-- The sweep keeps the collected rows. -/
theorem fresh_removeUnseen
    (h : Scanned decoders view library root generation before visited scanned)
    {record : VideoRecord} (hrecord : Collected decoders view library root visited record) :
    ∃ row old, (scanned.removeUnseen library.name generation).1.videos.find? record.key =
        some row ∧
      row.record = Index.written record old ∧ (∀ o ∈ old, o.key = record.key) ∧
      ((∀ row₀, before.videos.find? record.key = some row₀ →
        row₀.record.parent = record.parent) → old = before.recordAt record.key) := by
  obtain ⟨row, old, hrow, hstamp, hrest⟩ := h.fresh record hrecord
  refine ⟨row, old, ?_, hrest⟩
  rw [Index.find?_removeUnseen, hrow, Option.filter_some, if_pos]
  simp [hstamp]

end Sweep

end Loku
