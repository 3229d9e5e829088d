import Loku.Index.Store

/-!
# What each statement does to the row of one key

One lemma for each statement of the store, saying which row it leaves under an arbitrary key.
For an upsert that is `written`: the stored record, or the conflict clause applied to the row
that was there. `reconcileDirectory` is described for a list of records of one directory with
distinct keys, the only lists the scanner passes (`DirectoryRecords`).

The generation stamps obey one law: no statement but `nextGeneration` moves the counter, and a
row's stamp is either kept or the stamp of the call (`StampsBelow`).
-/

namespace Loku

namespace Index

/-- The record that an upsert of `record` leaves, given the one that was there. -/
def written (record : VideoRecord) : Option VideoRecord → VideoRecord
  | none => stored record
  | some old => conflictUpdate (stored record) old

theorem conflictUpdate_key (excluded old : VideoRecord) :
    (conflictUpdate excluded old).key = old.key := rfl

theorem written_key {record : VideoRecord} {old : Option VideoRecord}
    (h : ∀ o ∈ old, o.key = record.key) : (written record old).key = record.key := by
  cases old with
  | none => rfl
  | some o => exact (conflictUpdate_key _ _).trans (h o rfl)

/-! ## Lookup -/

theorem recordAt_of_find? {index : Index} {k : RowKey} {r : Row}
    (h : index.videos.find? k = some r) : index.recordAt k = some r.record := by
  unfold recordAt
  rw [h]
  rfl

theorem recordAt_eq_some_iff {index : Index} {k : RowKey} {record : VideoRecord} :
    index.recordAt k = some record ↔ ∃ r ∈ index.videos, r.record = record ∧ record.key = k := by
  unfold recordAt
  rw [Option.map_eq_some_iff]
  constructor
  · rintro ⟨r, hr, rfl⟩
    obtain ⟨hmem, hkey⟩ := Lib.Table.find?_eq_some_iff.mp hr
    exact ⟨r, hmem, rfl, hkey⟩
  · rintro ⟨r, hmem, rfl, hkey⟩
    exact ⟨r, Lib.Table.find?_eq_some_iff.mpr ⟨hmem, hkey⟩, rfl⟩

theorem recordAt_key {index : Index} {k : RowKey} {record : VideoRecord}
    (h : index.recordAt k = some record) : record.key = k := by
  obtain ⟨_, _, _, hkey⟩ := recordAt_eq_some_iff.mp h
  exact hkey

/-! ## The upserts of one directory -/

section Upserts
variable {generation : Int}

theorem find?_upsertRecord_of_ne {videos : Lib.Table Row.key} {record : VideoRecord} {k : RowKey}
    (h : record.key ≠ k) : (upsertRecord generation videos record).find? k = videos.find? k :=
  Lib.Table.find?_upsert_of_ne (Ne.symm h)

theorem find?_upsertRecord_self {videos : Lib.Table Row.key} {record : VideoRecord} :
    ∃ id, (upsertRecord generation videos record).find? record.key = some
        ⟨id, written record ((videos.find? record.key).map Row.record), generation⟩ ∧
      ∀ old, videos.find? record.key = some old → id = old.id := by
  have hself : (upsertRecord generation videos record).find? record.key =
      some (videos.upserted ⟨nextId videos, stored record, generation⟩ _) :=
    Lib.Table.find?_upsert_self
  rw [hself]
  unfold Lib.Table.upserted
  have hkey : Row.key ⟨nextId videos, stored record, generation⟩ = record.key := rfl
  rw [hkey]
  cases hold : videos.find? record.key with
  | none => exact ⟨_, rfl, fun old ho => by cases ho⟩
  | some old => exact ⟨old.id, rfl, fun old' ho => by cases ho; rfl⟩

theorem find?_foldl_of_not_mem {records : List VideoRecord} {videos : Lib.Table Row.key}
    {k : RowKey} (h : ∀ r ∈ records, r.key ≠ k) :
    (records.foldl (upsertRecord generation) videos).find? k = videos.find? k := by
  induction records generalizing videos with
  | nil => rfl
  | cons r records ih =>
    rw [List.foldl_cons, ih fun r' hr' => h r' (List.mem_cons_of_mem _ hr')]
    exact find?_upsertRecord_of_ne (h r List.mem_cons_self)

theorem find?_foldl_of_mem (generation : Int) {records : List VideoRecord}
    (videos : Lib.Table Row.key) {record : VideoRecord}
    (hnodup : (records.map VideoRecord.key).Nodup) (h : record ∈ records) :
    ∃ id, (records.foldl (upsertRecord generation) videos).find? record.key = some
        ⟨id, written record ((videos.find? record.key).map Row.record), generation⟩ ∧
      ∀ old, videos.find? record.key = some old → id = old.id := by
  induction records generalizing videos with
  | nil => cases h
  | cons r records ih =>
    rw [List.map_cons, List.nodup_cons] at hnodup
    rw [List.foldl_cons]
    rcases List.mem_cons.mp h with rfl | h
    · -- the later upserts have other keys
      have hrest : ∀ r' ∈ records, r'.key ≠ record.key := by
        intro r' hr' heq
        exact hnodup.1 (heq ▸ List.mem_map_of_mem hr')
      rw [find?_foldl_of_not_mem hrest]
      exact find?_upsertRecord_self
    · have hne : r.key ≠ record.key := by
        intro heq
        exact hnodup.1 (heq ▸ List.mem_map_of_mem h)
      have hrec := ih (upsertRecord generation videos r) hnodup.2 h
      rwa [find?_upsertRecord_of_ne hne] at hrec

end Upserts

/-! ## Reconciling a directory -/

/-- Records of the directory `parent` of one library, with distinct keys. -/
structure DirectoryRecords (library parent : String) (records : List VideoRecord) : Prop where
  library_eq : ∀ r ∈ records, r.library = library
  parent_eq : ∀ r ∈ records, r.parent = parent
  nodup : (records.map VideoRecord.key).Nodup

/-- The transaction runs when the statement's parameters fit. -/
theorem reconcileDirectory_isOk_iff {index : Index} {library parent : String}
    {records : List VideoRecord} {generation : Int} :
    (∃ index', index.reconcileDirectory library parent records generation = .ok index') ↔
      records.length + 2 ≤ maxVariables := by
  unfold reconcileDirectory
  cases records with
  | nil => simp [maxVariables]
  | cons r records =>
    simp only [List.map_cons, List.isEmpty_cons, Bool.false_eq_true, if_false]
    split
    · rename_i h
      simp only [List.length_cons, List.length_map] at h ⊢
      simpa using h
    · rename_i h
      simp only [List.length_cons, List.length_map] at h ⊢
      simpa using h

section Reconcile
variable {index index' : Index} {library parent : String} {records : List VideoRecord}
  {generation : Int}

theorem reconcileDirectory_videos
    (h : index.reconcileDirectory library parent records generation = .ok index') :
    index' = { index with
      videos := (records.foldl (upsertRecord generation) index.videos).delete fun r =>
        r.record.library == library && r.record.parent == parent &&
          !(records.map VideoRecord.relPath).contains r.record.relPath } := by
  unfold reconcileDirectory at h
  cases records with
  | nil =>
    simp only [List.map_nil, List.isEmpty_nil, if_true] at h
    rw [← Except.ok.inj h]
    simp
  | cons r records =>
    simp only [List.map_cons, List.isEmpty_cons, Bool.false_eq_true, if_false] at h
    split at h
    · rw [← Except.ok.inj h]
      rfl
    · cases h

/-- A row of the reconciled directory: written from its record. -/
theorem find?_reconcileDirectory_of_mem (hrecords : DirectoryRecords library parent records)
    (h : index.reconcileDirectory library parent records generation = .ok index')
    {record : VideoRecord} (hmem : record ∈ records) :
    ∃ id, index'.videos.find? record.key = some
        ⟨id, written record (index.recordAt record.key), generation⟩ ∧
      ∀ old, index.videos.find? record.key = some old → id = old.id := by
  obtain ⟨id, hfind, hid⟩ := find?_foldl_of_mem generation index.videos hrecords.nodup hmem
  refine ⟨id, ?_, hid⟩
  rw [reconcileDirectory_videos h, Lib.Table.find?_delete, hfind, Option.filter_some, if_pos]
  · rfl
  · -- its path is among those seen
    have hseen : record.relPath ∈ records.map VideoRecord.relPath := List.mem_map_of_mem hmem
    have hkey : (written record (index.recordAt record.key)).key = record.key :=
      written_key fun o ho => recordAt_key ho
    have hpath : (written record (index.recordAt record.key)).relPath = record.relPath :=
      congrArg Prod.snd hkey
    change (!(_ && !(records.map VideoRecord.relPath).contains
      (written record (index.recordAt record.key)).relPath)) = true
    rw [hpath, List.contains_iff_mem.mpr hseen]
    simp

/-- Every other row of that directory is gone, rows elsewhere are kept. -/
theorem find?_reconcileDirectory_of_not_mem (hlibrary : ∀ r ∈ records, r.library = library)
    (h : index.reconcileDirectory library parent records generation = .ok index')
    {k : RowKey} (hk : ∀ r ∈ records, r.key ≠ k) :
    index'.videos.find? k = (index.videos.find? k).filter fun r =>
      !(r.record.library == library && r.record.parent == parent) := by
  rw [reconcileDirectory_videos h, Lib.Table.find?_delete, find?_foldl_of_not_mem hk]
  cases hfind : index.videos.find? k with
  | none => rfl
  | some r =>
    obtain ⟨-, hkey⟩ := Lib.Table.find?_eq_some_iff.mp hfind
    rw [Option.filter_some, Option.filter_some]
    by_cases hlib : r.record.library = library
    · have hnot : r.record.relPath ∉ records.map VideoRecord.relPath := by
        intro hmem
        obtain ⟨r', hr', hpath⟩ := List.mem_map.mp hmem
        refine hk r' hr' ?_
        rw [← hkey]
        exact Prod.ext ((hlibrary r' hr').trans hlib.symm) hpath
      simp [hnot]
    · simp [hlib]

/-- A row after a reconcile is written from the record of its key, or it was there before, in
another directory. -/
theorem row_of_reconcileDirectory (hrecords : DirectoryRecords library parent records)
    (h : index.reconcileDirectory library parent records generation = .ok index') {row : Row}
    (hrow : row ∈ index'.videos) :
    (∃ record ∈ records, record.key = row.key ∧
        row.record = written record (index.recordAt row.key) ∧ row.lastSeen = generation) ∨
      row ∈ index.videos ∧ ¬ (row.record.library = library ∧ row.record.parent = parent) := by
  have hfind := Lib.Table.find?_key hrow
  by_cases hmem : ∃ record ∈ records, record.key = row.key
  · obtain ⟨record, hrecord, hkey⟩ := hmem
    obtain ⟨rowId, hwritten, -⟩ := find?_reconcileDirectory_of_mem hrecords h hrecord
    rw [hkey, hfind] at hwritten
    have hrow' := Option.some.inj hwritten
    exact Or.inl ⟨record, hrecord, hkey, congrArg Row.record hrow', congrArg Row.lastSeen hrow'⟩
  · have hnot : ∀ record ∈ records, record.key ≠ row.key :=
      fun record hrecord hkey => hmem ⟨record, hrecord, hkey⟩
    rw [find?_reconcileDirectory_of_not_mem hrecords.library_eq h hnot,
      Option.filter_eq_some_iff] at hfind
    refine Or.inr ⟨(Lib.Table.find?_eq_some_iff.mp hfind.1).1, ?_⟩
    rintro ⟨hlib, hparent⟩
    simp [hlib, hparent] at hfind

theorem reconcileDirectory_frame
    (h : index.reconcileDirectory library parent records generation = .ok index') :
    index'.probeCache = index.probeCache ∧
      index'.derivationFailures = index.derivationFailures ∧
      index'.discSetOverrides = index.discSetOverrides ∧
      index'.scanGeneration = index.scanGeneration := by
  rw [reconcileDirectory_videos h]
  exact ⟨rfl, rfl, rfl, rfl⟩

/-- Rows of other libraries do not change. -/
theorem find?_reconcileDirectory_other (hlibrary : ∀ r ∈ records, r.library = library)
    (h : index.reconcileDirectory library parent records generation = .ok index')
    {k : RowKey} (hk : k.1 ≠ library) : index'.videos.find? k = index.videos.find? k := by
  rw [find?_reconcileDirectory_of_not_mem hlibrary h]
  · cases hfind : index.videos.find? k with
    | none => rfl
    | some r =>
      obtain ⟨-, hkey⟩ := Lib.Table.find?_eq_some_iff.mp hfind
      have hlib : r.record.library ≠ library := by
        intro heq
        exact hk ((congrArg Prod.fst hkey).symm.trans heq)
      rw [Option.filter_some, if_pos]
      simp [hlib]
  · intro r hr heq
    exact hk (heq ▸ hlibrary r hr)

/-- Rows of other directories of the library do not change. -/
theorem find?_reconcileDirectory_of_parent_ne (hlibrary : ∀ r ∈ records, r.library = library)
    (h : index.reconcileDirectory library parent records generation = .ok index')
    {k : RowKey} (hk : ∀ r ∈ records, r.key ≠ k)
    (hparent : ∀ r, index.videos.find? k = some r → r.record.parent ≠ parent) :
    index'.videos.find? k = index.videos.find? k := by
  rw [find?_reconcileDirectory_of_not_mem hlibrary h hk]
  cases hfind : index.videos.find? k with
  | none => rfl
  | some r =>
    rw [Option.filter_some, if_pos]
    simp [hparent r hfind]

end Reconcile

/-! ## Sweeps -/

theorem find?_removeUnseen (index : Index) (library : String) (generation : Int) (k : RowKey) :
    (index.removeUnseen library generation).1.videos.find? k =
      (index.videos.find? k).filter fun r =>
        !(r.record.library == library && decide (r.lastSeen < generation)) :=
  Lib.Table.find?_delete

theorem find?_removeTree (index : Index) (library dirRel : String) (k : RowKey) :
    (index.removeTree library dirRel).1.videos.find? k =
      (index.videos.find? k).filter fun r =>
        !(r.record.library == library && inTree dirRel r.record.parent) :=
  Lib.Table.find?_delete

/-- What lies in the tree of `dirRel`, up to ASCII case below it. -/
theorem inTree_iff {dirRel parent : String} :
    inTree dirRel parent = true ↔ parent = dirRel ∨
      ∃ head tail, parent.toList = head ++ '/' :: tail ∧
        head.map Lib.asciiFold = dirRel.toList.map Lib.asciiFold := by
  have hpattern : (escapeLike dirRel ++ "/%").toList =
      Lib.escapeLike '\\' (dirRel.toList ++ ['/']) ++ ['%'] := by
    unfold escapeLike
    rw [String.toList_append, String.toList_ofList, Lib.escapeLike_append]
    simp [Lib.escapeLike]
  unfold inTree
  rw [Bool.or_eq_true, beq_iff_eq, hpattern, Lib.like_escaped_append_any]
  apply or_congr_right
  constructor
  · rintro ⟨head, tail, happ, hfold⟩
    rw [List.map_append, List.map_singleton] at hfold
    obtain ⟨first, last, rfl, hfirst, hlast⟩ := List.map_eq_append_iff.mp hfold
    obtain ⟨c, rfl, hc⟩ := List.map_eq_singleton_iff.mp hlast
    refine ⟨first, tail, ?_, hfirst⟩
    have hslash : Lib.asciiFold '/' = '/' := by decide
    rw [happ, Lib.eq_of_asciiFold_eq (by decide) (hc.trans hslash)]
    simp
  · rintro ⟨head, tail, happ, hfold⟩
    exact ⟨head ++ ['/'], tail, by simpa using happ, by simp [hfold]⟩

/-! ## Single rows -/

theorem find?_updateRecord {videos : Lib.Table Row.key} {k : RowKey}
    {f : VideoRecord → VideoRecord} (hf : ∀ r, (f r).key = r.key) (k' : RowKey) :
    (updateRecord videos k f hf).find? k' = (videos.find? k').map fun r =>
      if k' = k then { r with record := f r.record } else r := by
  have hupdate : (updateRecord videos k f hf).find? k' = (videos.find? k').map fun r =>
      if r.key = k then { r with record := f r.record } else r := by
    refine Lib.Table.find?_update.trans ?_
    simp only [decide_eq_true_eq]
  rw [hupdate]
  cases h : videos.find? k' with
  | none => rfl
  | some r =>
    rw [Option.map_some, Option.map_some, (Lib.Table.find?_eq_some_iff.mp h).2]

theorem find?_updateRecord_of_ne {videos : Lib.Table Row.key} {k : RowKey}
    {f : VideoRecord → VideoRecord} (hf : ∀ r, (f r).key = r.key) {k' : RowKey} (h : k' ≠ k) :
    (updateRecord videos k f hf).find? k' = videos.find? k' := by
  rw [find?_updateRecord hf]
  simp [h]

theorem find?_recordProbe (index : Index) (candidate : ProbeCandidate) (probe : ProbeResult)
    (k : RowKey) :
    (index.recordProbe candidate probe).videos.find? k = (index.videos.find? k).map fun r =>
      if k = candidate.key then { r with record := withProbe probe r.record } else r :=
  find?_updateRecord (f := withProbe probe) (fun _ => rfl) k

theorem find?_setCompat (index : Index) (library relPath compat : String) (k : RowKey) :
    (index.setCompat library relPath compat).videos.find? k =
      (index.videos.find? k).map fun r =>
        if k = (library, relPath) then { r with record := withCompat compat r.record } else r :=
  find?_updateRecord (f := withCompat compat) (fun _ => rfl) k

theorem find?_setThumb (index : Index) (library relPath thumb : String) (k : RowKey) :
    (index.setThumb library relPath thumb).videos.find? k =
      (index.videos.find? k).map fun r =>
        if k = (library, relPath) then { r with record := withThumb thumb r.record } else r :=
  find?_updateRecord (f := withThumb thumb) (fun _ => rfl) k

theorem find?_setCompat_of_ne {index : Index} {library relPath compat : String} {k : RowKey}
    (h : k ≠ (library, relPath)) :
    (index.setCompat library relPath compat).videos.find? k = index.videos.find? k :=
  find?_updateRecord_of_ne (f := withCompat compat) (fun _ => rfl) h

theorem find?_setThumb_of_ne {index : Index} {library relPath thumb : String} {k : RowKey}
    (h : k ≠ (library, relPath)) :
    (index.setThumb library relPath thumb).videos.find? k = index.videos.find? k :=
  find?_updateRecord_of_ne (f := withThumb thumb) (fun _ => rfl) h

/-! ## The cache and the failures -/

theorem find?_probeCache_recordProbe_self (index : Index) (candidate : ProbeCandidate)
    (probe : ProbeResult) :
    (index.recordProbe candidate probe).probeCache.find? candidate.key =
      some (probeEntry candidate probe) := by
  have hself : (index.recordProbe candidate probe).probeCache.find? candidate.key =
      some (index.probeCache.upserted (probeEntry candidate probe) _) :=
    Lib.Table.find?_upsert_self
  rw [hself]
  unfold Lib.Table.upserted
  have hkey : (probeEntry candidate probe).key = candidate.key := rfl
  rw [hkey]
  cases h : index.probeCache.find? candidate.key with
  | none => rfl
  | some old =>
    have hold := (Lib.Table.find?_eq_some_iff.mp h).2
    have hlib : old.candidate.library = candidate.library := congrArg Prod.fst hold
    have hrel : old.candidate.relPath = candidate.relPath := congrArg Prod.snd hold
    rw [Option.map_some, Option.getD_some, hlib, hrel]

theorem find?_probeCache_recordProbe_of_ne (index : Index) {candidate : ProbeCandidate}
    (probe : ProbeResult) {k : RowKey} (h : k ≠ candidate.key) :
    (index.recordProbe candidate probe).probeCache.find? k = index.probeCache.find? k :=
  Lib.Table.find?_upsert_of_ne h

theorem find?_recordDerivationFailure_self (index : Index) (library relPath : String)
    (size mtime : Int) (error : String) :
    (index.recordDerivationFailure library relPath size mtime error).derivationFailures.find?
      (library, relPath) = some ⟨library, relPath, size, mtime, error⟩ := by
  have hself : (index.recordDerivationFailure library relPath size mtime
      error).derivationFailures.find? (library, relPath) =
      some (index.derivationFailures.upserted ⟨library, relPath, size, mtime, error⟩ _) :=
    Lib.Table.find?_upsert_self
  rw [hself]
  unfold Lib.Table.upserted
  have hkey : Failure.key ⟨library, relPath, size, mtime, error⟩ = (library, relPath) := rfl
  rw [hkey]
  cases h : index.derivationFailures.find? (library, relPath) with
  | none => rfl
  | some old =>
    have hold := (Lib.Table.find?_eq_some_iff.mp h).2
    have hlib : old.library = library := congrArg Prod.fst hold
    have hrel : old.relPath = relPath := congrArg Prod.snd hold
    rw [Option.map_some, Option.getD_some, hlib, hrel]

theorem find?_recordDerivationFailure_of_ne (index : Index) {library relPath : String}
    (size mtime : Int) (error : String) {k : RowKey} (h : k ≠ (library, relPath)) :
    (index.recordDerivationFailure library relPath size mtime error).derivationFailures.find? k =
      index.derivationFailures.find? k :=
  Lib.Table.find?_upsert_of_ne h

/-! ## Generations -/

theorem currentGeneration_bounds (index : Index) :
    i64Min ≤ index.currentGeneration ∧ index.currentGeneration ≤ i64Max := by
  unfold currentGeneration
  split
  · decide
  · rename_i value _
    cases h : parseI64 value with
    | none => decide
    | some n => exact parseI64_bounds h

theorem currentGeneration_congr {index index' : Index}
    (h : index'.scanGeneration = index.scanGeneration) :
    index'.currentGeneration = index.currentGeneration := by
  unfold Index.currentGeneration
  rw [h]

/-- The counter advances by one, around the end of the `i64` range, and reading it back gives the
generation returned. -/
theorem nextGeneration_spec {index index' : Index} {generation : Int}
    (h : index.nextGeneration = (index', generation)) :
    generation = wrapI64 (index.currentGeneration + 1) ∧ index'.currentGeneration = generation ∧
      index'.videos = index.videos ∧ index'.probeCache = index.probeCache ∧
      index'.derivationFailures = index.derivationFailures := by
  obtain ⟨rfl, rfl⟩ := Prod.mk.inj h
  refine ⟨rfl, ?_, rfl, rfl, rfl⟩
  obtain ⟨hmin, hmax⟩ := wrapI64_bounds (index.currentGeneration + 1)
  change (parseI64 (toString (wrapI64 (index.currentGeneration + 1)))).getD 0 = _
  rw [parseI64_toString hmin hmax]
  rfl

/-- The counter has not reached the largest `i64`. -/
def HasRoom (index : Index) : Prop := index.currentGeneration < i64Max

theorem hasRoom_openInMemory : HasRoom openInMemory := by
  change (0 : Int) < i64Max
  decide

theorem HasRoom.generation {index index' : Index} {generation : Int} (hroom : index.HasRoom)
    (h : index.nextGeneration = (index', generation)) :
    generation = index.currentGeneration + 1 := by
  have hmin := (currentGeneration_bounds index).1
  rw [(nextGeneration_spec h).1]
  exact wrapI64_of_bounds (by omega) (Int.add_one_le_of_lt hroom)

/-- Exactly a counter with room is followed by its successor. -/
theorem hasRoom_iff {index index' : Index} {generation : Int}
    (h : index.nextGeneration = (index', generation)) :
    index.HasRoom ↔ generation = index.currentGeneration + 1 := by
  refine ⟨fun hroom => hroom.generation h, fun heq => ?_⟩
  have hbounds := wrapI64_bounds (index.currentGeneration + 1)
  rw [← (nextGeneration_spec h).1, heq] at hbounds
  exact Int.lt_of_add_one_le hbounds.2

/-- No stamp lies above the counter. -/
def StampsBelow (index : Index) : Prop := ∀ r ∈ index.videos, r.lastSeen ≤ index.currentGeneration

theorem stampsBelow_openInMemory : StampsBelow openInMemory := fun r hr =>
  absurd hr (Lib.Table.not_mem_empty r)

end Index

end Loku
