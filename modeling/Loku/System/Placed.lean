import Loku.System.ServedCopies

/-!
# Rows and their files

In every run of maintenance, the worker and crashes, each row is that of a master in a configured
library: path, parent and disc set are those that the library and the file determine
(`mastersOnly_run`). So a row that comes back under the same path is in the same disc set.
-/

namespace Loku

/-- The columns that say where a record belongs. -/
def VideoRecord.place (record : VideoRecord) : String × String × String × Option String :=
  (record.library, record.relPath, record.parent, record.discSet)

/-- Where a master belongs. -/
def Library.place (library : Library) (dir : Path) (video : FileName) :
    String × String × String × Option String :=
  (library.name, Path.relText (dir ++ [video]), dir.relText,
    if library.kind = .discs then some (parseRipName video.text).pfx else none)

def IsMaster (libraries : List Library) (record : VideoRecord) : Prop :=
  ∃ library ∈ libraries, ∃ dir video, record.place = library.place dir video

theorem isMaster_collect {decoders : Decoders} {t : FileTree} {libraries : List Library}
    {library : Library} (hlibrary : library ∈ libraries) {root dir : Path} (hdir : root <+: dir)
    {record : VideoRecord} (hrecord : record ∈ collectDirectory decoders t library root dir) :
    IsMaster libraries record := by
  obtain ⟨video, -, hbuild⟩ := mem_collectDirectory.mp hrecord
  obtain ⟨rel, rfl⟩ := hdir
  unfold buildRecord at hbuild
  obtain ⟨data, -, rfl⟩ := Option.map_eq_some_iff.mp hbuild
  refine ⟨library, hlibrary, rel, video, ?_⟩
  unfold VideoRecord.place Library.place
  dsimp only
  rw [List.append_assoc, relativeOf_append, relativeOf_append]
  split <;> rfl

/-- Two masters of one path are in the same disc set. -/
theorem IsMaster.discSet_eq {libraries : List Library}
    (hnames : (libraries.map Library.name).Nodup) {record record' : VideoRecord}
    (h : IsMaster libraries record) (h' : IsMaster libraries record')
    (hkey : record.key = record'.key) : record.discSet = record'.discSet := by
  obtain ⟨library, hlibrary, dir, video, hplace⟩ := h
  obtain ⟨library', hlibrary', dir', video', hplace'⟩ := h'
  simp only [VideoRecord.place, Library.place, Prod.mk.injEq] at hplace hplace'
  obtain ⟨hname, hpath, -, hset⟩ := hplace
  obtain ⟨hname', hpath', -, hset'⟩ := hplace'
  have hlib : record.library = record'.library := congrArg Prod.fst hkey
  have hrel : record.relPath = record'.relPath := congrArg Prod.snd hkey
  obtain rfl : library = library' := List.inj_on_of_nodup_map hnames hlibrary hlibrary'
    (hname.symm.trans (hlib.trans hname'))
  have hsame := Path.relText_inj.mp (hpath.symm.trans (hrel.trans hpath'))
  obtain rfl : video = video' := List.singleton_inj.mp (List.append_inj' hsame rfl).2
  rw [hset, hset']

/-! ## Runs -/

/-- The rows and the records that wait to be written are of masters. -/
structure MastersOnly (libraries : List Library) (s : DerivationSystem) : Prop where
  rows : RowsSatisfy (IsMaster libraries) s.index
  collected : ∀ snapshot, s.snapshot = some snapshot → ∀ record ∈ snapshot.records,
    IsMaster libraries record

section
variable {decoders : Decoders} {libraries : List Library} {s s' : DerivationSystem}

/-- A step that brings no records. -/
theorem MastersOnly.of_rows (h : MastersOnly libraries s)
    (hrows : RowsSatisfy (IsMaster libraries) s'.index)
    (hsnapshot : s'.snapshot = s.snapshot ∨ s'.snapshot = none) : MastersOnly libraries s' where
  rows := hrows
  collected snapshot hcollected := by
    rcases hsnapshot with hsame | hnone
    · exact h.collected snapshot (hsame ▸ hcollected)
    · rw [hnone] at hcollected
      cases hcollected

theorem rowsSatisfy_recordJobFailure {P : VideoRecord → Prop} {index : Index}
    (h : RowsSatisfy P index) (record : VideoRecord) (error : JobError) :
    RowsSatisfy P (recordJobFailure {} index record error) := h

theorem MastersOnly.thumbnailStep (h : MastersOnly libraries s) (outcome : JobOutcome)
    (job : Job) : RowsSatisfy (IsMaster libraries) (thumbnailStep {} outcome s.index job) := by
  unfold Loku.thumbnailStep
  split
  · split
    · exact forall_mem_updateRecord (f := Index.withThumb _) (fun _ => rfl) (fun _ => id) h.rows
    · exact rowsSatisfy_recordJobFailure h.rows job.record _
  · exact h.rows

theorem MastersOnly.reconcile (h : MastersOnly libraries s) {snapshot : Snapshot}
    {generation : Int} {index : Index} (hsnapshot : s.snapshot = some snapshot)
    (hok : s.index.reconcileDirectory snapshot.library.name snapshot.parent snapshot.records
      generation = .ok index) : RowsSatisfy (IsMaster libraries) index := by
  intro r hr
  rcases Index.row_of_reconcileDirectory snapshot.valid hok hr with
    ⟨record, hrecord, hkey, hrow, -⟩ | ⟨hold, -⟩
  · have hcolumns : r.record.parent = record.parent ∧ r.record.discSet = record.discSet := by
      rw [hrow]
      cases s.index.recordAt r.key <;> exact ⟨rfl, rfl⟩
    have hlib : record.library = r.record.library := congrArg Prod.fst hkey
    have hrel : record.relPath = r.record.relPath := congrArg Prod.snd hkey
    have hplace : r.record.place = record.place := by
      unfold VideoRecord.place
      rw [hlib, hrel, hcolumns.1, hcolumns.2]
    obtain ⟨library, hlibrary, dir, video, hmaster⟩ := h.collected snapshot hsnapshot record hrecord
    exact ⟨library, hlibrary, dir, video, hplace.trans hmaster⟩
  · exact h.rows r hold

theorem MastersOnly.derivationStep {a : DerivationAction} (h : MastersOnly libraries s)
    (hstep : DerivationStep decoders libraries s a s') : MastersOnly libraries s' := by
  cases hstep with
  | collect hlibrary hroot hdir =>
    refine ⟨h.rows, ?_⟩
    rintro _ ⟨⟩ record hrecord
    exact isMaster_collect hlibrary hdir hrecord
  | reconcile hsnapshot hok => exact h.of_rows (h.reconcile hsnapshot hok) (.inr rfl)
  | dropSnapshot => exact h.of_rows h.rows (.inr rfl)
  | nextGeneration hnext => exact h.of_rows (h.rows.nextGeneration hnext) (.inl rfl)
  | removeUnseen library generation =>
    exact h.of_rows (fun r hr => h.rows r (Lib.Table.mem_delete.mp hr).1) (.inl rfl)
  | removeTree library dirRel =>
    exact h.of_rows (fun r hr => h.rows r (Lib.Table.mem_delete.mp hr).1) (.inl rfl)
  | recordProbe candidate probe =>
    have hrows : RowsSatisfy (IsMaster libraries) (s.index.recordProbe candidate probe) :=
      forall_mem_updateRecord (f := Index.withProbe probe) (fun _ => rfl) (fun _ => id) h.rows
    exact h.of_rows hrows (.inl rfl)
  | @setCompat job hworker =>
    have hrows : RowsSatisfy (IsMaster libraries) (recordCompat {} s.index job) :=
      forall_mem_updateRecord (f := Index.withCompat _) (fun _ => rfl) (fun _ => id) h.rows
    exact h.of_rows hrows (.inl rfl)
  | thumbnail outcome hworker => exact h.of_rows (h.thumbnailStep outcome _) (.inl rfl)
  | runnerFails error hworker =>
    exact h.of_rows (rowsSatisfy_recordJobFailure h.rows _ _) (.inl rfl)
  | renameFails path source hworker =>
    exact h.of_rows (rowsSatisfy_recordJobFailure h.rows _ _) (.inl rfl)
  | crash => exact h.of_rows h.rows (.inr rfl)
  | _ => exact h.of_rows h.rows (.inl rfl)

theorem mastersOnly_run {t : FileTree} {actions : List (Option DerivationAction)}
    (hrun : Lib.Run (CopyStep decoders libraries) (derivationStart t) actions s) :
    MastersOnly libraries s := by
  refine hrun.invariant (I := MastersOnly libraries) (fun s a s' h hstep => ?_) ?_
  · cases hstep with
    | step hstep _ _ => exact h.derivationStep hstep
    | files t hfree hkept => exact h.of_rows h.rows (.inl rfl)
  · refine ⟨fun r hr => absurd hr (Lib.Table.not_mem_empty r), ?_⟩
    rintro _ ⟨⟩

end

end Loku
