import Loku.Index.Collect

/-!
# Columns that the upsert may keep

A record is its copied columns and its `KeptColumns`: the codec facts and the duration, which
the conflict clause takes from the old row when the new record does not state them and the
size and mtime are unchanged. A probe pass fills the same columns. `passed_writtenOver_true_iff`
says when keeping them and probing gives what probing alone gives.
-/

namespace Loku

structure KeptColumns where
  durationSecs : Option F64
  vcodec : Option String
  acodec : Option String
  vprofile : Option String
  fieldOrder : Option String
  codecSource : Option CodecSource
deriving DecidableEq

def kept (r : VideoRecord) : KeptColumns :=
  ⟨r.durationSecs, r.vcodec, r.acodec, r.vprofile, r.fieldOrder, r.codecSource⟩

theorem eq_iff_kept {r r' : VideoRecord} (h : copied r = copied r')
    (herror : r.derivationError = r'.derivationError) : r = r' ↔ kept r = kept r' := by
  constructor
  · rintro rfl
    rfl
  · intro hkept
    cases r
    cases r'
    simp only [copied, kept, VideoRecord.mk.injEq, KeptColumns.mk.injEq] at *
    simp only [*, and_self]

/-! ## A probe pass -/

/-- The record that a probe pass leaves which finds `probe` for it. -/
def passed (probe : ProbeResult) (r : VideoRecord) : VideoRecord :=
  if r.codecSource = none then Index.withProbe probe r else r

theorem copied_passed (probe : ProbeResult) (r : VideoRecord) :
    copied (passed probe r) = copied r := by
  unfold passed
  split <;> rfl

theorem derivationError_passed (probe : ProbeResult) (r : VideoRecord) :
    (passed probe r).derivationError = r.derivationError := by
  unfold passed
  split <;> rfl

namespace KeptColumns

/-- What a probe pass does to these columns. -/
def passed (probe : ProbeResult) (c : KeptColumns) : KeptColumns :=
  if c.codecSource = none then
    ⟨c.durationSecs.or (Index.sqlReal probe.durationSecs), probe.vcodec, probe.acodec,
      probe.vprofile, probe.fieldOrder, some .ffprobe⟩
  else c

/-- What the conflict clause does to them. -/
def writtenOver (c old : KeptColumns) (unchanged : Bool) : KeptColumns :=
  let keep := fun {α : Type} (column : KeptColumns → Option α) =>
    if c.codecSource.isSome then column c else if unchanged then column old else none
  ⟨c.durationSecs.or (if unchanged then old.durationSecs else none), keep vcodec, keep acodec,
    keep vprofile, keep fieldOrder, keep codecSource⟩

end KeptColumns

theorem kept_passed (probe : ProbeResult) (r : VideoRecord) :
    kept (passed probe r) = (kept r).passed probe := by
  unfold passed KeptColumns.passed
  by_cases h : r.codecSource = none
  · have hkept : (kept r).codecSource = none := h
    rw [if_pos h, if_pos hkept]
    rfl
  · have hkept : (kept r).codecSource ≠ none := h
    rw [if_neg h, if_neg hkept]

theorem kept_written_some (record o : VideoRecord) :
    kept (Index.written record (some o)) =
      (kept (Index.stored record)).writtenOver (kept o)
        (Index.unchanged (Index.stored record) o) := by
  unfold Index.written Index.conflictUpdate Index.keepDuration Index.keepCodec
    KeptColumns.writtenOver kept
  cases (Index.stored record).durationSecs <;> rfl

namespace KeptColumns

/-- Columns of another content are overwritten. -/
theorem passed_writtenOver_false (probe : ProbeResult) (c old : KeptColumns) :
    (c.writtenOver old false).passed probe = c.passed probe := by
  obtain ⟨duration, vcodec, acodec, vprofile, fieldOrder, source⟩ := c
  unfold writtenOver passed
  cases source <;> simp

/-- Columns that are marked as probed are those of a probe. -/
structure FromProbe (probe : ProbeResult) (c : KeptColumns) : Prop where
  codecs : c.codecSource = some .ffprobe → c.vcodec = probe.vcodec ∧ c.acodec = probe.acodec ∧
    c.vprofile = probe.vprofile ∧ c.fieldOrder = probe.fieldOrder
  duration : c.codecSource = some .ffprobe → c.durationSecs = none →
    Index.sqlReal probe.durationSecs = none

/-- What the old columns state is still stated: codec facts from `info.json` by a current one,
and a duration by a current sidecar or by the probe of a file whose `info.json` states no codec
facts. -/
structure StillStated (probe : ProbeResult) (c old : KeptColumns) : Prop where
  codecs : old.codecSource = some .infoJson → c.codecSource ≠ none
  duration : c.durationSecs = none → old.durationSecs ≠ none →
    c.codecSource = none ∧ old.durationSecs = Index.sqlReal probe.durationSecs

theorem passed_writtenOver_true_iff {probe : ProbeResult} {c old : KeptColumns}
    (hold : old.FromProbe probe) :
    (c.writtenOver old true).passed probe = c.passed probe ↔ StillStated probe c old := by
  have hstated : StillStated probe c old ↔
      (old.codecSource = some .infoJson → c.codecSource ≠ none) ∧
        (c.durationSecs = none → old.durationSecs ≠ none →
          c.codecSource = none ∧ old.durationSecs = Index.sqlReal probe.durationSecs) :=
    ⟨fun h => ⟨h.1, h.2⟩, fun h => ⟨h.1, h.2⟩⟩
  obtain ⟨hcodecs, hduration⟩ := hold
  rw [hstated]
  obtain ⟨duration, vcodec, acodec, vprofile, fieldOrder, source⟩ := c
  obtain ⟨duration', vcodec', acodec', vprofile', fieldOrder', source'⟩ := old
  unfold writtenOver passed
  dsimp only at *
  generalize Index.sqlReal probe.durationSecs = found at *
  cases source with
  | some s =>
    -- codec facts in the sidecar: only the duration can be the old one
    cases duration <;> cases duration' <;> simp
  | none =>
    rcases source' with _ | _ | _
    · -- not probed yet, so it is probed now
      cases duration <;> cases duration' <;> cases found <;> simp
    · -- codec facts of a sidecar that states none any more
      simp
    · obtain ⟨rfl, rfl, rfl, rfl⟩ := hcodecs rfl
      have hfound := hduration rfl
      cases duration <;> cases duration' <;> simp_all

/-- The conflict clause keeps probed columns of the same content, or takes none. -/
theorem FromProbe.writtenOver_true {probe : ProbeResult} {c old : KeptColumns}
    (hold : old.FromProbe probe) (hc : c.codecSource ≠ some .ffprobe) :
    (c.writtenOver old true).FromProbe probe := by
  obtain ⟨duration, vcodec, acodec, vprofile, fieldOrder, source⟩ := c
  cases source with
  | some s =>
    exact ⟨fun h => absurd h hc, fun h => absurd h hc⟩
  | none =>
    refine ⟨hold.codecs, fun h hnone => hold.duration h ?_⟩
    cases duration with
    | none => exact hnone
    | some d => cases hnone

/-- Columns that are not marked as probed. -/
theorem FromProbe.of_ne {probe : ProbeResult} {c : KeptColumns}
    (h : c.codecSource ≠ some .ffprobe) : c.FromProbe probe :=
  ⟨fun he => absurd he h, fun he => absurd he h⟩

theorem FromProbe.passed (probe : ProbeResult) {c : KeptColumns} (h : c.codecSource = none) :
    (c.passed probe).FromProbe probe := by
  unfold KeptColumns.passed
  rw [if_pos h]
  exact ⟨fun _ => ⟨rfl, rfl, rfl, rfl⟩, fun _ hnone => (Option.or_eq_none_iff.mp hnone).2⟩

end KeptColumns

/-- Writing a record over an old row and probing gives what probing the record alone gives,
exactly if the old row is of another content or states nothing stale. -/
theorem passed_written_iff {probe : ProbeResult} {record : VideoRecord}
    {old : Option VideoRecord} (hkey : ∀ o ∈ old, o.key = record.key)
    (hold : ∀ o ∈ old, Index.unchanged (Index.stored record) o = true →
      (kept o).FromProbe probe) :
    passed probe (Index.written record old) = passed probe (Index.stored record) ↔
      ∀ o ∈ old, Index.unchanged (Index.stored record) o = true →
        (kept (Index.stored record)).StillStated probe (kept o) := by
  cases old with
  | none => simp [Index.written]
  | some o =>
    have hcopied : copied (passed probe (Index.written record (some o))) =
        copied (passed probe (Index.stored record)) := by
      rw [copied_passed, copied_passed, copied_written hkey]
      rfl
    have herror : (passed probe (Index.written record (some o))).derivationError =
        (passed probe (Index.stored record)).derivationError := by
      rw [derivationError_passed, derivationError_passed]
      rfl
    rw [eq_iff_kept hcopied herror, kept_passed, kept_passed, kept_written_some]
    simp only [Option.mem_def, Option.some.injEq, forall_eq']
    cases hun : Index.unchanged (Index.stored record) o with
    | false => simp [KeptColumns.passed_writtenOver_false]
    | true =>
      rw [KeptColumns.passed_writtenOver_true_iff (hold o rfl hun)]
      simp
end Loku
