import Loku.Media.Probe
import Loku.Index.Rows

/-!
# What a probe pass leaves

A pass in which no index call is refused looks at every row without codec facts once. What it
records for a row depends on that row and its cache entry alone (`probeOutcome`), so the pass
changes each row on its own (`recordAt_probePending`).
-/

namespace Loku

/-- What is recorded for an answer of the runner: a transient failure leaves nothing. -/
def settle : Except ProbeError ProbeResult → Option ProbeResult
  | .ok result => some result
  | .error error => if error.isDefinitive then some {} else none

/-- What the pass records for a candidate. -/
def probeOutcome (runner : ProbeRunner) (libraries : List Library) (index : Index)
    (candidate : ProbeCandidate) : Option ProbeResult :=
  (libraries.find? fun l => l.name == candidate.library).bind fun library =>
    (index.cachedProbe candidate).or (settle (runner (library.path.join candidate.relPath)))

section Pass
variable {runner : ProbeRunner} {libraries : List Library}

theorem probeCandidate_eq (index : Index) (candidate : ProbeCandidate) :
    (probeCandidate Faults.none runner libraries index candidate).1 =
      ((probeOutcome runner libraries index candidate).map (index.recordProbe candidate)).getD
        index := by
  unfold probeCandidate probeOutcome
  cases libraries.find? fun l => l.name == candidate.library with
  | none => rfl
  | some library =>
    have hnone : ∀ call, Faults.none call = false := fun _ => rfl
    simp only [hnone, Bool.false_eq_true, if_false, Option.bind_some]
    cases index.cachedProbe candidate with
    | some cached => rfl
    | none =>
      rw [Option.none_or]
      cases runner (library.path.join candidate.relPath) with
      | ok result => rfl
      | error error =>
        unfold settle recorded
        dsimp only
        cases error.isDefinitive <;> rfl

theorem probeOutcome_congr {index index' : Index} {candidate : ProbeCandidate}
    (h : index'.probeCache.find? candidate.key = index.probeCache.find? candidate.key) :
    probeOutcome runner libraries index' candidate =
      probeOutcome runner libraries index candidate := by
  unfold probeOutcome Index.cachedProbe
  rw [h]

/-- A candidate leaves the rows and the cache entries of the other keys alone. -/
theorem probeCandidate_of_ne {index : Index} {candidate : ProbeCandidate} {k : RowKey}
    (hk : k ≠ candidate.key) :
    (probeCandidate Faults.none runner libraries index candidate).1.recordAt k =
        index.recordAt k ∧
      (probeCandidate Faults.none runner libraries index candidate).1.probeCache.find? k =
        index.probeCache.find? k := by
  rw [probeCandidate_eq]
  cases probeOutcome runner libraries index candidate with
  | none => exact ⟨rfl, rfl⟩
  | some probe =>
    rw [Option.map_some, Option.getD_some]
    refine ⟨?_, Index.find?_probeCache_recordProbe_of_ne index probe hk⟩
    unfold Index.recordAt
    rw [Index.find?_recordProbe]
    simp [hk]

theorem recordAt_probeCandidate_self {index : Index} (candidate : ProbeCandidate) :
    (probeCandidate Faults.none runner libraries index candidate).1.recordAt candidate.key =
      (index.recordAt candidate.key).map fun r =>
        ((probeOutcome runner libraries index candidate).map (Index.withProbe · r)).getD r := by
  rw [probeCandidate_eq]
  cases probeOutcome runner libraries index candidate with
  | none => simp
  | some probe =>
    rw [Option.map_some, Option.getD_some]
    unfold Index.recordAt
    rw [Index.find?_recordProbe, Option.map_map, Option.map_map]
    simp [Function.comp_def]

/-- The pass over a list of candidates with distinct keys. -/
theorem recordAt_foldl_probeStep :
    ∀ (candidates : List ProbeCandidate) (acc : Index × Nat) (k : RowKey),
      (candidates.map ProbeCandidate.key).Nodup →
      (candidates.foldl (probeStep Faults.none runner libraries) acc).1.recordAt k =
        (acc.1.recordAt k).map fun r =>
          ((candidates.find? fun c => c.key = k).bind
            (probeOutcome runner libraries acc.1)).elim r (Index.withProbe · r)
  | [], acc, k, _ => by simp
  | c :: candidates, acc, k, hnodup => by
    rw [List.map_cons, List.nodup_cons] at hnodup
    rw [List.foldl_cons, recordAt_foldl_probeStep candidates _ k hnodup.2, List.find?_cons]
    by_cases hk : c.key = k
    · -- the later candidates have other keys
      have hrest : candidates.find? (fun c => c.key = k) = none := by
        rw [List.find?_eq_none]
        intro c' hc'
        rw [decide_eq_true_iff]
        rintro rfl
        exact hnodup.1 (hk ▸ List.mem_map_of_mem hc')
      subst hk
      rw [hrest]
      unfold probeStep
      dsimp only
      rw [recordAt_probeCandidate_self, Option.map_map]
      simp only [decide_true, Option.bind_none, Option.bind_some, Option.elim_none]
      cases probeOutcome runner libraries acc.1 c <;> rfl
    · have hne : k ≠ c.key := Ne.symm hk
      unfold probeStep
      dsimp only
      rw [(probeCandidate_of_ne hne).1]
      simp only [hk, decide_false]
      cases hfind : candidates.find? fun c => c.key = k with
      | none => rfl
      | some c' =>
        have hc' : c'.key = k := by simpa using List.find?_some hfind
        rw [Option.bind_some, Option.bind_some, probeOutcome_congr]
        rw [hc']
        exact (probeCandidate_of_ne hne).2

theorem mem_videosNeedingProbe {index : Index} {candidate : ProbeCandidate} :
    candidate ∈ index.videosNeedingProbe ↔ ∃ r ∈ index.videos, r.record.codecSource = none ∧
      ProbeCandidate.ofRecord r.record = candidate := by
  unfold Index.videosNeedingProbe
  simp only [List.mem_map, List.mem_insertionSort, List.mem_filter, Lib.Table.mem_def, and_assoc,
    Option.isNone_iff_eq_none]

theorem nodup_videosNeedingProbe (index : Index) :
    (index.videosNeedingProbe.map ProbeCandidate.key).Nodup := by
  unfold Index.videosNeedingProbe
  rw [List.map_map]
  have hrows :
      ((index.videos.rows.filter fun r => r.record.codecSource.isNone).map Row.key).Nodup :=
    index.videos.nodup.sublist (List.filter_sublist.map Row.key)
  exact ((List.perm_insertionSort _ _).map Row.key).nodup_iff.mpr hrows

/-- The pass records its outcome in every row without codec facts. -/
theorem recordAt_probePending (index : Index) (k : RowKey) :
    (probePending Faults.none runner libraries index).1.recordAt k =
      (index.recordAt k).map fun r =>
        if r.codecSource = none then
          (probeOutcome runner libraries index (.ofRecord r)).elim r (Index.withProbe · r)
        else r := by
  have hnone : Faults.none .videosNeedingProbe = false := rfl
  unfold probePending
  rw [hnone, if_neg (by simp), recordAt_foldl_probeStep _ _ _ (nodup_videosNeedingProbe index)]
  cases hrecord : index.recordAt k with
  | none => rfl
  | some r =>
    rw [Option.map_some, Option.map_some]
    obtain ⟨row, hrow, rfl, hkey⟩ := Index.recordAt_eq_some_iff.mp hrecord
    cases hfind : index.videosNeedingProbe.find? fun c => c.key = k with
    | none =>
      have hprobed : row.record.codecSource ≠ none := by
        intro hsource
        rw [List.find?_eq_none] at hfind
        exact hfind _ (mem_videosNeedingProbe.mpr ⟨row, hrow, hsource, rfl⟩)
          (decide_eq_true hkey)
      rw [if_neg hprobed]
      rfl
    | some c =>
      obtain ⟨row', hrow', hsource, rfl⟩ :=
        mem_videosNeedingProbe.mp (List.mem_of_find?_eq_some hfind)
      have hkey' : row'.key = row.key := by
        have h := List.find?_some hfind
        rw [decide_eq_true_iff] at h
        exact h.trans hkey.symm
      have hsame := Lib.Table.eq_of_key_eq _ hrow' hrow hkey'
      subst hsame
      rw [if_pos hsource]
      rfl

end Pass

end Loku
