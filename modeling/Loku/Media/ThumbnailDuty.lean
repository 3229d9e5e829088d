import Loku.Media.Drain

/-!
# Which thumbnails the worker leaves out

The planner asks for a thumbnail of every playable video, but the store's query offers only
rows without a compat copy. A row that has a compat copy, codec facts, no thumbnail and no
recorded failure is therefore never taken on: it is a gap. Attempts neither make nor close a
gap (`gap_processNext`), so when the worker stops its thumbnail duty is done if and only if
there was no gap of a configured library to begin with (`thumbnails_complete_iff`).
-/

namespace Loku

/-- The row under a key has a compat copy and codec facts, but neither a thumbnail nor a
recorded failure of its content. -/
def Gap (index : Index) (k : RowKey) : Prop :=
  ∃ r, index.videos.find? k = some r ∧ r.record.compatRelPath ≠ none ∧
    r.record.codecSource ≠ none ∧ r.record.thumbRelPath = none ∧ index.failureOf r.record = none

theorem gap_congr {index index' : Index} {k : RowKey} (h : AgreeAt index index' k) :
    Gap index' k ↔ Gap index k := by
  unfold Gap
  rw [h.1]
  apply exists_congr
  intro r
  apply and_congr_right
  intro hr
  have hkey : r.record.key = k := (Lib.Table.find?_eq_some_iff.mp hr).2
  rw [failureOf_congr (hkey ▸ h)]

/-! ## A job leaves no gap -/

section Job
variable {outcome : JobOutcome} {index : Index} {job : Job}

theorem thumbnailStep_closes {r : Row}
    (hr : (thumbnailStep {} outcome index job).videos.find? job.record.key = some r)
    (hsame : ∀ r₀, index.videos.find? job.record.key = some r₀ →
      r₀.record.size = job.record.size ∧ r₀.record.mtime = job.record.mtime ∧
        r₀.record.thumbRelPath = job.record.thumbRelPath) :
    r.record.thumbRelPath ≠ none ∨
      (thumbnailStep {} outcome index job).failureOf r.record ≠ none := by
  rcases thumbnailStep_cases {} outcome index job with ⟨hsome, hstep⟩ | ⟨-, hrefused, -⟩ |
    ⟨-, -, -, hstep⟩ | ⟨error, -, -, hstep⟩
  · left
    rw [hstep] at hr
    rwa [(hsame r hr).2.2]
  · cases hrefused
  · left
    have hself : job.record.key = (job.record.library, job.record.relPath) := rfl
    rw [hstep, Index.find?_setThumb] at hr
    obtain ⟨r₀, -, rfl⟩ := Option.map_eq_some_iff.mp hr
    rw [if_pos hself]
    exact Option.some_ne_none _
  · right
    rw [hstep] at hr ⊢
    obtain ⟨hsize, hmtime, -⟩ := hsame r hr
    have hkey : r.record.key = job.record.key := (Lib.Table.find?_eq_some_iff.mp hr).2
    have hfailure := failureOf_recordJobFailure index job.record error
    unfold Index.failureOf at hfailure ⊢
    rwa [hkey, hsize, hmtime]

theorem not_gap_runJob {libraries : List Library} {r : Row}
    (hr : index.videos.find? r.key = some r) (heligible : isEligible libraries index r = true)
    (hrecord : job.record = index.recordFromRow r) :
    ¬ Gap (runJob {} outcome index job) job.record.key := by
  have hkey : job.record.key = r.key := by
    rw [hrecord]
    rfl
  have hcompat : r.record.compatRelPath = none :=
    (isCandidate_iff.mp (isEligible_iff.mp heligible).1).1
  have hsame : ∀ r₀, index.videos.find? job.record.key = some r₀ →
      r₀.record.size = job.record.size ∧ r₀.record.mtime = job.record.mtime ∧
        r₀.record.thumbRelPath = job.record.thumbRelPath := by
    intro r₀ hr₀
    rw [hkey, hr] at hr₀
    cases hr₀
    rw [hrecord]
    exact ⟨rfl, rfl, rfl⟩
  rintro ⟨r', hr', hcompat', -, hthumb, hfailure⟩
  rcases runJob_cases {} outcome index job with ⟨-, hrun⟩ | ⟨plan, -, -, hrun⟩ |
    ⟨plan, error, -, -, hrun⟩
  · rw [hrun] at hr' hfailure
    exact (thumbnailStep_closes hr' hsame).elim (fun h => h hthumb) fun h => h hfailure
  · rw [hrun] at hr' hfailure
    have hafter : ∀ r₀, (recordCompat {} index job).videos.find? job.record.key = some r₀ →
        r₀.record.size = job.record.size ∧ r₀.record.mtime = job.record.mtime ∧
          r₀.record.thumbRelPath = job.record.thumbRelPath := by
      intro r₀ hr₀
      have hself : job.record.key = (job.record.library, job.record.relPath) := rfl
      unfold recordCompat at hr₀
      rw [if_neg (by decide), Index.find?_setCompat] at hr₀
      obtain ⟨r₁, hr₁, rfl⟩ := Option.map_eq_some_iff.mp hr₀
      rw [if_pos hself]
      exact hsame r₁ hr₁
    exact (thumbnailStep_closes hr' hafter).elim (fun h => h hthumb) fun h => h hfailure
  · rw [hrun, hkey] at hr'
    cases hr.symm.trans hr'
    exact hcompat' hcompat

end Job

/-! ## The loop -/

section Loop
variable {libraries : List Library} {outcomes : Nat → JobOutcome} {index : Index}

/-- An attempt neither makes nor closes a gap. -/
theorem gap_processNext {outcome : JobOutcome} {k : RowKey} :
    Gap (processNext libraries {} outcome index).1 k ↔ Gap index k := by
  unfold processNext
  cases hjob : nextJob libraries index with
  | none => rfl
  | some job =>
    dsimp only
    obtain ⟨r, hr, heligible, hrecord, -⟩ := nextJob_eq_some hjob
    by_cases hk : k = job.record.key
    · subst hk
      refine iff_of_false (not_gap_runJob hr heligible hrecord) ?_
      rintro ⟨r', hr', hcompat, -⟩
      have hkey : job.record.key = r.key := by
        rw [hrecord]
        rfl
      rw [hkey, hr] at hr'
      cases hr'
      rw [not_isEligible_of_compat hcompat] at heligible
      cases heligible
    · exact gap_congr (agreeAt_runJob hk)

theorem gap_workerState (n : Nat) {k : RowKey} :
    Gap (workerState libraries outcomes index n) k ↔ Gap index k := by
  induction n with
  | zero => rfl
  | succ n ih => exact gap_processNext.trans ih

/-- Where the worker stops, a playable row lacks both thumbnail and failure only as a gap. -/
theorem gap_of_stopped {r : Row} (hstop : nextJob libraries index = none)
    (hr : r ∈ index.videos) (hconfigured : configured libraries r.record.library = true)
    (hfacts : r.record.codecSource ≠ none)
    (hdecide : decideDerivation (.ofRecord r.record r.record.compatRelPath.isSome) = .notNeeded)
    (hthumb : r.record.thumbRelPath = none) (hfailure : index.failureOf r.record = none) :
    Gap index r.key := by
  refine ⟨r, Lib.Table.find?_key hr, ?_, hfacts, hthumb, hfailure⟩
  intro hcompat
  have hwork : hasWork r.record = true := by
    unfold hasWork
    rw [hdecide, hthumb]
    rfl
  exact not_hasWork_of_nextJob_eq_none hstop hr hconfigured
    (isCandidate_iff.mpr ⟨hcompat, hfacts, hfailure⟩) hwork

/-- With no other writer and every index write succeeding: once `processNext` returns false,
every playable configured row with codec facts has a thumbnail or a recorded failure, if and
only if at the start every such row with a compat copy had one or the other. -/
theorem thumbnails_complete_iff (n : Nat)
    (hstop : (processNext libraries {} (outcomes n)
      (workerState libraries outcomes index n)).2 = false) :
    (∀ r ∈ (workerState libraries outcomes index n).videos,
        configured libraries r.record.library = true → r.record.codecSource ≠ none →
        decideDerivation (.ofRecord r.record r.record.compatRelPath.isSome) = .notNeeded →
        r.record.thumbRelPath ≠ none ∨
          (workerState libraries outcomes index n).failureOf r.record ≠ none) ↔
      ∀ r ∈ index.videos, configured libraries r.record.library = true →
        r.record.codecSource ≠ none → r.record.compatRelPath ≠ none →
        r.record.thumbRelPath ≠ none ∨ index.failureOf r.record ≠ none := by
  have hnone : nextJob libraries (workerState libraries outcomes index n) = none := by
    unfold processNext at hstop
    split at hstop
    · assumption
    · cases hstop
  constructor
  · intro h r hr hconfigured hfacts hcompat
    by_contra hnot
    rw [not_or, not_not, not_not] at hnot
    obtain ⟨r', hr', hcompat', hfacts', hthumb', hfailure'⟩ :=
      (gap_workerState n).mpr ⟨r, Lib.Table.find?_key hr, hcompat, hfacts, hnot.1, hnot.2⟩
    obtain ⟨hmem', hkey'⟩ := Lib.Table.find?_eq_some_iff.mp hr'
    have hlib : r'.record.library = r.record.library := congrArg Prod.fst hkey'
    rcases h r' hmem' (hlib ▸ hconfigured) hfacts'
      (decideDerivation_of_hasCompat (Option.isSome_iff_ne_none.mpr hcompat')) with h | h
    · exact h hthumb'
    · exact h hfailure'
  · intro h r hr hconfigured hfacts hdecide
    by_contra hnot
    rw [not_or, not_not, not_not] at hnot
    obtain ⟨r', hr', hcompat', hfacts', hthumb', hfailure'⟩ :=
      (gap_workerState n).mp (gap_of_stopped hnone hr hconfigured hfacts hdecide hnot.1 hnot.2)
    obtain ⟨hmem', hkey'⟩ := Lib.Table.find?_eq_some_iff.mp hr'
    have hlib : r'.record.library = r.record.library := congrArg Prod.fst hkey'
    rcases h r' hmem' (hlib ▸ hconfigured) hfacts' hcompat' with h | h
    · exact h hthumb'
    · exact h hfailure'

end Loop

/-! ## A compat copy made elsewhere -/

namespace ForeignCompat

/-- A disc rip whose compat copy was there when it was first scanned. -/
def record : VideoRecord where
  library := "movies"
  relPath := "Movie.mkv"
  parent := ""
  fileName := "Movie.mkv"
  size := 3
  mtime := 0
  title := none
  titleSource := none
  durationSecs := none
  uploadDate := none
  year := none
  description := none
  channel := none
  channelUrl := none
  webpageUrl := none
  viewCount := none
  genres := []
  container := "mkv"
  vcodec := some "mpeg2video"
  acodec := some "ac3"
  vprofile := none
  fieldOrder := none
  codecSource := some .ffprobe
  thumbRelPath := none
  compatRelPath := some "Movie.compat.mp4"
  discSet := some "Movie"
  discTitleIndex := none
  derivationError := none

def index : Index :=
  { Index.openInMemory with
    videos := ⟨[⟨1, record, 1⟩], by decide⟩
    scanGeneration := some "1" }

def libraries : List Library := [⟨"movies", [OneVideo.lib], .discs⟩]

def outcomes : Nat → JobOutcome := fun _ => ⟨.ok (), .ok ()⟩

theorem thumbnails_complete_iff_foreignCompat :
    (∀ r ∈ (workerState libraries outcomes index 0).videos,
        configured libraries r.record.library = true → r.record.codecSource ≠ none →
        decideDerivation (.ofRecord r.record r.record.compatRelPath.isSome) = .notNeeded →
        r.record.thumbRelPath ≠ none ∨
          (workerState libraries outcomes index 0).failureOf r.record ≠ none) ↔
      ∀ r ∈ index.videos, configured libraries r.record.library = true →
        r.record.codecSource ≠ none → r.record.compatRelPath ≠ none →
        r.record.thumbRelPath ≠ none ∨ index.failureOf r.record ≠ none :=
  thumbnails_complete_iff 0 (by decide)

theorem thumbnails_incomplete :
    ¬ ∀ (libraries : List Library) (outcomes : Nat → JobOutcome) (index : Index) (n : Nat),
      (processNext libraries {} (outcomes n)
        (workerState libraries outcomes index n)).2 = false →
      ∀ r ∈ (workerState libraries outcomes index n).videos,
        configured libraries r.record.library = true → r.record.codecSource ≠ none →
        decideDerivation (.ofRecord r.record r.record.compatRelPath.isSome) = .notNeeded →
        r.record.thumbRelPath ≠ none ∨
          (workerState libraries outcomes index n).failureOf r.record ≠ none := by
  intro h
  have hrow := h libraries outcomes index 0 (by decide) ⟨1, record, 1⟩ List.mem_cons_self
    (by decide) (by decide) (by decide)
  exact absurd hrow (by decide)

end ForeignCompat

end Loku
