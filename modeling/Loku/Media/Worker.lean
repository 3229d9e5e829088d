import Loku.Media.Ffmpeg
import Loku.Media.Sidecars

/-!
# The derivation worker

`processNext` lists the candidates, picks the first job that the planner confirms, disc
libraries first, and runs it: a compat copy, then a missing thumbnail, or a thumbnail alone.
An output goes to a `.part` beside the master and is renamed into place.

What the runner and the rename do in one job is its `JobOutcome`; the index calls of the job
may be refused (`Refusals`), which is logged and otherwise ignored.
-/

namespace Loku

structure ActiveDerivation where
  library : String
  relPath : String
deriving DecidableEq

inductive JobError
  | derive (error : DeriveError)
  | finalizeRename (path source : String)
deriving DecidableEq

def JobError.text : JobError → String
  | .derive error => error.text
  | .finalizeRename path source =>
    "Failed to move finished derivation into place at '" ++ path ++ "': " ++ source

/-! ## Paths -/

/-- The sidecar name of a source path. -/
def siblingName (source : Path) (suffix : Suffix) : FileName :=
  match source.getLast? with
  | some video => video.sidecar suffix
  | none => suffix.fileName

/-- The `.part` staging path and the final path for a sidecar of `source`. -/
def siblingPaths (source : Path) (suffix : Suffix) : Path × Path :=
  (source.dropLast ++ [siblingName source suffix.part],
    source.dropLast ++ [siblingName source suffix])

/-- The relative path with its file name swapped. -/
def siblingRel (relPath : String) (name : FileName) : String :=
  Path.relText ((Path.components relPath).dropLast ++ [name])

/-- The file a record names. -/
def sourcePath (library : Library) (record : VideoRecord) : Path :=
  library.path.join record.relPath

/-- A sibling is named by some stem and the suffix. -/
theorem toList_siblingName (source : Path) (suffix : Suffix) :
    ∃ stem, (siblingName source suffix).text.toList = stem ++ suffix.text.toList := by
  unfold siblingName
  cases source.getLast? with
  | none => exact ⟨[], rfl⟩
  | some video => exact ⟨video.fileStem.toList, String.toList_append⟩

theorem suffix_siblingName (source : Path) (suffix : Suffix) :
    suffix.text.toList <:+ (siblingName source suffix).text.toList := by
  obtain ⟨stem, hstem⟩ := toList_siblingName source suffix
  rw [hstem]
  exact List.suffix_append _ _

/-- A staging name ends in `.part`. -/
theorem toList_staging (source : Path) (suffix : Suffix) :
    ∃ stem, (siblingName source suffix.part).text.toList = stem ++ '.' :: "part".toList := by
  obtain ⟨stem, hstem⟩ := toList_siblingName source suffix.part
  refine ⟨stem ++ suffix.text.toList, ?_⟩
  rw [List.append_assoc]
  exact hstem.trans (congrArg (stem ++ ·) String.toList_append)

/-- So it has no other ending. -/
theorem not_suffix_staging {ending : List Char} (h : ¬ ending <:+ ".part".toList)
    (h' : ¬ ".part".toList <:+ ending) (source : Path) (suffix : Suffix) :
    ¬ ending <:+ (siblingName source suffix.part).text.toList := by
  intro hending
  obtain ⟨stem, hstem⟩ := toList_staging source suffix
  have hpart : ".part".toList <:+ (siblingName source suffix.part).text.toList := by
    rw [hstem]
    exact List.suffix_append _ _
  exact (List.suffix_or_suffix_of_suffix hending hpart).elim h h'

theorem siblingPaths_concat (dir : Path) (video : FileName) (suffix : Suffix) :
    siblingPaths (dir ++ [video]) suffix =
      (sidecarPath dir video suffix.part, sidecarPath dir video suffix) := by
  unfold siblingPaths siblingName sidecarPath
  rw [List.dropLast_concat, List.getLast?_concat]

theorem siblingPaths_relText (library : Library) (rel : Path) (video : FileName)
    (suffix : Suffix) :
    (siblingPaths (library.path.join (Path.relText (rel ++ [video]))) suffix).2 =
      library.path ++ rel ++ [video.sidecar suffix] := by
  rw [Path.join_relText, ← List.append_assoc, siblingPaths_concat]
  rfl

theorem siblingRel_relText (library : Library) (rel : Path) (video : FileName) (suffix : Suffix) :
    siblingRel (Path.relText (rel ++ [video]))
      (siblingName (library.path.join (Path.relText (rel ++ [video]))) suffix) =
        Path.relText (rel ++ [video.sidecar suffix]) := by
  unfold siblingRel siblingName
  rw [Path.join_relText, Path.components_relText, List.dropLast_concat, ← List.append_assoc,
    List.getLast?_concat]

/-- The seek time of a thumbnail: a tenth into the video, at least one second. -/
def thumbnailSeek (durationSecs : Option F64) : F64 :=
  match durationSecs with
  | none => .finite 1
  | some d => (d.scale F64.tenth).atLeast 1

/-- A thumbnail is never sought before the first second, whatever the duration is said to be. -/
theorem thumbnailSeek_bound (durationSecs : Option F64) :
    thumbnailSeek durationSecs = .infinite false ∨
      ∃ q, thumbnailSeek durationSecs = .finite q ∧ 1 ≤ q := by
  cases durationSecs with
  | none => exact Or.inr ⟨1, rfl, le_rfl⟩
  | some d =>
    cases d with
    | finite q =>
      change F64.atLeast 1 (.finite _) = _ ∨ ∃ _, F64.atLeast 1 (.finite _) = _ ∧ _
      unfold F64.atLeast
      dsimp only
      split
      · exact Or.inr ⟨1, rfl, le_rfl⟩
      · rename_i hlarge
        exact Or.inr ⟨_, rfl, (not_le.mp hlarge).le⟩
    | infinite negative =>
      cases negative
      · exact Or.inl rfl
      · exact Or.inr ⟨1, rfl, le_rfl⟩
    | nan => exact Or.inr ⟨1, rfl, le_rfl⟩

/-- The ffmpeg command of `derive_compat`: into the staging path of the compat copy. -/
def compatCommand (source : Path) (plan : CompatPlan) : List String :=
  deriveCompatArgs source (siblingPaths source compatSuffix).1 plan

/-- The ffmpeg command of `extract_thumbnail`: into the staging path of the thumbnail. -/
def thumbnailCommand (source : Path) (atSecs : F64) : List String :=
  extractThumbnailArgs source (siblingPaths source jpgSuffix).1 atSecs

/-! ## Choosing a job -/

structure Job where
  library : Library
  record : VideoRecord
  plan : Option CompatPlan
deriving DecidableEq

/-- Disc rips first. -/
def orderedLibraries (libraries : List Library) : List Library :=
  libraries.filter (fun l => l.kind == .discs) ++ libraries.filter fun l => l.kind != .discs

/-- The job for a candidate, if the planner finds one. -/
def jobFor (library : Library) (record : VideoRecord) : Option Job :=
  match decideDerivation (.ofRecord record record.compatRelPath.isSome) with
  | .produce plan => some ⟨library, record, some plan⟩
  | .notNeeded => if record.thumbRelPath.isNone then some ⟨library, record, none⟩ else none
  | .unplannable => none

/-- The first job among the candidates, library by library. -/
def chooseJob (libraries : List Library) (candidates : List VideoRecord) : Option Job :=
  ((orderedLibraries libraries).flatMap fun library =>
    (candidates.filter fun record => record.library == library.name).map fun record =>
      (library, record)).findSome? fun c => jobFor c.1 c.2

/-- The job that `process_next` takes on. -/
def nextJob (libraries : List Library) (index : Index) : Option Job :=
  chooseJob libraries index.derivationCandidates

/-! ## Running it -/

/-- How the two derivations of a job end, should they be attempted. -/
structure JobOutcome where
  compat : Except JobError Unit
  thumb : Except JobError Unit

/-- Which index calls of a job are refused. -/
structure Refusals where
  setCompat : Bool := false
  setThumb : Bool := false
  recordFailure : Bool := false

/-- Record a failure for the content the job saw. -/
def recordJobFailure (refused : Refusals) (index : Index) (record : VideoRecord)
    (error : JobError) : Index :=
  if refused.recordFailure then index
  else index.recordDerivationFailure record.library record.relPath record.size record.mtime
    error.text

/-- The compat step of a job that goes well. -/
def recordCompat (refused : Refusals) (index : Index) (job : Job) : Index :=
  if refused.setCompat then index
  else index.setCompat job.record.library job.record.relPath
    (siblingRel job.record.relPath (siblingName (sourcePath job.library job.record) compatSuffix))

/-- The thumbnail step of a job, for a record that lacks one. -/
def thumbnailStep (refused : Refusals) (outcome : JobOutcome) (index : Index) (job : Job) :
    Index :=
  if job.record.thumbRelPath.isNone then
    match outcome.thumb with
    | .ok () =>
      if refused.setThumb then index
      else index.setThumb job.record.library job.record.relPath
        (siblingRel job.record.relPath (siblingName (sourcePath job.library job.record) jpgSuffix))
    | .error error => recordJobFailure refused index job.record error
  else index

/-- `run_job`: a failed compat step is recorded and ends the job. -/
def runJob (refused : Refusals) (outcome : JobOutcome) (index : Index) (job : Job) : Index :=
  match job.plan with
  | none => thumbnailStep refused outcome index job
  | some _ =>
    match outcome.compat with
    | .ok () => thumbnailStep refused outcome (recordCompat refused index job) job
    | .error error => recordJobFailure refused index job.record error

/-- Take on the next job; whether an attempt was made. -/
def processNext (libraries : List Library) (refused : Refusals) (outcome : JobOutcome)
    (index : Index) : Index × Bool :=
  match nextJob libraries index with
  | none => (index, false)
  | some job => (runJob refused outcome index job, true)

section Cases
variable (refused : Refusals) (outcome : JobOutcome) (index : Index) (job : Job)

/-- What the thumbnail step can do: nothing for a record that has a thumbnail, or else one call,
which may be refused. -/
theorem thumbnailStep_cases :
    (job.record.thumbRelPath ≠ none ∧ thumbnailStep refused outcome index job = index) ∨
    (outcome.thumb = .ok () ∧ refused.setThumb = true ∧
      thumbnailStep refused outcome index job = index) ∨
    (job.record.thumbRelPath = none ∧ outcome.thumb = .ok () ∧ refused.setThumb = false ∧
      thumbnailStep refused outcome index job =
        index.setThumb job.record.library job.record.relPath (siblingRel job.record.relPath
          (siblingName (sourcePath job.library job.record) jpgSuffix))) ∨
    ∃ error, job.record.thumbRelPath = none ∧ outcome.thumb = .error error ∧
      thumbnailStep refused outcome index job =
        recordJobFailure refused index job.record error := by
  unfold thumbnailStep
  cases hthumb : job.record.thumbRelPath with
  | some thumb => exact Or.inl ⟨by simp, by simp⟩
  | none =>
    cases houtcome : outcome.thumb with
    | error error => simp
    | ok => cases hrefused : refused.setThumb <;> simp

/-- What a job can do: the thumbnail step, after a compat copy if there is a plan, or the record
of a failed compat step. -/
theorem runJob_cases :
    (job.plan = none ∧
      runJob refused outcome index job = thumbnailStep refused outcome index job) ∨
    (∃ plan, job.plan = some plan ∧ outcome.compat = .ok () ∧
      runJob refused outcome index job =
        thumbnailStep refused outcome (recordCompat refused index job) job) ∨
    ∃ plan error, job.plan = some plan ∧ outcome.compat = .error error ∧
      runJob refused outcome index job = recordJobFailure refused index job.record error := by
  unfold runJob
  cases hplan : job.plan with
  | none => simp
  | some plan => cases houtcome : outcome.compat <;> simp

end Cases

end Loku
