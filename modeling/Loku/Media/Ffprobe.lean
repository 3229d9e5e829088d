import Loku.Lib.ByteSlice
import Loku.Media.FfmpegCommand
import Loku.Media.ProbePass
import Loku.Serde

/-!
# Running ffprobe and ffmpeg

A run of a tool times out, cannot be started or ends. ffprobe writes JSON, read liberally: every
field is optional and unknown ones are ignored. The facts of a file are those of its first
video stream that is no attached picture and of its first audio stream.

After a probe pass exactly those rows lack facts whose library is not configured or for which
ffprobe did not run to its end (`lacksFacts_after_pass_iff`). The compat command maps the first
video stream whatever it is, so it takes the streams that the facts are about exactly when no
attached picture comes before them (`mapped_eq_probed_iff`).
-/

namespace Loku

/-! ## What ffprobe writes -/

structure FfprobeDisposition where
  attachedPic : Option Int
deriving DecidableEq

structure FfprobeStream where
  codecType : Option String
  codecName : Option String
  profile : Option String
  fieldOrder : Option String
  width : Option Int
  height : Option Int
  disposition : Option FfprobeDisposition
deriving DecidableEq

structure FfprobeFormat where
  /-- A decimal string. -/
  duration : Option String
deriving DecidableEq

structure FfprobeOutput where
  streams : List FfprobeStream
  format : Option FfprobeFormat
deriving DecidableEq

namespace FfprobeStream

def isVideo (s : FfprobeStream) : Bool := s.codecType == some "video"

def isAudio (s : FfprobeStream) : Bool := s.codecType == some "audio"

/-- Embedded cover art. -/
def isAttachedPic (s : FfprobeStream) : Bool :=
  (s.disposition.bind FfprobeDisposition.attachedPic).getD 0 != 0

end FfprobeStream

/-- The stream of the movie. -/
def FfprobeOutput.video (output : FfprobeOutput) : Option FfprobeStream :=
  output.streams.find? fun s => s.isVideo && !s.isAttachedPic

def FfprobeOutput.audio (output : FfprobeOutput) : Option FfprobeStream :=
  output.streams.find? FfprobeStream.isAudio

/-- `ProbeResult::from`; `parse` is `str::parse::<f64>`. -/
def ProbeResult.ofOutput (parse : String → Option F64) (output : FfprobeOutput) : ProbeResult where
  vcodec := output.video.bind FfprobeStream.codecName
  acodec := output.audio.bind FfprobeStream.codecName
  vprofile := output.video.bind FfprobeStream.profile
  fieldOrder := output.video.bind FfprobeStream.fieldOrder
  durationSecs := (output.format.bind FfprobeFormat.duration).bind parse
  width := output.video.bind FfprobeStream.width
  height := output.video.bind FfprobeStream.height

/-! ## Reading it -/

open Serde in
def FfprobeDisposition.deserialize (json : Json) : Option FfprobeDisposition := do
  let attachedPic ← optionField ["attached_pic"] "attached_pic" i64 json
  return { attachedPic }

open Serde in
def FfprobeStream.deserialize (json : Json) : Option FfprobeStream := do
  let names := ["codec_type", "codec_name", "profile", "field_order", "width", "height",
    "disposition"]
  let codecType ← optionField names "codec_type" Json.asStr json
  let codecName ← optionField names "codec_name" Json.asStr json
  let profile ← optionField names "profile" Json.asStr json
  let fieldOrder ← optionField names "field_order" Json.asStr json
  let width ← optionField names "width" i64 json
  let height ← optionField names "height" i64 json
  let disposition ← optionField names "disposition" FfprobeDisposition.deserialize json
  return { codecType, codecName, profile, fieldOrder, width, height, disposition }

open Serde in
def FfprobeFormat.deserialize (json : Json) : Option FfprobeFormat := do
  let duration ← optionField ["duration"] "duration" Json.asStr json
  return { duration }

open Serde in
/-- No `streams` is none of them, but a `null` is an error. -/
def FfprobeOutput.deserialize (json : Json) : Option FfprobeOutput := do
  let names := ["streams", "format"]
  let streams ← structField names "streams" json
  let streams ← (streams.map (vec FfprobeStream.deserialize)).getD (some [])
  let format ← optionField names "format" FfprobeFormat.deserialize json
  return { streams, format }

/-- A cover image, the movie and its sound. -/
example : (FfprobeOutput.deserialize (.object
    [("streams", .array
      [.object [("codec_type", .string "video"), ("codec_name", .string "mjpeg"),
        ("disposition", .object [("attached_pic", .number (.posInt 1))])],
      .object [("codec_type", .string "video"), ("codec_name", .string "h264"),
        ("profile", .string "High"), ("width", .number (.posInt 1920)), ("level", .null)],
      .object [("codec_type", .string "audio"), ("codec_name", .string "ac3")]])])).map
        (ProbeResult.ofOutput fun _ => none) =
    some { vcodec := some "h264", acodec := some "ac3", vprofile := some "High",
           width := some 1920 } := by
  decide

/-! ## Running the tools -/

/-- What the tools' output is read with: a JSON reader that keeps every field of an object, the
text of its error, `str::parse::<f64>` and `String::from_utf8_lossy`. -/
structure ToolReader where
  json : List UInt8 → Option Json
  jsonError : List UInt8 → String
  parse : String → Option F64
  lossy : List UInt8 → String

/-- How the run of a tool can go. -/
inductive ToolRun
  | timedOut
  | notSpawned (source : String)
  | exited (success : Bool) (status : String) (stdout stderr : List UInt8)
deriving DecidableEq

def ToolRun.Exited : ToolRun → Prop
  | .exited .. => True
  | _ => False

def probeTimeout : Nat := 30

def deriveTimeout : Nat := 6 * 60 * 60

def thumbnailTimeout : Nat := 60

def tailChars : Nat := 500

/-- The last stretch of a text. A slice that does not start at a character would be a panic; there
is none (`tail_eq`). -/
def tail (text : String) : Option String :=
  match (Lib.charIndices 0 text.toList).reverse[tailChars - 1]? with
  | none => some text
  | some (idx, _) => Lib.sliceFrom text idx

/-- What an error says of the error output. -/
def stderrTail (reader : ToolReader) (stderr : List UInt8) : String :=
  (tail (reader.lossy stderr)).getD ""

/-- `RealFfmpeg::probe`, where `run` is ffprobe on a path. -/
def RealFfmpeg.probe (reader : ToolReader) (run : Path → ToolRun) : ProbeRunner := fun path =>
  match run path with
  | .timedOut => .error (.ffprobeTimeout path.absText probeTimeout)
  | .notSpawned source => .error (.ffprobeSpawn path.absText source)
  | .exited false status _ stderr =>
    .error (.ffprobeExit path.absText status (stderrTail reader stderr))
  | .exited true _ stdout _ =>
    match (reader.json stdout).bind FfprobeOutput.deserialize with
    | some output => .ok (.ofOutput reader.parse output)
    | none => .error (.ffprobeOutputParse path.absText (reader.jsonError stdout))

/-- `run_ffmpeg`, on a command that has run. -/
def runFfmpeg (reader : ToolReader) (run : ToolRun) (source : Path) (timeoutSecs : Nat) :
    Except DeriveError Unit :=
  match run with
  | .timedOut => .error (.ffmpegTimeout source.absText timeoutSecs)
  | .notSpawned error => .error (.ffmpegSpawn source.absText error)
  | .exited true _ _ _ => .ok ()
  | .exited false status _ stderr =>
    .error (.ffmpegExit source.absText status (stderrTail reader stderr))

/-! ## The tail of a text -/

/-- The tail is the last characters of a text, the whole of a short one. -/
theorem tail_eq (text : String) :
    tail text = some (String.ofList (text.toList.drop (text.toList.length - tailChars))) := by
  unfold tail
  split
  · rename_i hnone
    rw [List.getElem?_eq_none_iff, List.length_reverse, Lib.length_charIndices] at hnone
    have hshort : text.toList.length - tailChars = 0 := by
      unfold tailChars at hnone ⊢
      omega
    rw [hshort, List.drop_zero, String.ofList_toList]
  · rename_i idx c hsome
    have hlt := (List.getElem?_eq_some_iff.mp hsome).1
    rw [List.length_reverse, Lib.length_charIndices] at hlt
    rw [List.getElem?_reverse (by rwa [Lib.length_charIndices]), Lib.length_charIndices] at hsome
    have hindex : text.toList.length - 1 - (tailChars - 1) = text.toList.length - tailChars := by
      unfold tailChars
      omega
    rw [hindex] at hsome
    exact Lib.sliceFrom_of_charIndices hsome

theorem length_stderrTail_le (reader : ToolReader) (stderr : List UInt8) :
    (stderrTail reader stderr).toList.length ≤ tailChars := by
  unfold stderrTail
  rw [tail_eq, Option.getD_some, String.toList_ofList, List.length_drop]
  omega

/-! ## What a probe pass records -/

section Pass
variable (reader : ToolReader) (run : Path → ToolRun)

/-- A run that ends is recorded, whatever it says; no other is. -/
theorem settle_probe_eq_none_iff (path : Path) :
    settle (RealFfmpeg.probe reader run path) = none ↔ ¬ (run path).Exited := by
  unfold RealFfmpeg.probe ToolRun.Exited
  cases run path with
  | timedOut => simp [settle, ProbeError.isDefinitive]
  | notSpawned source => simp [settle, ProbeError.isDefinitive]
  | exited success status stdout stderr =>
    cases success with
    | false => simp [settle, ProbeError.isDefinitive]
    | true =>
      dsimp only
      cases (reader.json stdout).bind FfprobeOutput.deserialize <;>
        simp [settle, ProbeError.isDefinitive]

/-- What leaves a pass without an outcome for a candidate. -/
theorem probeOutcome_eq_none_iff (libraries : List Library) (index : Index)
    (candidate : ProbeCandidate) :
    probeOutcome (RealFfmpeg.probe reader run) libraries index candidate = none ↔
      ∀ library, (libraries.find? fun l => l.name == candidate.library) = some library →
        index.cachedProbe candidate = none ∧
          ¬ (run (library.path.join candidate.relPath)).Exited := by
  unfold probeOutcome
  cases libraries.find? fun l => l.name == candidate.library with
  | none => simp
  | some library =>
    rw [Option.bind_some, Option.or_eq_none_iff, settle_probe_eq_none_iff]
    constructor
    · rintro h _ ⟨⟩
      exact h
    · exact fun h => h library rfl

/-- After a pass in which the index accepts every call, a row lacks codec facts exactly if it did
before and its library is not configured, or its content is in no cache entry and ffprobe timed
out on it or could not be started. A readable output that is not in the cache is recorded. -/
theorem lacksFacts_after_pass_iff (libraries : List Library) (index : Index) (k : RowKey) :
    ((∃ r, (probePending Faults.none (RealFfmpeg.probe reader run) libraries index).1.recordAt k =
        some r ∧ r.codecSource = none) ↔
      ∃ r, index.recordAt k = some r ∧ r.codecSource = none ∧
        ∀ library, (libraries.find? fun l => l.name == r.library) = some library →
          index.cachedProbe (.ofRecord r) = none ∧ ¬ (run (library.path.join r.relPath)).Exited) ∧
    ∀ r library status stdout stderr output, index.recordAt k = some r → r.codecSource = none →
      (libraries.find? fun l => l.name == r.library) = some library →
      index.cachedProbe (.ofRecord r) = none →
      run (library.path.join r.relPath) = .exited true status stdout stderr →
      (reader.json stdout).bind FfprobeOutput.deserialize = some output →
      (probePending Faults.none (RealFfmpeg.probe reader run) libraries index).1.recordAt k =
        some (Index.withProbe (.ofOutput reader.parse output) r) := by
  rw [recordAt_probePending]
  refine ⟨?_, ?_⟩
  · cases hr : index.recordAt k with
    | none => simp
    | some r =>
      simp only [Option.map_some, Option.some.injEq, exists_eq_left']
      by_cases hfacts : r.codecSource = none
      · rw [if_pos hfacts]
        simp only [hfacts, true_and]
        refine Iff.trans ?_ (probeOutcome_eq_none_iff reader run libraries index (.ofRecord r))
        cases probeOutcome (RealFfmpeg.probe reader run) libraries index (.ofRecord r) with
        | none => exact iff_of_true hfacts rfl
        | some probe => exact iff_of_false (Option.some_ne_none _) (Option.some_ne_none _)
      · rw [if_neg hfacts]
        simp [hfacts]
  · intro r library status stdout stderr output hr hfacts hlibrary hcached hrun houtput
    have hprobe : RealFfmpeg.probe reader run (library.path.join r.relPath) =
        .ok (.ofOutput reader.parse output) := by
      unfold RealFfmpeg.probe
      rw [hrun]
      dsimp only
      rw [houtput]
    have houtcome : probeOutcome (RealFfmpeg.probe reader run) libraries index (.ofRecord r) =
        some (.ofOutput reader.parse output) := by
      unfold probeOutcome
      change (libraries.find? fun l => l.name == r.library).bind _ = _
      rw [hlibrary, Option.bind_some, hcached, Option.none_or]
      change settle (RealFfmpeg.probe reader run (library.path.join r.relPath)) = _
      rw [hprobe]
      rfl
    rw [hr, Option.map_some, if_pos hfacts, houtcome]
    rfl

end Pass

/-! ## The streams that the compat command takes -/

/-- The place of the stream that the video facts are about. -/
def FfprobeOutput.videoIndex (output : FfprobeOutput) : Option Nat :=
  output.streams.findIdx? fun s => s.isVideo && !s.isAttachedPic

def FfprobeOutput.audioIndex (output : FfprobeOutput) : Option Nat :=
  output.streams.findIdx? FfprobeStream.isAudio

/-- The stream that ffmpeg takes for a map of its first input. The two specifiers used here stand
for the first stream of their type, attached pictures among those of type video. -/
structure StreamMap where
  target : List FfprobeStream → String → Option Nat
  video : ∀ streams, target streams "0:v:0" = streams.findIdx? FfprobeStream.isVideo
  audio : ∀ streams, target streams "0:a:0?" = streams.findIdx? FfprobeStream.isAudio

def StreamMap.plain : StreamMap where
  target streams spec :=
    if spec = "0:v:0" then streams.findIdx? FfprobeStream.isVideo
    else if spec = "0:a:0?" then streams.findIdx? FfprobeStream.isAudio
    else none
  video _ := if_pos rfl
  audio _ := by rw [if_neg (by decide), if_pos rfl]

/-- The streams that a command with one output maps into it. -/
def mappedStreams (reader : ArgumentReader) (map : StreamMap) (args : List String)
    (streams : List FfprobeStream) : List (Option Nat) :=
  match reader.outputs [] args with
  | [output] => (output.options.filter fun o => o.1 == "-map").map fun o => map.target streams o.2
  | _ => []

section Mapped
variable {α : Type} {p q : α → Bool}

/-- The first element with a property is the first one with a weaker property exactly when that
one has it. -/
theorem findIdx?_eq_findIdx?_iff (hpq : ∀ a, q a = true → p a = true) (l : List α) :
    l.findIdx? p = l.findIdx? q ↔ ∀ a, l.find? p = some a → q a = true := by
  induction l with
  | nil => simp
  | cons a l ih =>
    rw [List.findIdx?_cons, List.findIdx?_cons, List.find?_cons]
    cases hp : p a with
    | true =>
      cases hq : q a with
      | true => simp [hq]
      | false => cases hrest : l.findIdx? q <;> simp [hq]
    | false =>
      have hq : q a = false := by
        rw [Bool.eq_false_iff]
        intro hq
        rw [hpq a hq] at hp
        cases hp
      simp only [hq, Bool.false_eq_true, if_false]
      rw [← ih]
      cases l.findIdx? p <;> cases l.findIdx? q <;> simp

theorem find?_eq_bind_findIdx? (p : α → Bool) (l : List α) :
    l.find? p = (l.findIdx? p).bind (l[·]?) := by
  induction l with
  | nil => rfl
  | cons a l ih =>
    rw [List.find?_cons, List.findIdx?_cons]
    cases hp : p a with
    | true => rfl
    | false =>
      rw [ih]
      cases l.findIdx? p <;> rfl

end Mapped

section Compat
variable (reader : ArgumentReader) (map : StreamMap) (source : Path) (plan : CompatPlan)
  (output : FfprobeOutput)

/-- No plan maps a stream. -/
theorem filter_map_planOptions : (planOptions plan).filter (fun o => o.1 == "-map") = [] := by
  obtain ⟨video, audio⟩ := plan
  rcases video with _ | ⟨_ | _⟩ <;> cases audio <;> rfl

theorem mappedStreams_compatCommand :
    mappedStreams reader map (compatCommand source plan) output.streams =
      [output.streams.findIdx? FfprobeStream.isVideo, output.audioIndex] := by
  unfold mappedStreams compatCommand
  rw [outputs_deriveCompatArgs]
  dsimp only
  rw [List.filter_append, filter_map_planOptions, List.nil_append]
  change [map.target output.streams "0:v:0", map.target output.streams "0:a:0?"] = _
  rw [map.video, map.audio]
  rfl

/-- The facts of a file are those of the streams at two places. The compat command takes the
streams at these places exactly when the first video stream of all is no attached picture. -/
theorem mapped_eq_probed_iff :
    output.video = output.videoIndex.bind (output.streams[·]?) ∧
      output.audio = output.audioIndex.bind (output.streams[·]?) ∧
      (mappedStreams reader map (compatCommand source plan) output.streams =
          [output.videoIndex, output.audioIndex] ↔
        ∀ s, output.streams.find? FfprobeStream.isVideo = some s → s.isAttachedPic = false) := by
  refine ⟨find?_eq_bind_findIdx? _ _, find?_eq_bind_findIdx? _ _, ?_⟩
  rw [mappedStreams_compatCommand, List.cons.injEq, and_iff_left rfl]
  have hfirst := findIdx?_eq_findIdx?_iff (p := FfprobeStream.isVideo)
    (q := fun s => s.isVideo && !s.isAttachedPic) (fun s h => (Bool.and_eq_true_iff.mp h).1)
    output.streams
  refine hfirst.trans (forall_congr' fun s => imp_congr_right fun hs => ?_)
  rw [List.find?_some hs, Bool.true_and, Bool.not_eq_true']

end Compat

/-- A cover in front of the movie. -/
def coverFirst : FfprobeOutput where
  streams :=
    [⟨some "video", some "mjpeg", none, none, none, none, some ⟨some 1⟩⟩,
      ⟨some "video", some "h264", none, none, none, none, none⟩,
      ⟨some "audio", some "dts", none, none, none, none, none⟩]
  format := none

/-- The cover is copied, and the facts are those of the movie behind it. -/
theorem mapped_eq_probed_coverFirst :
    mappedStreams .plain .plain (compatCommand movieSource ⟨.copy, .transcode⟩)
      coverFirst.streams ≠ [coverFirst.videoIndex, coverFirst.audioIndex] := by
  intro h
  have hplain := (mapped_eq_probed_iff .plain .plain movieSource ⟨.copy, .transcode⟩
    coverFirst).2.2.mp h _ rfl
  cases hplain

/-- Cover art has no influence on the facts. -/
theorem ofOutput_congr (parse : String → Option F64) {output output' : FfprobeOutput}
    (hstreams : output.streams.filter (fun s => !(s.isVideo && s.isAttachedPic)) =
      output'.streams.filter fun s => !(s.isVideo && s.isAttachedPic))
    (hformat : output.format = output'.format) :
    ProbeResult.ofOutput parse output = .ofOutput parse output' := by
  have hfind : ∀ (streams : List FfprobeStream) (p : FfprobeStream → Bool),
      (∀ s, p s = true → (s.isVideo && s.isAttachedPic) = false) →
      streams.find? p = (streams.filter fun s => !(s.isVideo && s.isAttachedPic)).find? p := by
    intro streams p hp
    rw [List.find?_filter]
    congr 1
    funext s
    cases h : p s with
    | false => simp
    | true => simp [hp s h]
  have hvideo : output.video = output'.video := by
    unfold FfprobeOutput.video
    rw [hfind output.streams, hfind output'.streams, hstreams]
    all_goals
      intro s hs
      obtain ⟨hvideo, hpicture⟩ := Bool.and_eq_true_iff.mp hs
      rw [hvideo, Bool.true_and]
      rwa [Bool.not_eq_true'] at hpicture
  have haudio : output.audio = output'.audio := by
    unfold FfprobeOutput.audio
    rw [hfind output.streams, hfind output'.streams, hstreams]
    all_goals
      intro s hs
      have hno : s.isVideo = false := by
        unfold FfprobeStream.isVideo
        rw [beq_iff_eq.mp hs]
        rfl
      rw [hno, Bool.false_and]
  unfold ProbeResult.ofOutput
  rw [hvideo, haudio, hformat]

end Loku
