import Loku.Media.Worker

/-!
# The muxer an ffmpeg command selects

ffmpeg reads its arguments from left to right: options gather until a file takes them, an
input after `-i`, an output where an argument is neither an option nor the value of one
(`ArgumentReader`). The muxer of an output is the one its `-f` option names, otherwise the one
registered for the last extension of its name; with neither, the command fails. Which formats
are registered is a table of the installed ffmpeg (`Muxers`).

Both commands of the worker name no format and write to a path that ends in `.part`, so with
no muxer registered for `part` neither selects one, whatever the source, the plan and the seek
time.
-/

namespace Loku

/-! ## Reading a command line -/

/-- The options among those used here that take no value. -/
def flagOptions : List String := ["-y", "-sn", "-dn"]

/-- Those that take one. -/
def valueOptions : List String :=
  ["-loglevel", "-ss", "-map", "-movflags", "-frames:v", "-vf", "-q:v", "-c:v", "-preset", "-crf",
    "-c:a", "-b:a"]

def isOption (arg : String) : Bool := arg.toList.head? == some '-'

structure OutputFile where
  options : List (String × String)
  url : String
deriving DecidableEq

/-- How ffmpeg reads its arguments: the outputs, each with the options gathered before it. -/
structure ArgumentReader where
  outputs : List (String × String) → List String → List OutputFile
  flag : ∀ {arg}, arg ∈ flagOptions → ∀ options rest,
    outputs options (arg :: rest) = outputs options rest
  option : ∀ {arg}, arg ∈ valueOptions → ∀ options value rest,
    outputs options (arg :: value :: rest) = outputs (options ++ [(arg, value)]) rest
  input : ∀ options url rest, outputs options ("-i" :: url :: rest) = outputs [] rest
  output : ∀ {arg}, isOption arg = false → ∀ options, outputs options [arg] = [⟨options, arg⟩]

/-- A reader that takes every option but the flags to have a value. -/
def plainOutputs : List (String × String) → List String → List OutputFile
  | _, [] => []
  | options, [arg] => if isOption arg then [] else [⟨options, arg⟩]
  | options, arg :: value :: rest =>
    if arg ∈ flagOptions then plainOutputs options (value :: rest)
    else if arg = "-i" then plainOutputs [] rest
    else if isOption arg then plainOutputs (options ++ [(arg, value)]) rest
    else ⟨options, arg⟩ :: plainOutputs [] (value :: rest)

theorem isOption_of_mem_flagOptions {arg : String} (h : arg ∈ flagOptions) :
    isOption arg = true := by
  revert arg
  decide

theorem valueOption_spec {arg : String} (h : arg ∈ valueOptions) :
    arg ∉ flagOptions ∧ arg ≠ "-i" ∧ isOption arg = true := by
  revert arg
  decide

def ArgumentReader.plain : ArgumentReader where
  outputs := plainOutputs
  flag {arg} h options rest := by
    cases rest with
    | nil => simp [plainOutputs, isOption_of_mem_flagOptions h]
    | cons value rest => rw [plainOutputs, if_pos h]
  option {arg} h options value rest := by
    obtain ⟨hflag, hinput, hoption⟩ := valueOption_spec h
    rw [plainOutputs, if_neg hflag, if_neg hinput, if_pos hoption]
  input options url rest := by rw [plainOutputs, if_neg (by decide), if_pos rfl]
  output {arg} h options := by rw [plainOutputs, if_neg (by simp [h])]

/-- What follows the last dot of a name. -/
def finalExtension (url : String) : Option String :=
  (Lib.rsplitOnce ['.'] url.toList).map fun p => String.ofList p.2

/-! ## Muxers -/

/-- The output formats of an ffmpeg, by name and by file extension. -/
structure Muxers where
  Format : Type
  byName : String → Option Format
  byExtension : String → Option Format
  mp4 : Format
  isImage : Format → Prop

/-- The format of one output: its `-f` option, otherwise its extension. -/
def Muxers.ofOutput (muxers : Muxers) (output : OutputFile) : Option muxers.Format :=
  match output.options.lookup "-f" with
  | some name => muxers.byName name
  | none => (finalExtension output.url).bind muxers.byExtension

/-- The format that a command with one output selects. -/
def Muxers.ofCommand (muxers : Muxers) (reader : ArgumentReader) (args : List String) :
    Option muxers.Format :=
  match reader.outputs [] args with
  | [output] => muxers.ofOutput output
  | _ => none

/-- Both commands of the worker select a usable output format. -/
def Muxers.Usable (muxers : Muxers) (reader : ArgumentReader) (source : Path) (plan : CompatPlan)
    (atSecs : F64) : Prop :=
  muxers.ofCommand reader (compatCommand source plan) = some muxers.mp4 ∧
    ∃ format, muxers.ofCommand reader (thumbnailCommand source atSecs) = some format ∧
      muxers.isImage format

/-! ## Reading the worker's commands -/

theorem isOption_absText (p : Path) : isOption p.absText = false := by
  unfold isOption Path.absText
  rw [String.toList_append]
  rfl

/-- A list of option and value pairs is gathered. -/
theorem ArgumentReader.outputs_options (reader : ArgumentReader) (pairs : List (String × String))
    (hpairs : ∀ p ∈ pairs, p.1 ∈ valueOptions) (options : List (String × String))
    (rest : List String) :
    reader.outputs options (pairs.flatMap (fun p => [p.1, p.2]) ++ rest) =
      reader.outputs (options ++ pairs) rest := by
  induction pairs generalizing options with
  | nil => simp
  | cons p pairs ih =>
    have hrest := ih (fun q hq => hpairs q (List.mem_cons_of_mem _ hq)) (options ++ [p])
    rw [List.flatMap_cons, List.append_assoc]
    change reader.outputs options (p.1 :: p.2 :: (pairs.flatMap (fun p => [p.1, p.2]) ++ rest)) = _
    rw [reader.option (hpairs p List.mem_cons_self), hrest, List.append_assoc]
    rfl

/-- The options that a plan contributes. -/
def planOptions (plan : CompatPlan) : List (String × String) :=
  (match plan.video with
    | .copy => [("-c:v", "copy")]
    | .transcode deinterlace =>
      (if deinterlace then [("-vf", "bwdif")] else []) ++
        [("-c:v", "libx264"), ("-preset", "medium"), ("-crf", "20")]) ++
    match plan.audio with
    | .copy => [("-c:a", "copy")]
    | .transcode => [("-c:a", "aac"), ("-b:a", "192k")]

theorem planArgs_eq (plan : CompatPlan) :
    videoArgs plan.video ++ audioArgs plan.audio =
      (planOptions plan).flatMap fun p => [p.1, p.2] := by
  obtain ⟨video, audio⟩ := plan
  rcases video with _ | ⟨_ | _⟩ <;> cases audio <;> rfl

theorem valueOption_of_mem_planOptions {plan : CompatPlan} {p : String × String}
    (h : p ∈ planOptions plan) : p.1 ∈ valueOptions := by
  obtain ⟨video, audio⟩ := plan
  revert p
  rcases video with _ | ⟨_ | _⟩ <;> cases audio <;> decide

/-- The compat command has one output, the destination, with no format option. -/
theorem outputs_deriveCompatArgs (reader : ArgumentReader) (source dest : Path)
    (plan : CompatPlan) :
    reader.outputs [] (deriveCompatArgs source dest plan) =
      [⟨planOptions plan ++ [("-map", "0:v:0"), ("-map", "0:a:0?"), ("-movflags", "+faststart")],
        dest.absText⟩] := by
  unfold deriveCompatArgs
  rw [List.append_assoc _ (videoArgs _), planArgs_eq, List.append_assoc]
  change reader.outputs [] ("-loglevel" :: "error" :: "-y" :: "-i" :: source.absText ::
    ((planOptions plan).flatMap (fun p => [p.1, p.2]) ++ _)) = _
  rw [reader.option (by decide), reader.flag (by decide), reader.input,
    reader.outputs_options _ fun p hp => valueOption_of_mem_planOptions hp,
    reader.option (by decide), reader.option (by decide), reader.flag (by decide),
    reader.flag (by decide), reader.option (by decide), reader.output (isOption_absText dest)]
  simp

/-- So has the thumbnail command. -/
theorem outputs_extractThumbnailArgs (reader : ArgumentReader) (source dest : Path)
    (atSecs : F64) :
    reader.outputs [] (extractThumbnailArgs source dest atSecs) =
      [⟨[("-frames:v", "1"), ("-vf", "scale=640:-2"), ("-q:v", "3")], dest.absText⟩] := by
  unfold extractThumbnailArgs
  rw [reader.option (by decide), reader.flag (by decide), reader.option (by decide), reader.input,
    reader.option (by decide), reader.option (by decide), reader.option (by decide),
    reader.output (isOption_absText dest)]
  rfl

/-! ## The staging path -/

theorem absText_concat (p : Path) (n : FileName) :
    ∃ before, (Path.absText (p ++ [n])).toList = before ++ n.text.toList := by
  unfold Path.absText
  by_cases hp : p = []
  · subst hp
    exact ⟨['/'], by simp [String.toList_append]⟩
  · refine ⟨'/' :: (p.relText.toList ++ ['/']), ?_⟩
    have hrel : ("/".intercalate ((p ++ [n]).map FileName.text)).toList =
        p.relText.toList ++ '/' :: (Path.relText [n]).toList :=
      Path.toList_relText_append hp (by simp)
    rw [String.toList_append, hrel]
    simp [Path.relText]

/-- A staging path ends in `.part`. -/
theorem finalExtension_staging (source : Path) (suffix : Suffix) :
    finalExtension (siblingPaths source suffix).1.absText = some "part" := by
  obtain ⟨before, hbefore⟩ := absText_concat source.dropLast (siblingName source suffix.part)
  obtain ⟨stem, hstem⟩ := toList_staging source suffix
  unfold finalExtension siblingPaths
  rw [hbefore, hstem, ← List.append_assoc, Lib.rsplitOnce_singleton_append (by decide)]
  rfl

theorem ofCommand_compat {muxers : Muxers} (hpart : muxers.byExtension "part" = none)
    (reader : ArgumentReader) (source : Path) (plan : CompatPlan) :
    muxers.ofCommand reader (compatCommand source plan) = none := by
  have hformat : (planOptions plan ++ [("-map", "0:v:0"), ("-map", "0:a:0?"),
      ("-movflags", "+faststart")]).lookup "-f" = none := by
    obtain ⟨video, audio⟩ := plan
    rcases video with _ | ⟨_ | _⟩ <;> cases audio <;> decide
  unfold Muxers.ofCommand compatCommand
  rw [outputs_deriveCompatArgs]
  dsimp only
  unfold Muxers.ofOutput
  rw [hformat]
  dsimp only
  rw [finalExtension_staging]
  exact hpart

theorem ofCommand_thumbnail {muxers : Muxers} (hpart : muxers.byExtension "part" = none)
    (reader : ArgumentReader) (source : Path) (atSecs : F64) :
    muxers.ofCommand reader (thumbnailCommand source atSecs) = none := by
  unfold Muxers.ofCommand thumbnailCommand
  rw [outputs_extractThumbnailArgs]
  dsimp only
  unfold Muxers.ofOutput
  have hformat : [("-frames:v", "1"), ("-vf", "scale=640:-2"), ("-q:v", "3")].lookup "-f" =
      (none : Option String) := by decide
  rw [hformat]
  dsimp only
  rw [finalExtension_staging]
  exact hpart

/-! ## No command works -/

/-- With no muxer registered for `part`, neither command of the worker selects any muxer. -/
theorem worker_commands_select_no_muxer (muxers : Muxers) (reader : ArgumentReader)
    (hpart : muxers.byExtension "part" = none) (source : Path) (plan : CompatPlan)
    (atSecs : F64) :
    muxers.ofCommand reader (compatCommand source plan) = none ∧
      muxers.ofCommand reader (thumbnailCommand source atSecs) = none ∧
      ¬ muxers.Usable reader source plan atSecs := by
  have hcompat := ofCommand_compat hpart reader source plan
  refine ⟨hcompat, ofCommand_thumbnail hpart reader source atSecs, ?_⟩
  rintro ⟨hmp4, -⟩
  rw [hcompat] at hmp4
  cases hmp4

/-- The table of an ffmpeg that knows MP4 and JPEG by name and by extension. -/
def plainMuxers : Muxers where
  Format := String
  byName name := if ["mp4", "image2"].contains name then some name else none
  byExtension ext := if ext = "mp4" then some "mp4" else if ext = "jpg" then some "image2" else none
  mp4 := "mp4"
  isImage format := format = "image2"

def movieSource : Path := [OneVideo.lib, OneVideo.movie]

theorem worker_commands_select_no_muxer_movie :
    plainMuxers.ofCommand .plain (compatCommand movieSource ⟨.copy, .transcode⟩) = none ∧
      plainMuxers.ofCommand .plain (thumbnailCommand movieSource (.finite 1)) = none ∧
      ¬ plainMuxers.Usable .plain movieSource ⟨.copy, .transcode⟩ (.finite 1) :=
  worker_commands_select_no_muxer plainMuxers .plain (by decide) movieSource _ _

/-- The commands for `/lib/Movie.mkv`. -/
theorem movie_commands_unusable :
    ¬ ∀ (source : Path) (plan : CompatPlan) (atSecs : F64),
      plainMuxers.Usable .plain source plan atSecs := by
  intro h
  obtain ⟨hmp4, -⟩ := h movieSource ⟨.copy, .transcode⟩ (.finite 1)
  rw [ofCommand_compat (by decide)] at hmp4
  cases hmp4

end Loku
