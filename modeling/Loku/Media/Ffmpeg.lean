import Loku.Media.Compat
import Loku.Path

/-!
# The ffmpeg boundary

The argument vectors of the two ffmpeg commands, and the errors of the runner. The runs
themselves are outside: a runner succeeds or fails.
-/

namespace Loku

inductive ProbeError
  | ffprobeSpawn (path source : String)
  | ffprobeTimeout (path : String) (timeoutSecs : Nat)
  | ffprobeExit (path status stderrTail : String)
  | ffprobeOutputParse (path source : String)
deriving DecidableEq

/-- Whether the failure is a fact about the file rather than about the moment. -/
def ProbeError.isDefinitive : ProbeError → Bool
  | .ffprobeExit .. => true
  | .ffprobeOutputParse .. => true
  | _ => false

inductive DeriveError
  | ffmpegSpawn (path source : String)
  | ffmpegTimeout (path : String) (timeoutSecs : Nat)
  | ffmpegExit (path status stderrTail : String)
deriving DecidableEq

def DeriveError.text : DeriveError → String
  | .ffmpegSpawn path source => "Failed to spawn ffmpeg for '" ++ path ++ "': " ++ source
  | .ffmpegTimeout path timeoutSecs =>
    "ffmpeg timed out after " ++ timeoutSecs.repr ++ "s deriving from '" ++ path ++ "'"
  | .ffmpegExit path status stderrTail =>
    "ffmpeg failed on '" ++ path ++ "' (" ++ status ++ "): " ++ stderrTail

/-- The video part of a compat command. -/
def videoArgs : VideoAction → List String
  | .copy => ["-c:v", "copy"]
  | .transcode deinterlace =>
    (if deinterlace then ["-vf", "bwdif"] else []) ++
      ["-c:v", "libx264", "-preset", "medium", "-crf", "20"]

def audioArgs : AudioAction → List String
  | .copy => ["-c:a", "copy"]
  | .transcode => ["-c:a", "aac", "-b:a", "192k"]

/-- The arguments of `RealFfmpeg::derive_compat`. -/
def deriveCompatArgs (source dest : Path) (plan : CompatPlan) : List String :=
  ["-loglevel", "error", "-y", "-i", source.absText] ++ videoArgs plan.video ++
    audioArgs plan.audio ++
    ["-map", "0:v:0", "-map", "0:a:0?", "-sn", "-dn", "-movflags", "+faststart", dest.absText]

/-- The arguments of `RealFfmpeg::extract_thumbnail`. -/
def extractThumbnailArgs (source dest : Path) (atSecs : F64) : List String :=
  ["-loglevel", "error", "-y", "-ss", atSecs.format3, "-i", source.absText, "-frames:v", "1",
    "-vf", "scale=640:-2", "-q:v", "3", dest.absText]

end Loku
