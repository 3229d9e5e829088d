/-!
# Codec hints

The `<source type>` of the native file: a container type and an RFC 6381 codecs parameter,
from the codec names that an `info.json` or ffprobe gives.
-/

namespace Loku

/-- A full codec string passes through, a bare name is mapped. -/
def videoCodecToken (vcodec : String) : Option String :=
  if vcodec.toList.contains '.' then some vcodec
  else
    match vcodec with
    | "vp8" => some "vp8"
    | "vp9" => some "vp9"
    | "av1" => some "av01.0.05M.08"
    | "h264" | "avc" | "avc1" => some "avc1.42E01E"
    | "h265" | "hevc" | "hvc1" | "hev1" => some "hvc1.1.6.L93.B0"
    | _ => none

def audioCodecToken (acodec : String) : Option String :=
  if acodec.toList.contains '.' then some acodec
  else
    match acodec with
    | "aac" => some "mp4a.40.2"
    | "opus" => some "opus"
    | "vorbis" => some "vorbis"
    | _ => none

/-- The containers a browser knows by type. -/
def containerType (ext : String) : Option String :=
  match ext with
  | "mp4" => some "video/mp4"
  | "webm" => some "video/webm"
  | _ => none

/-- The type hint of the native file, if it can be named. -/
def nativeSourceType (ext : String) (vcodec acodec : Option String) : Option String :=
  (containerType ext).bind fun container =>
    (vcodec.bind videoCodecToken).map fun video =>
      let codecs := match acodec.bind audioCodecToken with
        | some audio => video ++ ", " ++ audio
        | none => video
      container ++ "; codecs=\"" ++ codecs ++ "\""

example : nativeSourceType "mp4" (some "h264") (some "aac") =
    some "video/mp4; codecs=\"avc1.42E01E, mp4a.40.2\"" := by decide

end Loku
