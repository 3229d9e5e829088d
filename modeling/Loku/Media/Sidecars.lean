import Loku.FileTree
import Loku.Library
import Loku.Nfo
import Loku.Scalar

/-!
# Sidecar discovery

Thumbnails, compat copies and `info.json` metadata lie beside a master video, named by its
stem. What the bytes of a sidecar say is left to two decoders outside this repository: a JSON
reader and an NFO parser.
-/

namespace Loku

/-! ## JSON values -/

inductive JsonNumber
  | posInt (n : Nat)
  | negInt (n : Int)
  | float (q : Rat)

/-- The number a reader with doubles gets. -/
def JsonNumber.asDouble : JsonNumber → Rat
  | posInt n => Lib.asDouble n
  | negInt n => Lib.asDouble n
  | float q => q

inductive Json
  | null
  | bool (b : Bool)
  | number (n : JsonNumber)
  | string (s : String)
  | array (items : List Json)
  | object (fields : List (String × Json))

namespace Json

/-- `Value::get` with a key. -/
def get (key : String) : Json → Option Json
  | object fields => (fields.find? fun f => f.1 == key).map Prod.snd
  | _ => none

def asStr : Json → Option String
  | string s => some s
  | _ => none

def asF64 : Json → Option F64
  | number n => some (.finite n.asDouble)
  | _ => none

def asU64 : Json → Option Nat
  | number (.posInt n) => some n
  | _ => none

end Json

/-- What the sidecars' bytes decode to: `info.json` text as JSON, and an NFO document. -/
structure Decoders where
  json : List UInt8 → Option Json
  nfo : List UInt8 → Option Nfo

/-! ## Names -/

def videoExtensions : List String := ["mp4", "mkv", "webm", "avi", "mov"]

def compatSuffix : Suffix := ⟨".compat.mp4", by decide⟩

def infoJsonSuffix : Suffix := ⟨".info.json", by decide⟩

def jpgSuffix : Suffix := ⟨".jpg", by decide⟩

/-- The suffixes `.{ext}` of `THUMB_EXTENSIONS`, in order of preference. -/
def thumbSuffixes : List Suffix := [jpgSuffix, ⟨".webp", by decide⟩, ⟨".png", by decide⟩]

/-- The suffix appended to the stem, beside the video. -/
def sidecarPath (dir : Path) (video : FileName) (suffix : Suffix) : Path :=
  dir ++ [video.sidecar suffix]

/-- A sidecar outside the library root counts as none. -/
def findSidecar (t : FileTree) (dir : Path) (video : FileName) (root : Path) (suffix : Suffix) :
    Option String :=
  if t.pathExists (sidecarPath dir video suffix) then
    ((sidecarPath dir video suffix).stripPrefix root).map Path.relText
  else none

def findCompat (t : FileTree) (dir : Path) (video : FileName) (root : Path) : Option String :=
  findSidecar t dir video root compatSuffix

def findThumbnail (t : FileTree) (dir : Path) (video : FileName) (root : Path) : Option String :=
  thumbSuffixes.findSome? (findSidecar t dir video root)

/-! ## info.json -/

structure InfoJson where
  title : Option String := none
  durationSecs : Option F64 := none
  uploadDate : Option String := none
  description : Option String := none
  channel : Option String := none
  channelUrl : Option String := none
  webpageUrl : Option String := none
  viewCount : Option Nat := none
  vcodec : Option String := none
  acodec : Option String := none

/-- The fields of an `info.json` value; a codec named `none` is an absent track. -/
def InfoJson.ofJson (json : Json) : InfoJson :=
  let strField := fun key => (json.get key).bind Json.asStr
  let codecField := fun key => ((json.get key).bind Json.asStr).filter (· != "none")
  { title := strField "title"
    durationSecs := (json.get "duration").bind Json.asF64
    uploadDate := strField "upload_date"
    description := strField "description"
    channel := strField "channel"
    channelUrl := strField "channel_url"
    webpageUrl := strField "webpage_url"
    viewCount := (json.get "view_count").bind Json.asU64
    vcodec := codecField "vcodec"
    acodec := codecField "acodec" }

/-- A sidecar that is missing, unreadable or not JSON says nothing. -/
def readInfoJson (decoders : Decoders) (t : FileTree) (dir : Path) (video : FileName) :
    InfoJson :=
  match (t.readFile (sidecarPath dir video infoJsonSuffix)).bind fun data =>
      decoders.json data.bytes with
  | some json => .ofJson json
  | none => {}

/-! ## A library with one video -/

namespace OneVideo

def lib : FileName := ⟨"lib", by decide⟩

def movie : FileName := ⟨"Movie.mkv", by decide⟩

def tree : FileTree :=
  .ofNodes [([], .dir), ([lib], .dir), ([lib, movie], .file ⟨[1, 2, 3], 5⟩)] (by decide) (by decide)

def library : Library := ⟨"movies", [lib], .downloads⟩

/-- No sidecar says anything. -/
def decoders : Decoders := ⟨fun _ => none, fun _ => none⟩

end OneVideo

end Loku
