import Loku.Frontend.Decode
import Loku.Routes.Search

/-!
# Payloads as JSON

What serde writes for the payload types: a struct is an object of its fields, an absent option
and an empty genre list are skipped where the field says so, an entry carries its kind under
`type`, and enumerations are written in snake case.
-/

namespace Loku

def DerivationState.toJson : DerivationState → Json
  | .notNeeded => .string "not_needed"
  | .done => .string "done"
  | .processing => .string "processing"
  | .pending => .string "pending"
  | .failed => .string "failed"
  | .unknown => .string "unknown"

def TitleSource.text : TitleSource → String
  | .nfo => "nfo"
  | .infoJson => "info_json"
  | .ripName => "rip_name"

def TitleSource.toJson (source : TitleSource) : Json := .string source.text

def DerivationStatus.toJson (status : DerivationStatus) : Json :=
  .record [("state", some status.state.toJson), ("error", status.error.map .string)]

/-- `skip_serializing_if = "Vec::is_empty"`. -/
def genresJson (genres : List String) : Option Json :=
  if genres.isEmpty then none else some (.array (genres.map .string))

def VideoItem.fields (item : VideoItem) : List (String × Option Json) :=
  [("library", some (.string item.library)),
    ("path", some (.string item.path)),
    ("name", some (.string item.name)),
    ("title", item.title.map .string),
    ("title_source", item.titleSource.map TitleSource.toJson),
    ("duration_secs", item.durationSecs.map Json.ofF64),
    ("upload_date", item.uploadDate.map .string),
    ("year", item.year.map Json.ofInt),
    ("description", item.description.map .string),
    ("channel", item.channel.map .string),
    ("channel_url", item.channelUrl.map .string),
    ("webpage_url", item.webpageUrl.map .string),
    ("view_count", item.viewCount.map Json.ofInt),
    ("genres", genresJson item.genres),
    ("thumb_path", item.thumbPath.map .string),
    ("compat_path", item.compatPath.map .string),
    ("native_type", item.nativeType.map .string),
    ("derivation", some item.derivation.toJson),
    ("disc_set", item.discSet.map .string),
    ("disc_title_index", item.discTitleIndex.map Json.ofInt)]

def VideoItem.toJson (item : VideoItem) : Json := .record item.fields

def DirEntry.fields (dir : DirEntry) : List (String × Option Json) :=
  [("name", some (.string dir.name)), ("path", some (.string dir.path))]

def DiscSetEntry.fields (set : DiscSetEntry) : List (String × Option Json) :=
  [("disc_set", some (.string set.discSet)),
    ("display_title", some (.string set.displayTitle)),
    ("main", some set.main.toJson),
    ("titles", some (.array (set.titles.map VideoItem.toJson)))]

/-- The kind stands beside the fields of the entry. -/
def Entry.toJson : Entry → Json
  | .directory dir => .record (("type", some (.string "directory")) :: dir.fields)
  | .video item => .record (("type", some (.string "video")) :: item.fields)
  | .discSet set => .record (("type", some (.string "disc_set")) :: set.fields)

def DirListing.toJson (listing : DirListing) : Json :=
  .record
    [("library", some (.string listing.library)),
      ("path", some (.string listing.path)),
      ("entries", some (.array (listing.entries.map Entry.toJson)))]

def SearchPage.toJson (page : SearchPage) : Json :=
  .record
    [("total", some (.ofInt page.total)),
      ("limit", some (.ofInt page.limit)),
      ("offset", some (.ofInt page.offset)),
      ("items", some (.array (page.items.map VideoItem.toJson)))]

end Loku
