import Loku.Frontend.Decode

/-!
# The client's payload types

The records of the client and their decoders.
-/

namespace Loku.Api

structure Library where
  name : String
  kind : LibraryKind
deriving DecidableEq

structure DirEntry where
  name : String
  path : String
deriving DecidableEq

inductive DerivationState
  | notNeeded
  | done
  | processing
  | pending
  | failed
  | unknown
deriving DecidableEq

structure DerivationStatus where
  state : DerivationState
  error : Option String
deriving DecidableEq

structure VideoItem where
  library : String
  path : String
  name : String
  title : Option String
  titleSource : Option String
  durationSecs : Option Rat
  uploadDate : Option String
  year : Option Int
  description : Option String
  channel : Option String
  channelUrl : Option String
  webpageUrl : Option String
  viewCount : Option Int
  genres : List String
  thumbPath : Option String
  compatPath : Option String
  nativeType : Option String
  derivation : DerivationStatus
  discSet : Option String
  discTitleIndex : Option Int
deriving DecidableEq

structure DiscSetEntry where
  discSet : String
  displayTitle : String
  main : VideoItem
  titles : List VideoItem
deriving DecidableEq

inductive Entry
  | directory (dir : DirEntry)
  | video (item : VideoItem)
  | discSet (set : DiscSetEntry)
deriving DecidableEq

structure DirListing where
  library : String
  path : String
  entries : List Entry
deriving DecidableEq

structure SearchPage where
  total : Int
  limit : Int
  offset : Int
  items : List VideoItem
deriving DecidableEq

/-! ## Decoders -/

open Decode (succeed fail map andThen string int float list field maybe required optional)

def derivationStateDecoder : Decoder DerivationState :=
  string |> andThen fun state =>
    match state with
    | "not_needed" => succeed .notNeeded
    | "done" => succeed .done
    | "processing" => succeed .processing
    | "pending" => succeed .pending
    | "failed" => succeed .failed
    | "unknown" => succeed .unknown
    | _ => fail

def derivationStatusDecoder : Decoder DerivationStatus := fun json =>
  (field "state" derivationStateDecoder json).bind fun state =>
    (maybe (field "error" string) json).map fun error => ⟨state, error⟩

def videoItemDecoder : Decoder VideoItem :=
  succeed VideoItem.mk
    |> required "library" string
    |> required "path" string
    |> required "name" string
    |> optional "title" (map some string) none
    |> optional "title_source" (map some string) none
    |> optional "duration_secs" (map some float) none
    |> optional "upload_date" (map some string) none
    |> optional "year" (map some int) none
    |> optional "description" (map some string) none
    |> optional "channel" (map some string) none
    |> optional "channel_url" (map some string) none
    |> optional "webpage_url" (map some string) none
    |> optional "view_count" (map some int) none
    |> optional "genres" (list string) []
    |> optional "thumb_path" (map some string) none
    |> optional "compat_path" (map some string) none
    |> optional "native_type" (map some string) none
    |> required "derivation" derivationStatusDecoder
    |> optional "disc_set" (map some string) none
    |> optional "disc_title_index" (map some int) none

def dirEntryDecoder : Decoder DirEntry := fun json =>
  (field "name" string json).bind fun name =>
    (field "path" string json).map fun path => ⟨name, path⟩

def discSetDecoder : Decoder DiscSetEntry := fun json =>
  (field "disc_set" string json).bind fun discSet =>
    (field "display_title" string json).bind fun displayTitle =>
      (field "main" videoItemDecoder json).bind fun main =>
        (field "titles" (list videoItemDecoder) json).map fun titles =>
          ⟨discSet, displayTitle, main, titles⟩

def entryDecoder : Decoder Entry :=
  field "type" string |> andThen fun entryType =>
    match entryType with
    | "directory" => map .directory dirEntryDecoder
    | "video" => map .video videoItemDecoder
    | "disc_set" => map .discSet discSetDecoder
    | _ => fail

def dirListingDecoder : Decoder DirListing := fun json =>
  (field "library" string json).bind fun library =>
    (field "path" string json).bind fun path =>
      (field "entries" (list entryDecoder) json).map fun entries => ⟨library, path, entries⟩

def searchPageDecoder : Decoder SearchPage := fun json =>
  (field "total" int json).bind fun total =>
    (field "limit" int json).bind fun limit =>
      (field "offset" int json).bind fun offset =>
        (field "items" (list videoItemDecoder) json).map fun items =>
          ⟨total, limit, offset, items⟩

end Loku.Api
