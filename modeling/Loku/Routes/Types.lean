import Loku.Media.Codecs
import Loku.Media.Worker

/-!
# Shared payload types

The derivation status of a video is computed when a request is answered, from the row, the
failure joined to it and the job that is running. A `VideoItem` is one video as the browse,
search and item routes expose it.
-/

namespace Loku

inductive DerivationState
  | notNeeded
  | done
  | processing
  | pending
  | failed
  | unknown
deriving DecidableEq

structure DerivationStatus where
  state : DerivationState
  error : Option String
deriving DecidableEq

def derivationState (record : VideoRecord) (active : Option ActiveDerivation) : DerivationState :=
  if active.any fun a => a.library == record.library && a.relPath == record.relPath then .processing
  else if record.compatRelPath.isSome then .done
  else if record.codecSource.isNone then .pending
  else
    match decideDerivation (.ofRecord record false) with
    | .notNeeded => .notNeeded
    | .unplannable => .unknown
    | .produce _ => if record.derivationError.isSome then .failed else .pending

def derivationStatus (record : VideoRecord) (active : Option ActiveDerivation) :
    DerivationStatus where
  state := derivationState record active
  error := if derivationState record active = .failed then record.derivationError else none

/-- A video whose derivation has failed has the error of the failure. -/
theorem derivationError_of_failed {record : VideoRecord} {active : Option ActiveDerivation}
    (h : (derivationStatus record active).state = .failed) : record.derivationError ≠ none := by
  change derivationState record active = .failed at h
  intro hnone
  unfold derivationState at h
  split at h
  · cases h
  · split at h
    · cases h
    · split at h
      · cases h
      · split at h
        · cases h
        · cases h
        · rw [hnone] at h
          cases h

/-! ## Items -/

structure VideoItem where
  library : String
  path : String
  name : String
  title : Option String
  titleSource : Option TitleSource
  durationSecs : Option F64
  uploadDate : Option String
  year : Option Int
  description : Option String
  channel : Option String
  channelUrl : Option String
  webpageUrl : Option String
  viewCount : Option Int
  genres : List String
  thumbPath : Option String
  compatPath : Option String
  nativeType : Option String
  derivation : DerivationStatus
  discSet : Option String
  discTitleIndex : Option Int
deriving DecidableEq

/-- The item of a record, with the worker's live status. -/
def VideoItem.fromRecord (active : Option ActiveDerivation) (record : VideoRecord) : VideoItem where
  library := record.library
  path := record.relPath
  name := record.fileName
  title := record.title
  titleSource := record.titleSource
  durationSecs := record.durationSecs
  uploadDate := record.uploadDate
  year := record.year
  description := record.description
  channel := record.channel
  channelUrl := record.channelUrl
  webpageUrl := record.webpageUrl
  viewCount := record.viewCount
  genres := record.genres
  thumbPath := record.thumbRelPath
  compatPath := record.compatRelPath
  nativeType := nativeSourceType record.container record.vcodec record.acodec
  derivation := derivationStatus record active
  discSet := record.discSet
  discTitleIndex := record.discTitleIndex

end Loku
