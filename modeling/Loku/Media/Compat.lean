import Loku.Index.Store
import Mathlib.Data.List.Infix

/-!
# The compat planner

From a video's codec facts, whether a browser-compatible copy is needed and how to make it.
Codec names come in two vocabularies, ffprobe's bare names and the RFC 6381 strings of
`info.json`.
-/

namespace Loku

inductive VideoAction
  | copy
  | transcode (deinterlace : Bool)
deriving DecidableEq

inductive AudioAction
  | copy
  | transcode
deriving DecidableEq

structure CompatPlan where
  video : VideoAction
  audio : AudioAction
deriving DecidableEq

inductive DerivationDecision
  | notNeeded
  | produce (plan : CompatPlan)
  | unplannable
deriving DecidableEq

structure CompatInputs where
  container : String
  vcodec : Option String
  vprofile : Option String
  acodec : Option String
  fieldOrder : Option String
  hasCompat : Bool
deriving DecidableEq

def startsWithText (s pre : String) : Bool := pre.toList.isPrefixOf s.toList

def isH264 (vcodec : String) : Bool :=
  vcodec == "h264" || vcodec == "avc" || startsWithText vcodec "avc1" ||
    startsWithText vcodec "avc3"

def isAac (acodec : String) : Bool := acodec == "aac" || startsWithText acodec "mp4a"

/-- `str::to_ascii_lowercase`. -/
def toAsciiLowercase (s : List Char) : List Char := s.map Char.toLower

/-- The profile byte of an `avc1.PPCCLL` string is a 10-bit or 4:2:2 one. -/
def rfcProfileIsUnsafe (vcodec : String) : Bool :=
  (((vcodec.toList.splitOn '.')[1]?).bind fun tail => Lib.boundedPrefix tail 2).any fun hex =>
    ["6e".toList, "7a".toList, "f4".toList].contains (toAsciiLowercase hex)

def profileIsBrowserSafe (profile : Option String) : Bool :=
  profile.all fun p =>
    let lowered := toAsciiLowercase p.toList
    !decide ("10".toList <:+: lowered) && !decide ("4:2:2".toList <:+: lowered)

def isInterlaced (fieldOrder : Option String) : Bool :=
  fieldOrder.any fun order => ["tt", "bb", "tb", "bt"].contains order

/-- Decide what to derive for a video. -/
def decideDerivation (inputs : CompatInputs) : DerivationDecision :=
  if inputs.hasCompat then .notNeeded
  else
    match inputs.vcodec with
    | none => .unplannable
    | some vcodec =>
      let videoSafe :=
        isH264 vcodec && !rfcProfileIsUnsafe vcodec && profileIsBrowserSafe inputs.vprofile
      let audioSafe := inputs.acodec.all isAac
      if inputs.container == "mp4" && videoSafe && audioSafe then .notNeeded
      else
        .produce
          { video := if videoSafe then .copy else .transcode (isInterlaced inputs.fieldOrder)
            audio := if audioSafe then .copy else .transcode }

/-- The planner's inputs, read off a record. -/
def CompatInputs.ofRecord (record : VideoRecord) (hasCompat : Bool) : CompatInputs where
  container := record.container
  vcodec := record.vcodec
  vprofile := record.vprofile
  acodec := record.acodec
  fieldOrder := record.fieldOrder
  hasCompat := hasCompat

theorem decideDerivation_of_hasCompat {inputs : CompatInputs} (h : inputs.hasCompat = true) :
    decideDerivation inputs = .notNeeded := by
  unfold decideDerivation
  rw [if_pos h]

/-- Nothing can be planned exactly without a video codec and without a copy. -/
theorem decideDerivation_eq_unplannable_iff {inputs : CompatInputs} :
    decideDerivation inputs = .unplannable ↔ inputs.hasCompat = false ∧ inputs.vcodec = none := by
  unfold decideDerivation
  cases inputs.hasCompat with
  | true => simp
  | false =>
    cases inputs.vcodec with
    | none => simp
    | some vcodec =>
      simp only [Bool.false_eq_true, if_false, reduceCtorEq, and_false, iff_false]
      split <;> simp

example : decideDerivation ⟨"mkv", some "mpeg2video", none, some "ac3", some "tt", false⟩ =
    .produce ⟨.transcode true, .transcode⟩ := by decide

example : decideDerivation ⟨"mp4", some "avc1.6E0028", none, some "mp4a.40.2", none, false⟩ =
    .produce ⟨.transcode false, .copy⟩ := by decide

end Loku
