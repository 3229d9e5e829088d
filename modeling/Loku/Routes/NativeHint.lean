import Loku.Media.Profiles
import Loku.Routes.Types

/-!
# The native hint and the planner

Both read the codec string of a video: the hint passes on the profile that the string names,
the planner also looks at the profile that ffprobe has reported. For H.264 in MP4, under a
name that the hint knows, the planner keeps the video stream exactly when the hint names a safe
profile and the reported one is safe too (`keepsVideo_iff_namesSafeH264`).
-/

namespace Loku

/-- The codecs parameter of a type hint, what stands between its outer quotes. -/
def hintCodecs (hint : String) : String :=
  String.ofList ((hint.toList.dropWhile (· ≠ '"')).drop 1).dropLast

/-- The hint is one for H.264, and the profile that it names is safe. -/
def namesSafeH264 (hint : String) : Bool :=
  isH264 (hintCodecs hint) && !rfcProfileIsUnsafe (hintCodecs hint)

/-- The codecs parameter: the video codec, and the audio codec if it can be named. -/
def codecsParameter (token : String) (audio : Option String) : String :=
  match audio with
  | some audio => token ++ ", " ++ audio
  | none => token

theorem hintCodecs_mp4 (codecs : String) :
    hintCodecs ("video/mp4" ++ "; codecs=\"" ++ codecs ++ "\"") = codecs := by
  have hhead : ∀ c ∈ "video/mp4; codecs=".toList, decide (c ≠ '"') = true :=
    List.all_eq_true.mp (by decide)
  have htext : ("video/mp4" ++ "; codecs=\"" ++ codecs ++ "\"").toList =
      "video/mp4; codecs=".toList ++ '"' :: (codecs.toList ++ ['"']) := by
    simp
  unfold hintCodecs
  rw [htext, List.dropWhile_append_of_pos hhead]
  simp

theorem nativeSourceType_mp4 {vcodec token : String} (h : videoCodecToken vcodec = some token)
    (acodec : Option String) :
    nativeSourceType "mp4" (some vcodec) acodec =
      some ("video/mp4" ++ "; codecs=\"" ++
        codecsParameter token (acodec.bind audioCodecToken) ++ "\"") := by
  simp only [nativeSourceType, containerType, Option.bind_some, h, Option.map_some]
  cases acodec.bind audioCodecToken <;> rfl

/-! ## The profile that the hint names -/

/-- A comma is no digit of a profile. -/
theorem any_boundedPrefix_comma (tail rest : List Char) :
    ((Lib.boundedPrefix (tail ++ ',' :: rest) 2).any fun hex =>
        ["6e".toList, "7a".toList, "f4".toList].contains (toAsciiLowercase hex)) =
      (Lib.boundedPrefix tail 2).any fun hex =>
        ["6e".toList, "7a".toList, "f4".toList].contains (toAsciiLowercase hex) := by
  have hcomma : ','.utf8Size = 1 := by decide
  have hlower : ','.toLower = ',' := by decide
  match tail with
  | [] =>
    cases h : Lib.boundedPrefix rest 1 with
    | none => simp [Lib.boundedPrefix, hcomma, h]
    | some _ => simp [Lib.boundedPrefix, hcomma, h, toAsciiLowercase, hlower]
  | [c] =>
    by_cases hc : c.utf8Size = 1
    · simp [Lib.boundedPrefix, hc, hcomma, toAsciiLowercase, hlower]
    · have hpos := Char.utf8Size_pos c
      by_cases htwo : c.utf8Size = 2
      · simp [Lib.boundedPrefix, htwo]
      · have hlarge : ¬ c.utf8Size ≤ 2 := by omega
        simp [Lib.boundedPrefix, hlarge]
  | c :: d :: tail =>
    have hposc := Char.utf8Size_pos c
    have hposd := Char.utf8Size_pos d
    by_cases hc : c.utf8Size = 1
    · by_cases hd : d.utf8Size = 1
      · simp [Lib.boundedPrefix, hc, hd]
      · have hlarge : ¬ d.utf8Size ≤ 1 := by omega
        simp [Lib.boundedPrefix, hc, hlarge]
    · by_cases htwo : c.utf8Size = 2
      · simp [Lib.boundedPrefix, htwo]
      · have hlarge : ¬ c.utf8Size ≤ 2 := by omega
        simp [Lib.boundedPrefix, hlarge]

/-- The audio codec behind a dotted video codec does not change the profile that is read. -/
theorem rfcProfileIsUnsafe_codecsParameter {token : String} (h : '.' ∈ token.toList)
    (audio : Option String) :
    rfcProfileIsUnsafe (codecsParameter token audio) = rfcProfileIsUnsafe token := by
  cases audio with
  | none => rfl
  | some audio =>
    obtain ⟨before, after, htoken, hdot⟩ := List.eq_append_cons_of_mem h
    have hcodecs : (codecsParameter token (some audio)).toList =
        before ++ '.' :: (after ++ ',' :: ' ' :: audio.toList) := by
      simp [codecsParameter, htoken]
    rw [rfcProfileIsUnsafe_of_toList hcodecs hdot, rfcProfileIsUnsafe_of_toList htoken hdot,
      List.takeWhile_append]
    split
    · rename_i hall
      have hafter : after.takeWhile (· ≠ '.') = after :=
        (List.takeWhile_prefix _).eq_of_length hall
      rw [List.takeWhile_cons_of_pos (by decide), any_boundedPrefix_comma, hafter]
    · rfl

theorem startsWithText_append {s pre : String} (h : startsWithText s pre = true) (rest : String) :
    startsWithText (s ++ rest) pre = true := by
  simp only [startsWithText, List.isPrefixOf_iff_prefix, String.toList_append] at h ⊢
  exact h.trans (List.prefix_append _ _)

/-- A dotted H.264 name is one of the RFC 6381 names. -/
theorem startsWithText_of_isH264 {vcodec : String} (h : isH264 vcodec = true)
    (hdot : '.' ∈ vcodec.toList) :
    startsWithText vcodec "avc1" = true ∨ startsWithText vcodec "avc3" = true := by
  simp only [isH264, Bool.or_eq_true, beq_iff_eq] at h
  rcases h with ((rfl | rfl) | h) | h
  · exact absurd hdot (by decide)
  · exact absurd hdot (by decide)
  · exact Or.inl h
  · exact Or.inr h

theorem isH264_codecsParameter {token : String} (h : isH264 token = true)
    (hdot : '.' ∈ token.toList) (audio : Option String) :
    isH264 (codecsParameter token audio) = true := by
  cases audio with
  | none => exact h
  | some audio =>
    have htext : codecsParameter token (some audio) = token ++ (", " ++ audio) :=
      String.append_assoc
    simp only [htext, isH264, Bool.or_eq_true]
    rcases startsWithText_of_isH264 h hdot with h | h
    · exact Or.inl (Or.inr (startsWithText_append h _))
    · exact Or.inr (startsWithText_append h _)

/-- A name of H.264 that the hint knows becomes a dotted one with the same profile. -/
theorem videoCodecToken_of_isH264 {vcodec : String} (h : isH264 vcodec = true)
    (hname : '.' ∈ vcodec.toList ∨ vcodec ∈ ["h264", "avc", "avc1"]) :
    ∃ token, videoCodecToken vcodec = some token ∧ isH264 token = true ∧ '.' ∈ token.toList ∧
      rfcProfileIsUnsafe token = rfcProfileIsUnsafe vcodec := by
  by_cases hdot : '.' ∈ vcodec.toList
  · refine ⟨vcodec, ?_, h, hdot, rfl⟩
    simp [videoCodecToken, hdot]
  · have hbare := hname.resolve_left hdot
    refine ⟨"avc1.42E01E", ?_, by decide, by decide, ?_⟩
    · simp only [List.mem_cons, List.not_mem_nil, or_false] at hbare
      rcases hbare with rfl | rfl | rfl <;> decide
    · simp only [List.mem_cons, List.not_mem_nil, or_false] at hbare
      rcases hbare with rfl | rfl | rfl <;> decide

/-- The hint of an H.264 file in MP4 names a safe profile when its codec string does. -/
theorem any_namesSafeH264_nativeSourceType {vcodec : String} (h : isH264 vcodec = true)
    (hname : '.' ∈ vcodec.toList ∨ vcodec ∈ ["h264", "avc", "avc1"]) (acodec : Option String) :
    (nativeSourceType "mp4" (some vcodec) acodec).any namesSafeH264 =
      !rfcProfileIsUnsafe vcodec := by
  obtain ⟨token, htoken, hh264, hdot, hprofile⟩ := videoCodecToken_of_isH264 h hname
  rw [nativeSourceType_mp4 htoken, Option.any_some, namesSafeH264, hintCodecs_mp4,
    isH264_codecsParameter hh264 hdot, rfcProfileIsUnsafe_codecsParameter hdot, hprofile]
  rfl

/-! ## Agreement -/

/-- An item that needs nothing has a video stream that the planner keeps. -/
theorem keepsVideo_of_notNeeded {record : VideoRecord} {active : Option ActiveDerivation}
    (h : derivationState record active = .notNeeded) :
    (decideDerivation (.ofRecord record false)).keepsVideo = true := by
  simp only [derivationState] at h
  split at h
  · cases h
  · split at h
    · cases h
    · split at h
      · cases h
      · cases hdecide : decideDerivation (.ofRecord record false) with
        | notNeeded => rfl
        | unplannable => simp [hdecide] at h
        | produce plan =>
          simp only [hdecide] at h
          split at h <;> cases h

/-- The planner keeps the video stream exactly when the hint of the native file names a safe
H.264 profile and the reported profile, which the hint does not carry, is safe. An item that
needs nothing has such a hint. -/
theorem keepsVideo_iff_namesSafeH264 {record : VideoRecord} {vcodec : String}
    (hcontainer : record.container = "mp4") (hvcodec : record.vcodec = some vcodec)
    (h : isH264 vcodec = true)
    (hname : '.' ∈ vcodec.toList ∨ vcodec ∈ ["h264", "avc", "avc1"])
    (active : Option ActiveDerivation) :
    ((decideDerivation (.ofRecord record false)).keepsVideo = true ↔
      (VideoItem.fromRecord active record).nativeType.any namesSafeH264 = true ∧
        profileIsBrowserSafe record.vprofile = true) ∧
    ((VideoItem.fromRecord active record).derivation.state = .notNeeded →
      (VideoItem.fromRecord active record).nativeType.any namesSafeH264 = true) := by
  have hhint : (VideoItem.fromRecord active record).nativeType.any namesSafeH264 =
      !rfcProfileIsUnsafe vcodec := by
    change (nativeSourceType record.container record.vcodec record.acodec).any namesSafeH264 = _
    rw [hcontainer, hvcodec, any_namesSafeH264_nativeSourceType h hname]
  have hkeeps : (decideDerivation (.ofRecord record false)).keepsVideo =
      videoIsSafe vcodec record.vprofile := by
    simp only [CompatInputs.ofRecord, hvcodec, keepsVideo_decideDerivation]
  rw [hhint]
  constructor
  · rw [hkeeps, videoIsSafe, h]
    simp
  · intro hstate
    have hsafe := keepsVideo_of_notNeeded hstate
    rw [hkeeps, videoIsSafe, h] at hsafe
    simp only [Bool.true_and, Bool.and_eq_true] at hsafe
    exact hsafe.1

/-- An MP4 file of a browser-safe profile, as ffprobe reports it. -/
def probedMp4 : VideoRecord :=
  { VideoRecord.placed "movies" "Movie.mp4" "" "Movie.mp4" 3 5 with
    container := "mp4"
    vcodec := some "h264"
    acodec := some "aac"
    vprofile := some "High"
    codecSource := some .ffprobe }

theorem keepsVideo_iff_namesSafeH264_probedMp4 :
    ((decideDerivation (.ofRecord probedMp4 false)).keepsVideo = true ↔
      (VideoItem.fromRecord none probedMp4).nativeType.any namesSafeH264 = true ∧
        profileIsBrowserSafe probedMp4.vprofile = true) ∧
    ((VideoItem.fromRecord none probedMp4).derivation.state = .notNeeded →
      (VideoItem.fromRecord none probedMp4).nativeType.any namesSafeH264 = true) :=
  have hvcodec : probedMp4.vcodec = some "h264" := rfl
  keepsVideo_iff_namesSafeH264 rfl hvcodec (by decide) (Or.inr (by decide)) none

/-- A stream of a 10-bit profile is transcoded, under a hint that names a safe one. -/
theorem high10_namesSafeH264 :
    (decideDerivation ⟨"mp4", some "h264", some "High 10", some "aac", none, false⟩).keepsVideo =
        false ∧
      (nativeSourceType "mp4" (some "h264") (some "aac")).any namesSafeH264 = true := by
  decide

end Loku
