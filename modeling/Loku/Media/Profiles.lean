import Loku.Media.Compat

/-!
# H.264 profiles in both vocabularies

ffprobe names a profile (`High 10`), an RFC 6381 string spells its number in two hexadecimal
digits (`avc1.6E0028`). The planner looks for parts of the name in the one and reads the
digits of the other. The two classifications differ on one profile, `High 4:4:4 Predictive`:
its name has neither of the parts that the planner looks for, its number is on the list
(`decideDerivation_rfcCodec_eq_iff`).
-/

namespace Loku

/-- The profiles that both vocabularies express. -/
inductive H264Profile
  | baseline
  | main
  | high
  | high10
  | high422
  | high444Predictive
deriving DecidableEq

namespace H264Profile

/-- The number of a profile, `profile_idc`. -/
def idc : H264Profile → Nat
  | baseline => 66
  | main => 77
  | high => 100
  | high10 => 110
  | high422 => 122
  | high444Predictive => 244

/-- The name that ffprobe gives a profile. -/
def ffprobeName : H264Profile → String
  | baseline => "Baseline"
  | main => "Main"
  | high => "High"
  | high10 => "High 10"
  | high422 => "High 4:2:2"
  | high444Predictive => "High 4:4:4 Predictive"

end H264Profile

/-- Hexadecimal digits of a number, in letters of either case. -/
def SpellsInHex (digits : List Char) (n : Nat) : Prop :=
  toAsciiLowercase digits = Nat.toDigits 16 n

instance (digits : List Char) (n : Nat) : Decidable (SpellsInHex digits n) :=
  inferInstanceAs (Decidable (_ = _))

/-- An RFC 6381 name: the digits of the profile and those of the constraints and the level. -/
def rfcCodec (digits level : List Char) : String :=
  String.ofList ("avc1".toList ++ '.' :: (digits ++ level))

theorem toList_rfcCodec (digits level : List Char) :
    (rfcCodec digits level).toList = "avc1".toList ++ '.' :: (digits ++ level) :=
  String.toList_ofList

/-! ## What the decision reads of the video stream -/

/-- The planner's test of the video stream. -/
def videoIsSafe (vcodec : String) (vprofile : Option String) : Bool :=
  isH264 vcodec && !rfcProfileIsUnsafe vcodec && profileIsBrowserSafe vprofile

/-- The stream is left as it is: nothing is derived, or the stream is copied. -/
def DerivationDecision.keepsVideo : DerivationDecision → Bool
  | .notNeeded => true
  | .produce plan => plan.video == .copy
  | .unplannable => false

theorem keepsVideo_decideDerivation (container vcodec : String)
    (vprofile acodec fieldOrder : Option String) :
    (decideDerivation ⟨container, some vcodec, vprofile, acodec, fieldOrder, false⟩).keepsVideo =
      videoIsSafe vcodec vprofile := by
  have hsafe : (isH264 vcodec && !rfcProfileIsUnsafe vcodec && profileIsBrowserSafe vprofile) =
      videoIsSafe vcodec vprofile := rfl
  simp only [decideDerivation, hsafe]
  cases videoIsSafe vcodec vprofile with
  | false => simp [DerivationDecision.keepsVideo]
  | true =>
    split
    · contradiction
    · split <;> rfl

/-- The decision depends on the video stream through the test alone. -/
theorem decideDerivation_eq_of_videoIsSafe_eq {vcodec vcodec' : String}
    {vprofile vprofile' : Option String}
    (h : videoIsSafe vcodec vprofile = videoIsSafe vcodec' vprofile') (container : String)
    (acodec fieldOrder : Option String) (hasCompat : Bool) :
    decideDerivation ⟨container, some vcodec, vprofile, acodec, fieldOrder, hasCompat⟩ =
      decideDerivation ⟨container, some vcodec', vprofile', acodec, fieldOrder, hasCompat⟩ := by
  unfold videoIsSafe at h
  simp only [decideDerivation, h]

/-! ## The two classifications -/

/-- The test reads the first two bytes after the first dot. -/
theorem rfcProfileIsUnsafe_of_toList {vcodec : String} {before after : List Char}
    (h : vcodec.toList = before ++ '.' :: after) (hdot : '.' ∉ before) :
    rfcProfileIsUnsafe vcodec =
      (Lib.boundedPrefix (after.takeWhile (· ≠ '.')) 2).any fun hex =>
        ["6e".toList, "7a".toList, "f4".toList].contains (toAsciiLowercase hex) := by
  unfold rfcProfileIsUnsafe
  rw [h, Lib.getElem?_one_splitOn hdot, Option.bind_some]

/-- The digits of the profile follow the dot. -/
theorem rfcProfileIsUnsafe_rfcCodec {digits : List Char} {n : Nat} (h : SpellsInHex digits n)
    (hlength : (Nat.toDigits 16 n).length = 2)
    (hascii : (Nat.toDigits 16 n).all fun c => c.utf8Size = 1 ∧ c ≠ '.') (level : List Char) :
    rfcProfileIsUnsafe (rfcCodec digits level) =
      ["6e".toList, "7a".toList, "f4".toList].contains (Nat.toDigits 16 n) := by
  have hdigit : ∀ c ∈ digits, c.utf8Size = 1 ∧ c ≠ '.' := by
    intro c hc
    have hmem : c.toLower ∈ Nat.toDigits 16 n := by
      rw [← h]
      exact List.mem_map_of_mem hc
    obtain ⟨hsize, hdot⟩ := of_decide_eq_true (List.all_eq_true.mp hascii _ hmem)
    refine ⟨by rw [← Lib.utf8Size_toLower, hsize], ?_⟩
    rintro rfl
    exact hdot (by decide)
  have hnodot : '.' ∉ "avc1".toList := by decide
  have htake : (digits ++ level).takeWhile (· ≠ '.') = digits ++ level.takeWhile (· ≠ '.') := by
    rw [List.takeWhile_append_of_pos]
    intro c hc
    simpa using (hdigit c hc).2
  have hprefix := Lib.boundedPrefix_append_of_ascii (fun c hc => (hdigit c hc).1)
    (level.takeWhile (· ≠ '.'))
  have htwo : digits.length = 2 := by
    rw [← hlength, ← h]
    simp [toAsciiLowercase]
  rw [htwo] at hprefix
  rw [rfcProfileIsUnsafe_of_toList (toList_rfcCodec digits level) hnodot, htake, hprefix,
    Option.any_some, h]

theorem videoIsSafe_ffprobeName (profile : H264Profile) :
    videoIsSafe "h264" (some profile.ffprobeName) =
      decide (profile ≠ .high10 ∧ profile ≠ .high422) := by
  cases profile <;> decide

theorem videoIsSafe_rfcCodec {digits : List Char} {profile : H264Profile}
    (h : SpellsInHex digits profile.idc) (level : List Char) :
    videoIsSafe (rfcCodec digits level) none =
      decide (profile ≠ .high10 ∧ profile ≠ .high422 ∧ profile ≠ .high444Predictive) := by
  have hh264 : isH264 (rfcCodec digits level) = true := by
    have hstarts : startsWithText (rfcCodec digits level) "avc1" = true := by
      rw [startsWithText, toList_rfcCodec]
      exact List.isPrefixOf_iff_prefix.mpr (List.prefix_append _ _)
    rw [isH264, hstarts, Bool.or_true, Bool.true_or]
  have hunsafe : rfcProfileIsUnsafe (rfcCodec digits level) =
      ["6e".toList, "7a".toList, "f4".toList].contains (Nat.toDigits 16 profile.idc) := by
    apply rfcProfileIsUnsafe_rfcCodec h
    · cases profile <;> decide
    · cases profile <;> decide
  have hnone : profileIsBrowserSafe none = true := rfl
  unfold videoIsSafe
  rw [hh264, hunsafe, hnone]
  cases profile <;> decide

/-- The planner decides alike for both names of a profile, unless the profile is
`High 4:4:4 Predictive` and there is no compatible copy yet. -/
theorem decideDerivation_rfcCodec_eq_iff {profile : H264Profile} {digits : List Char}
    (h : SpellsInHex digits profile.idc) (level : List Char) (container : String)
    (acodec fieldOrder : Option String) (hasCompat : Bool) :
    decideDerivation
        ⟨container, some "h264", some profile.ffprobeName, acodec, fieldOrder, hasCompat⟩ =
      decideDerivation
        ⟨container, some (rfcCodec digits level), none, acodec, fieldOrder, hasCompat⟩ ↔
      (profile = .high444Predictive → hasCompat = true) := by
  constructor
  · rintro heq rfl
    by_contra hcompat
    rw [Bool.not_eq_true] at hcompat
    subst hcompat
    have hkeeps := congrArg DerivationDecision.keepsVideo heq
    rw [keepsVideo_decideDerivation, keepsVideo_decideDerivation, videoIsSafe_ffprobeName,
      videoIsSafe_rfcCodec h] at hkeeps
    simp at hkeeps
  · intro hcond
    by_cases hprofile : profile = .high444Predictive
    · rw [hcond hprofile, decideDerivation_of_hasCompat rfl, decideDerivation_of_hasCompat rfl]
    · apply decideDerivation_eq_of_videoIsSafe_eq
      rw [videoIsSafe_ffprobeName, videoIsSafe_rfcCodec h]
      simp [hprofile]

theorem decideDerivation_rfcCodec_eq_high10 :
    decideDerivation ⟨"mp4", some "h264", some "High 10", some "aac", some "tt", false⟩ =
      decideDerivation ⟨"mp4", some "avc1.6e0028", none, some "aac", some "tt", false⟩ :=
  have hdigits : SpellsInHex ['6', 'e'] H264Profile.high10.idc := by decide
  (decideDerivation_rfcCodec_eq_iff hdigits ['0', '0', '2', '8'] "mp4" (some "aac") (some "tt")
    false).mpr (by decide)

/-- The name says the stream is safe, the number that it is not. -/
theorem decideDerivation_high444Predictive_ne :
    decideDerivation
        ⟨"mp4", some "h264", some "High 4:4:4 Predictive", some "aac", none, false⟩ ≠
      decideDerivation ⟨"mp4", some "avc1.F40028", none, some "aac", none, false⟩ := by
  decide

end Loku
