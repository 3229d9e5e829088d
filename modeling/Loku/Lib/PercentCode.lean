import Mathlib.Data.List.Basic

/-!
# Percent encoding

A text is written in a component of a URL with its unreserved characters as they are and every
other one as the bytes of its UTF-8 encoding, `%` and two hexadecimal digits each. Decoding
undoes this in front of any text (`decode_encode_append`) and keeps a character that is not
`%`, so what separates encoded parts may be there before decoding (`decode_joined`). No reserved
character is left in an encoded text (`not_mem_encode`).
-/

namespace Lib.PercentCode

/-! ## Hexadecimal digits -/

/-- The digit of a number below sixteen. -/
def hexDigit (n : Nat) : Char := "0123456789ABCDEF".toList.getD n '0'

/-- The value of a digit, in letters of either case. -/
def hexValue (c : Char) : Option Nat :=
  if '0' ≤ c ∧ c ≤ '9' then some (c.toNat - 48)
  else if 'A' ≤ c ∧ c ≤ 'F' then some (c.toNat - 55)
  else if 'a' ≤ c ∧ c ≤ 'f' then some (c.toNat - 87)
  else none

theorem hexValue_hexDigit : ∀ n < 16, hexValue (hexDigit n) = some n := by decide

/-- The byte of two digits. -/
def hexByte (high low : Char) : Option UInt8 :=
  (hexValue high).bind fun h => (hexValue low).map fun l => UInt8.ofNat (16 * h + l)

/-! ## Encoding -/

/-- The characters that stand for themselves. -/
def unreserved (c : Char) : Bool :=
  c.isAlphanum || ['-', '_', '.', '!', '~', '*', '\'', '(', ')'].contains c

def encodeByte (b : UInt8) : List Char :=
  ['%', hexDigit (b.toNat / 16), hexDigit (b.toNat % 16)]

def encodeChar (c : Char) : List Char :=
  if unreserved c then [c] else (String.utf8EncodeChar c).flatMap encodeByte

def encode (text : List Char) : List Char := text.flatMap encodeChar

/-! ## Decoding -/

/-- The character that the bytes begin with. -/
def utf8Decode? (bytes : List UInt8) : Option Char := bytes.toByteArray.utf8DecodeChar? 0

/-- Decode behind the bytes of a character that is not yet complete: nothing, where a `%` is not
followed by two digits or the bytes in a row are not UTF-8. -/
def decodeFrom : List UInt8 → List Char → Option (List Char)
  | pending, [] => if pending = [] then some [] else none
  | pending, '%' :: high :: low :: rest =>
    (hexByte high low).bind fun byte =>
      match utf8Decode? (pending ++ [byte]) with
      | some c => (decodeFrom [] rest).map (c :: ·)
      | none => if pending.length < 3 then decodeFrom (pending ++ [byte]) rest else none
  | _, '%' :: _ => none
  | pending, c :: rest => if pending = [] then (decodeFrom [] rest).map (c :: ·) else none

def decode (text : List Char) : Option (List Char) := decodeFrom [] text

@[simp] theorem decode_nil : decode [] = some [] := rfl

/-- A character other than `%` is kept. -/
theorem decode_cons {c : Char} (h : c ≠ '%') (rest : List Char) :
    decode (c :: rest) = (decode rest).map (c :: ·) := by
  unfold decode
  rw [decodeFrom.eq_4]
  · rfl
  · rintro high low tail rfl
    exact absurd rfl h
  · exact h

/-! ## The round trip -/

theorem hexByte_encodeByte (b : UInt8) :
    hexByte (hexDigit (b.toNat / 16)) (hexDigit (b.toNat % 16)) = some b := by
  have hb : b.toNat < 256 := b.toNat_lt
  have hsum : 16 * (b.toNat / 16) + b.toNat % 16 = b.toNat := by omega
  unfold hexByte
  rw [hexValue_hexDigit _ (by omega), Option.bind_some, hexValue_hexDigit _ (by omega),
    Option.map_some, hsum, UInt8.ofNat_toNat]

theorem utf8Decode?_utf8EncodeChar (c : Char) : utf8Decode? (String.utf8EncodeChar c) = some c := by
  have h := ByteArray.utf8DecodeChar?_utf8EncodeChar_append (b := .empty) (c := c)
  rwa [ByteArray.append_empty] at h

/-- A character is not complete before its last byte. -/
theorem utf8Decode?_of_append {c : Char} {pre post : List UInt8}
    (h : pre ++ post = String.utf8EncodeChar c) (hpost : post ≠ []) : utf8Decode? pre = none := by
  by_contra hsome
  obtain ⟨d, hd⟩ := Option.ne_none_iff_exists'.mp hsome
  have happ := ByteArray.utf8DecodeChar?_append_eq_some hd post.toByteArray
  rw [← List.toByteArray_append, h] at happ
  have hcd : some c = some d := by
    rw [← utf8Decode?_utf8EncodeChar c]
    exact happ
  cases hcd
  have hsize := ByteArray.le_size_of_utf8DecodeChar?_eq_some hd
  have hlength := congrArg List.length h
  have hpos := List.length_pos_of_ne_nil hpost
  rw [List.length_append, String.length_utf8EncodeChar] at hlength
  rw [List.size_toByteArray] at hsize
  omega

/-- One more byte of a character is read, until it is complete. -/
theorem decodeFrom_encodeBytes {c : Char} {pending bytes : List UInt8}
    (h : pending ++ bytes = String.utf8EncodeChar c) (hbytes : bytes ≠ []) (rest : List Char) :
    decodeFrom pending (bytes.flatMap encodeByte ++ rest) = (decode rest).map (c :: ·) := by
  induction bytes generalizing pending with
  | nil => exact absurd rfl hbytes
  | cons b bytes ih =>
    have happ : pending ++ [b] ++ bytes = String.utf8EncodeChar c := by
      rw [← h, List.append_assoc]
      rfl
    rw [List.flatMap_cons, List.append_assoc]
    change decodeFrom pending ('%' :: hexDigit (b.toNat / 16) :: hexDigit (b.toNat % 16) ::
      (bytes.flatMap encodeByte ++ rest)) = _
    rw [decodeFrom, hexByte_encodeByte, Option.bind_some]
    by_cases hlast : bytes = []
    · rw [hlast, List.append_nil] at happ
      rw [happ, utf8Decode?_utf8EncodeChar, hlast]
      rfl
    · have hlength := congrArg List.length happ
      have hfour := c.utf8Size_le_four
      have hpos := List.length_pos_of_ne_nil hlast
      simp only [List.length_append, List.length_singleton, String.length_utf8EncodeChar]
        at hlength
      rw [utf8Decode?_of_append happ hlast]
      simp only [show pending.length < 3 by omega, if_true]
      exact ih happ hlast

theorem decode_encodeChar_append (c : Char) (rest : List Char) :
    decode (encodeChar c ++ rest) = (decode rest).map (c :: ·) := by
  unfold encodeChar
  split
  · rename_i h
    apply decode_cons
    rintro rfl
    exact absurd h (by decide)
  · have hbytes : [] ++ String.utf8EncodeChar c = String.utf8EncodeChar c := rfl
    exact decodeFrom_encodeBytes hbytes String.utf8EncodeChar_ne_nil rest

/-- Decoding undoes encoding, in front of any text. -/
theorem decode_encode_append (text rest : List Char) :
    decode (encode text ++ rest) = (decode rest).map (text ++ ·) := by
  induction text with
  | nil => simp [encode]
  | cons c cs ih =>
    have hcons : encode (c :: cs) = encodeChar c ++ encode cs := List.flatMap_cons
    rw [hcons, List.append_assoc, decode_encodeChar_append, ih, Option.map_map]
    rfl

theorem decode_encode (text : List Char) : decode (encode text) = some text := by
  have h := decode_encode_append text []
  rwa [List.append_nil, decode_nil, Option.map_some, List.append_nil] at h

/-- Encoded parts may be joined before they are decoded. -/
theorem decode_joined {sep : Char} (hsep : sep ≠ '%') (parts : List (List Char)) :
    decode ([sep].intercalate (parts.map encode)) = some ([sep].intercalate parts) := by
  induction parts with
  | nil => rfl
  | cons part parts ih =>
    cases parts with
    | nil => simpa using decode_encode part
    | cons next parts =>
      rw [List.map_cons] at ih
      rw [List.map_cons, List.map_cons, List.intercalate_cons_cons, List.append_assoc,
        decode_encode_append, List.singleton_append, decode_cons hsep, ih,
        List.intercalate_cons_cons]
      simp

/-! ## What an encoded text is made of -/

theorem hexDigit_mem : ∀ n < 16, hexDigit n ∈ "0123456789ABCDEF".toList := by decide

/-- A text of unreserved characters stands for itself. -/
theorem encode_of_unreserved {text : List Char} (h : ∀ c ∈ text, unreserved c = true) :
    encode text = text := by
  induction text with
  | nil => rfl
  | cons c text ih =>
    have hrest := ih fun d hd => h d (List.mem_cons_of_mem _ hd)
    unfold encode at hrest ⊢
    rw [List.flatMap_cons, hrest, encodeChar, if_pos (h c List.mem_cons_self),
      List.singleton_append]

/-- A character that is neither unreserved nor `%` does not occur in an encoded text. -/
theorem not_mem_encode {d : Char} (h : unreserved d = false) (hpct : d ≠ '%') (text : List Char) :
    d ∉ encode text := by
  intro hmem
  obtain ⟨c, -, hc⟩ := List.mem_flatMap.mp hmem
  unfold encodeChar at hc
  split at hc
  · rename_i hunreserved
    rw [List.mem_singleton] at hc
    rw [hc, hunreserved] at h
    cases h
  · obtain ⟨b, -, hb⟩ := List.mem_flatMap.mp hc
    have hlt : b.toNat < 256 := b.toNat_lt
    have hdigits : ∀ c ∈ "0123456789ABCDEF".toList, unreserved c = true :=
      List.all_eq_true.mp (by decide)
    simp only [encodeByte, List.mem_cons, List.not_mem_nil, or_false] at hb
    rcases hb with hb | hb | hb
    · exact hpct hb
    · rw [hb, hdigits _ (hexDigit_mem _ (by omega))] at h
      cases h
    · rw [hb, hdigits _ (hexDigit_mem _ (by omega))] at h
      cases h

theorem encode_ne_nil {text : List Char} (h : text ≠ []) : encode text ≠ [] := by
  intro hnil
  have hdecode := decode_encode text
  rw [hnil, decode_nil] at hdecode
  exact h (Option.some.inj hdecode).symm

/-- Nothing is decoded to an empty text but the empty one. -/
theorem decodeFrom_ne_some_nil {pending : List UInt8} {text : List Char}
    (h : pending ≠ [] ∨ text ≠ []) : decodeFrom pending text ≠ some [] := by
  induction pending, text using decodeFrom.induct with
  | case1 => simp at h
  | case2 pending hpending => simp [decodeFrom, hpending]
  | case3 pending high low rest _ ih =>
    intro hdecode
    rw [decodeFrom] at hdecode
    obtain ⟨byte, -, hbyte⟩ := Option.bind_eq_some_iff.mp hdecode
    cases hc : utf8Decode? (pending ++ [byte]) with
    | some c => simp [hc] at hbyte
    | none =>
      simp only [hc] at hbyte
      split at hbyte
      · exact ih byte (Or.inl (by simp)) hbyte
      · cases hbyte
  | case4 pending rest hshort => simp [decodeFrom]
  | case5 c rest hlong hpct _ => simp [decodeFrom]
  | case6 pending c rest hlong hpct hpending => simp [decodeFrom, hpending]

end Lib.PercentCode
