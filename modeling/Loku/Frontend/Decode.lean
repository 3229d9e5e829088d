import Loku.Lib.Double
import Loku.Media.Sidecars

/-!
# JSON decoders

The decoders of the client, as functions from a JSON value: `field` looks up a name, `maybe`
turns any failure into nothing, and `required` and `optional` add one field each to a decoder
of a constructor. A missing field or a `null` gives an optional field its fallback; a value of
another kind fails. Numbers are doubles once they are read.

`Json.record` is the object of a struct, where a skipped field has no value; `get_record` is the
lookup of one of its names.
-/

namespace Loku

namespace Json

/-- The object of a struct's fields, without the skipped ones. -/
def record (slots : List (String × Option Json)) : Json :=
  object (slots.filterMap fun s => s.2.map fun v => (s.1, v))

/-- What a struct's fields hold under a name. -/
def slot (key : String) : List (String × Option Json) → Option Json
  | [] => none
  | (name, value) :: slots => if name = key then value.or (slot key slots) else slot key slots

/-- The value under a name of a struct. -/
theorem get_record (key : String) (slots : List (String × Option Json)) :
    (record slots).get key = slot key slots := by
  unfold record get
  induction slots with
  | nil => rfl
  | cons s slots ih =>
    obtain ⟨name, value⟩ := s
    rw [slot, ← ih]
    cases value with
    | none => simp
    | some v =>
      by_cases h : name = key
      · subst h
        simp
      · simp [h]

/-- An integer as serde writes it. -/
def ofInt (n : Int) : Json := number (if 0 ≤ n then .posInt n.toNat else .negInt n)

/-- A floating-point number as serde writes it: the non-finite ones as `null`. -/
def ofF64 : F64 → Json
  | .finite q => number (.float q)
  | .infinite _ => null
  | .nan => null

end Json

abbrev Decoder (α : Type) := Json → Option α

namespace Decode

variable {α β : Type}

def succeed (a : α) : Decoder α := fun _ => some a

def fail : Decoder α := fun _ => none

def map (f : α → β) (decoder : Decoder α) : Decoder β := fun json => (decoder json).map f

def andThen (f : α → Decoder β) (decoder : Decoder α) : Decoder β := fun json =>
  (decoder json).bind fun a => f a json

def value : Decoder Json := fun json => some json

def null (a : α) : Decoder α
  | .null => some a
  | _ => none

def string : Decoder String
  | .string s => some s
  | _ => none

def float : Decoder Rat
  | .number n => some n.asDouble
  | _ => none

/-- A number without a fractional part. -/
def int : Decoder Int
  | .number n => if n.asDouble.den = 1 then some n.asDouble.num else none
  | _ => none

def list (decoder : Decoder α) : Decoder (List α)
  | .array items => items.mapM decoder
  | _ => none

def field (key : String) (decoder : Decoder α) : Decoder α := fun json =>
  (json.get key).bind decoder

def maybe (decoder : Decoder α) : Decoder (Option α) := fun json => some (decoder json)

/-- The first decoder, or the second where it fails. -/
def orElse (first second : Decoder α) : Decoder α := fun json => (first json).or (second json)

/-- `required` of the pipeline. -/
def required (key : String) (valDecoder : Decoder α) (decoder : Decoder (α → β)) : Decoder β :=
  fun json => (decoder json).bind fun f => (field key valDecoder json).map f

/-- The value of an optional field. -/
def optionalField (key : String) (valDecoder : Decoder α) (fallback : α) : Decoder α := fun json =>
  match field key value json with
  | some raw => orElse valDecoder (null fallback) raw
  | none => some fallback

/-- `optional` of the pipeline. -/
def optional (key : String) (valDecoder : Decoder α) (fallback : α)
    (decoder : Decoder (α → β)) : Decoder β := fun json =>
  (decoder json).bind fun f => (optionalField key valDecoder fallback json).map f

/-! ## Reading back -/

theorem list_array {decoder : Decoder β} {encode : α → Json} {f : α → β} {as : List α}
    (h : ∀ a ∈ as, decoder (encode a) = some (f a)) :
    list decoder (.array (as.map encode)) = some (as.map f) := by
  show (as.map encode).mapM decoder = some (as.map f)
  induction as with
  | nil => rfl
  | cons a as ih =>
    have htail := ih fun a' ha' => h a' (List.mem_cons_of_mem a ha')
    rw [List.map_cons, List.mapM_cons, h a List.mem_cons_self, htail]
    rfl

/-- The integers a reader with doubles gets unchanged. -/
def Exact (n : Int) : Prop := Lib.asDouble n = n

instance (n : Int) : Decidable (Exact n) := inferInstanceAs (Decidable (_ = _))

theorem int_ofInt {n : Int} (h : Exact n) : int (.ofInt n) = some n := by
  have hread : (if 0 ≤ n then JsonNumber.posInt n.toNat else .negInt n).asDouble = (n : Rat) := by
    split
    · rename_i hn
      show ((Lib.asDouble (n.toNat : Int) : Int) : Rat) = n
      rw [Int.toNat_of_nonneg hn, h]
    · show ((Lib.asDouble n : Int) : Rat) = n
      rw [h]
  unfold Json.ofInt int
  simp only [hread]
  simp

section Optional
variable {json : Json} {key : String}

/-- A field that is written, or skipped when there is nothing to write. -/
theorem optionalField_just {decoder : Decoder β} (encode : α → Json) {f : α → β} {o : Option α}
    (hget : json.get key = o.map encode) (h : ∀ a ∈ o, decoder (encode a) = some (f a)) :
    optionalField key (map some decoder) none json = some (o.map f) := by
  unfold optionalField field
  rw [hget]
  cases o with
  | none => rfl
  | some a =>
    have ha := h a rfl
    simp only [Option.map_some, Option.bind_some, value, orElse, map, ha, Option.some_or]

theorem optionalField_string {o : Option String} (hget : json.get key = o.map Json.string) :
    optionalField key (map some string) none json = some o := by
  have hjust := optionalField_just Json.string (f := id) hget fun s _ =>
    (rfl : string (.string s) = some s)
  rwa [Option.map_id] at hjust

theorem optionalField_int {o : Option Int} (hget : json.get key = o.map Json.ofInt)
    (h : ∀ n ∈ o, Exact n) : optionalField key (map some int) none json = some o := by
  have := optionalField_just Json.ofInt (f := id) hget fun n hn => int_ofInt (h n hn)
  rwa [Option.map_id] at this

/-- A non-finite number is written as `null`, which is nothing. -/
theorem optionalField_float {o : Option F64} (hget : json.get key = o.map Json.ofF64) :
    optionalField key (map some float) none json = some (o.bind F64.toRat?) := by
  unfold optionalField field
  rw [hget]
  cases o with
  | none => rfl
  | some x => cases x <;> rfl

end Optional

end Decode

end Loku
