import Mathlib.Data.List.Infix
import Mathlib.Logic.Function.Basic

/-!
# Records read from a stream of keyed entries

A record is read from its entries in one pass. A field of one value takes one entry; a list takes
entries that follow each other. Any later entry of a field that has its values is a duplicate, and
the reading fails.

What is read therefore depends on the order of entries with different keys. `read_eq_ok_iff` says
when the reading succeeds, and `read_reordered_iff` when another order makes no difference.
-/

namespace Lib.Record

/-! ## Items that follow each other -/

section Filter

variable {α : Type} {p : α → Bool} {l : List α} {a : α}

theorem not_infix_filter_append (h : p a = true) : ¬ l.filter p ++ [a] <:+: l := by
  intro hall
  have hself : (l.filter p ++ [a]).filter p = l.filter p ++ [a] :=
    List.filter_eq_self.mpr (by simp +contextual [or_imp, h])
  have hlen := (hall.sublist.filter p).length_le
  rw [hself, List.length_append, List.length_singleton] at hlen
  omega

theorem filter_suffix_iff :
    l.filter p <:+ l ↔ l.filter p <:+: l ∧ (l.filter p = [] ∨ l.getLast?.any p = true) := by
  rcases l.eq_nil_or_concat' with rfl | ⟨m, a, rfl⟩
  · simp
  · cases ha : p a with
    | true =>
      have hfilter : (m ++ [a]).filter p = m.filter p ++ [a] := by simp [ha]
      rw [hfilter, List.infix_concat_iff, or_iff_left (not_infix_filter_append ha)]
      simp [ha]
    | false =>
      have hfilter : (m ++ [a]).filter p = m.filter p := by simp [ha]
      rw [hfilter, List.suffix_concat_iff]
      constructor
      · rintro (h | ⟨t, h, -⟩)
        · simp [h]
        · have hmem : a ∈ m.filter p := by simp [h]
          simp [ha] at hmem
      · rintro ⟨-, h | h⟩
        · exact Or.inl h
        · simp [ha] at h

/-- One more item goes with the others when there are none or when it follows one. -/
theorem filter_concat_infix_iff : (l ++ [a]).filter p <:+: l ++ [a] ↔
    l.filter p <:+: l ∧ (p a = true → l.filter p = [] ∨ l.getLast?.any p = true) := by
  cases ha : p a with
  | true =>
    have hfilter : (l ++ [a]).filter p = l.filter p ++ [a] := by simp [ha]
    rw [hfilter, List.infix_concat_iff, or_iff_left (not_infix_filter_append ha),
      List.suffix_concat_iff, imp_iff_right rfl, ← filter_suffix_iff]
    simp
  | false =>
    have hfilter : (l ++ [a]).filter p = l.filter p := by simp [ha]
    rw [hfilter, List.infix_concat_iff, List.suffix_concat_iff]
    constructor
    · rintro ((h | ⟨t, h, -⟩) | h)
      · simp [h]
      · have hmem : a ∈ l.filter p := by simp [h]
        simp [ha] at hmem
      · exact ⟨h, nofun⟩
    · rintro ⟨h, -⟩
      exact Or.inr h

end Filter

/-! ## Reading -/

structure Schema (Entry Key Error : Type) where
  Field : Type
  decEq : DecidableEq Field
  fields : List Field
  fieldKey : Field → Key
  entryKey : Entry → Key
  /-- A list takes several entries. -/
  isList : Field → Bool
  /-- The type of one value. -/
  Value : Field → Type
  value : (f : Field) → Entry → Except Error (Value f)
  /-- What is done with an entry of no field. -/
  ignore : Entry → Except Error Unit
  duplicate : Field → Error

namespace Schema

variable {Entry Key Error : Type} [DecidableEq Key] (S : Schema Entry Key Error)

instance : DecidableEq S.Field := S.decEq

/-- The field that an entry is for. -/
def field (e : Entry) : Option S.Field := S.fields.find? fun f => S.fieldKey f = S.entryKey e

/-- The values of each field. -/
abbrev Values := (f : S.Field) → List (S.Value f)

structure State where
  values : S.Values
  /-- The field of the last entry. -/
  last : Option S.Field

def start : S.State := ⟨fun _ => [], none⟩

def step (st : S.State) (e : Entry) : Except Error S.State :=
  match S.field e with
  | none => do
    S.ignore e
    pure ⟨st.values, none⟩
  | some f =>
    if st.values f = [] ∨ (S.isList f = true ∧ st.last = some f) then do
      let v ← S.value f e
      pure ⟨Function.update st.values f (st.values f ++ [v]), some f⟩
    else .error (S.duplicate f)

def read (entries : List Entry) : Except Error S.Values :=
  State.values <$> entries.foldlM S.step S.start

/-! ## What is read -/

def isFor (f : S.Field) (e : Entry) : Bool := S.field e = some f

def valueOf (f : S.Field) (e : Entry) : Option (S.Value f) :=
  if S.isFor f e then (S.value f e).toOption else none

/-- The values of all entries. -/
def collect (entries : List Entry) : S.Values := fun f => entries.filterMap (S.valueOf f)

/-- Read on its own, the entry is read. -/
def Reads (e : Entry) : Prop := ∃ values, S.read [e] = .ok values

/-- No field of one value has two entries. -/
def Single (entries : List Entry) : Prop :=
  ∀ f, S.isList f = false → (entries.filter (S.isFor f)).length ≤ 1

/-- The entries of each list follow each other. -/
def Together (entries : List Entry) : Prop :=
  ∀ f, S.isList f = true → entries.filter (S.isFor f) <:+: entries

/-- The entries of one key are in the same order. -/
structure Reordered (entries entries' : List Entry) : Prop where
  perm : entries.Perm entries'
  same_key : ∀ key, entries.filter (S.entryKey · = key) = entries'.filter (S.entryKey · = key)

variable {S} {entries entries' : List Entry} {e : Entry} {f : S.Field}

/-! ## One entry -/

theorem step_start_eq (e : Entry) : S.read [e] = State.values <$> S.step S.start e := by
  simp [read]

theorem Reads.ignored (h : S.Reads e) (hfield : S.field e = none) : S.ignore e = .ok () := by
  obtain ⟨values, h⟩ := h
  rw [step_start_eq, step, hfield] at h
  cases hignore : S.ignore e with
  | error err => simp [hignore, bind, Except.bind] at h
  | ok u => rfl

theorem Reads.value_eq (h : S.Reads e) (hfield : S.field e = some f) :
    ∃ v, S.value f e = .ok v := by
  obtain ⟨values, h⟩ := h
  rw [step_start_eq, step, hfield] at h
  cases hvalue : S.value f e with
  | error err => simp [hvalue, start, bind, Except.bind] at h
  | ok v => exact ⟨v, rfl⟩

theorem isFor_iff : S.isFor f e = true ↔ S.field e = some f := by simp [isFor]

theorem entryKey_of_isFor (h : S.isFor f e = true) : S.entryKey e = S.fieldKey f := by
  have hfound := List.find?_some (isFor_iff.mp h)
  exact (of_decide_eq_true hfound).symm

theorem Reads.valueOf_eq (h : S.Reads e) (hfor : S.isFor f e = true) :
    ∃ v, S.value f e = .ok v ∧ S.valueOf f e = some v := by
  obtain ⟨v, hv⟩ := h.value_eq (isFor_iff.mp hfor)
  exact ⟨v, hv, by simp [valueOf, hfor, hv, Except.toOption]⟩

theorem valueOf_of_ne (h : S.isFor f e = false) : S.valueOf f e = none := by simp [valueOf, h]

/-! ## The values of all entries -/

theorem collect_concat (entries : List Entry) (e : Entry) (f : S.Field) :
    S.collect (entries ++ [e]) f = S.collect entries f ++ (S.valueOf f e).toList := by
  cases h : S.valueOf f e <;> simp [collect, h]

theorem collect_eq_nil_iff (h : ∀ e ∈ entries, S.Reads e) :
    S.collect entries f = [] ↔ entries.filter (S.isFor f) = [] := by
  rw [collect, List.filterMap_eq_nil_iff, List.filter_eq_nil_iff]
  refine forall₂_congr fun e he => ?_
  cases hfor : S.isFor f e with
  | true =>
    obtain ⟨v, -, hv⟩ := (h e he).valueOf_eq hfor
    simp [hv]
  | false => simp [valueOf_of_ne hfor]

theorem collect_filter (entries : List Entry) (f : S.Field) :
    S.collect (entries.filter (S.isFor f)) f = S.collect entries f := by
  rw [collect, List.filterMap_filter]
  refine List.filterMap_congr fun e _ => ?_
  cases hfor : S.isFor f e with
  | true => rfl
  | false => simp [valueOf_of_ne hfor]

/-! ## One more entry -/

/-- The entry begins the values of its field, or goes on with the list before it. -/
def Fits (S : Schema Entry Key Error) (entries : List Entry) (e : Entry) : Prop :=
  ∀ f, S.field e = some f → entries.filter (S.isFor f) = [] ∨
    (S.isList f = true ∧ entries.getLast?.bind S.field = some f)

def Orderly (S : Schema Entry Key Error) (entries : List Entry) : Prop :=
  S.Single entries ∧ S.Together entries

theorem single_concat_iff : S.Single (entries ++ [e]) ↔ S.Single entries ∧
    ∀ f, S.isList f = false → S.field e = some f → entries.filter (S.isFor f) = [] := by
  unfold Single
  rw [← forall₂_and]
  refine forall₂_congr fun f _ => ?_
  cases hfor : S.isFor f e with
  | true =>
    have hfield := isFor_iff.mp hfor
    have hlen : ((entries ++ [e]).filter (S.isFor f)).length =
        (entries.filter (S.isFor f)).length + 1 := by simp [hfor]
    rw [hlen, imp_iff_right hfield, ← List.length_eq_zero_iff]
    omega
  | false =>
    have hne : S.field e ≠ some f := fun h => by simp [isFor_iff.mpr h] at hfor
    simp [hfor, hne]

theorem together_concat_iff : S.Together (entries ++ [e]) ↔ S.Together entries ∧
    ∀ f, S.isList f = true → S.field e = some f → entries.filter (S.isFor f) = [] ∨
      entries.getLast?.bind S.field = some f := by
  unfold Together
  rw [← forall₂_and]
  refine forall₂_congr fun f _ => ?_
  have hlast : entries.getLast?.any (S.isFor f) = true ↔
      entries.getLast?.bind S.field = some f := by
    cases entries.getLast? <;> simp [isFor]
  rw [filter_concat_infix_iff, isFor_iff, hlast]

theorem orderly_concat_iff :
    S.Orderly (entries ++ [e]) ↔ S.Orderly entries ∧ S.Fits entries e := by
  have hfits : S.Fits entries e ↔
      (∀ f, S.isList f = false → S.field e = some f → entries.filter (S.isFor f) = []) ∧
      ∀ f, S.isList f = true → S.field e = some f → entries.filter (S.isFor f) = [] ∨
        entries.getLast?.bind S.field = some f := by
    unfold Fits
    rw [← forall_and]
    refine forall_congr' fun f => ?_
    cases S.isList f <;> simp
  rw [Orderly, Orderly, single_concat_iff, together_concat_iff, hfits]
  exact and_and_and_comm

/-- The state behind some entries. -/
def stateOf (S : Schema Entry Key Error) (entries : List Entry) : S.State :=
  ⟨S.collect entries, entries.getLast?.bind S.field⟩

theorem step_of_none {st : S.State} (hfield : S.field e = none) (hignore : S.ignore e = .ok ()) :
    S.step st e = .ok ⟨st.values, none⟩ := by
  simp only [step, hfield, hignore]
  rfl

theorem step_of_some {st : S.State} {v : S.Value f} (hfield : S.field e = some f)
    (hcond : st.values f = [] ∨ (S.isList f = true ∧ st.last = some f))
    (hv : S.value f e = .ok v) :
    S.step st e = .ok ⟨Function.update st.values f (st.values f ++ [v]), some f⟩ := by
  simp only [step, hfield, if_pos hcond, hv]
  rfl

theorem step_of_duplicate {st : S.State} (hfield : S.field e = some f)
    (hcond : ¬ (st.values f = [] ∨ (S.isList f = true ∧ st.last = some f))) :
    S.step st e = .error (S.duplicate f) := by
  simp only [step, hfield, if_neg hcond]

/-- From the state behind some entries a step leads to the state behind one more. -/
theorem step_stateOf (h : ∀ e ∈ entries, S.Reads e) (he : S.Reads e) (st : S.State) :
    S.step (S.stateOf entries) e = .ok st ↔ S.Fits entries e ∧ st = S.stateOf (entries ++ [e]) := by
  have hok : ∀ st' : S.State, (.ok st' = (.ok st : Except Error S.State)) ↔ st = st' :=
    fun st' => ⟨fun heq => (Except.ok.inj heq).symm, fun heq => by rw [heq]⟩
  cases hfield : S.field e with
  | none =>
    have hstate : S.stateOf (entries ++ [e]) = ⟨(S.stateOf entries).values, none⟩ := by
      have hvalues : S.collect (entries ++ [e]) = S.collect entries := by
        funext f
        simp [collect_concat, valueOf, isFor, hfield]
      simp [stateOf, hvalues, hfield]
    have hfits : S.Fits entries e := by
      intro f hf
      rw [hfield] at hf
      cases hf
    rw [step_of_none hfield (he.ignored hfield), hstate, and_iff_right hfits, hok]
  | some f =>
    have hfor : S.isFor f e = true := isFor_iff.mpr hfield
    obtain ⟨v, hv, hvalue⟩ := he.valueOf_eq hfor
    have hstate : S.stateOf (entries ++ [e]) = ⟨Function.update (S.stateOf entries).values f
        ((S.stateOf entries).values f ++ [v]), some f⟩ := by
      have hvalues : S.collect (entries ++ [e]) =
          Function.update (S.collect entries) f (S.collect entries f ++ [v]) := by
        funext g
        rw [collect_concat]
        by_cases hg : g = f
        · subst hg
          simp [hvalue]
        · have hother : S.isFor g e = false := by simp [isFor, hfield, Ne.symm hg]
          simp [hg, valueOf_of_ne hother]
      simp [stateOf, hvalues, hfield]
    have hfits : S.Fits entries e ↔ (S.stateOf entries).values f = [] ∨
        (S.isList f = true ∧ (S.stateOf entries).last = some f) := by
      have hiff : S.Fits entries e ↔ entries.filter (S.isFor f) = [] ∨
          (S.isList f = true ∧ entries.getLast?.bind S.field = some f) := by
        simp [Fits, hfield]
      rw [hiff, ← collect_eq_nil_iff h]
      rfl
    by_cases hfit : S.Fits entries e
    · rw [step_of_some hfield (hfits.mp hfit) hv, hstate, and_iff_right hfit, hok]
    · rw [step_of_duplicate hfield (mt hfits.mpr hfit)]
      exact iff_of_false nofun fun hand => hfit hand.1

/-! ## All entries -/

theorem foldlM_step_eq_ok_iff (h : ∀ e ∈ entries, S.Reads e) (st : S.State) :
    entries.foldlM S.step S.start = .ok st ↔ S.Orderly entries ∧ st = S.stateOf entries := by
  induction entries using List.reverseRecOn generalizing st with
  | nil =>
    have hnil : S.Orderly [] := ⟨fun f _ => by simp, fun f _ => List.nil_infix⟩
    rw [and_iff_right hnil]
    exact ⟨fun heq => (Except.ok.inj heq).symm, fun heq => by rw [heq]; rfl⟩
  | append_singleton entries e ih =>
    rw [List.forall_mem_append, List.forall_mem_singleton] at h
    rw [List.foldlM_append, orderly_concat_iff, and_assoc, ← step_stateOf h.1 h.2]
    cases hrun : entries.foldlM S.step S.start with
    | error err =>
      refine iff_of_false nofun fun hand => ?_
      have hok := (ih h.1 (S.stateOf entries)).mpr ⟨hand.1, rfl⟩
      rw [hrun] at hok
      cases hok
    | ok mid =>
      obtain ⟨horderly, rfl⟩ := (ih h.1 mid).mp hrun
      rw [and_iff_right horderly]
      change [e].foldlM S.step (S.stateOf entries) = .ok st ↔ _
      simp

/-- Entries that are read on their own are read together when no field is read twice, and then the
values are those of all of them. -/
theorem read_eq_ok_iff (h : ∀ e ∈ entries, S.Reads e) (values : S.Values) :
    S.read entries = .ok values ↔ S.Orderly entries ∧ values = S.collect entries := by
  unfold read
  cases hrun : entries.foldlM S.step S.start with
  | error err =>
    refine iff_of_false nofun fun hand => ?_
    have hok := (foldlM_step_eq_ok_iff h (S.stateOf entries)).mpr ⟨hand.1, rfl⟩
    rw [hrun] at hok
    cases hok
  | ok st =>
    obtain ⟨horderly, rfl⟩ := (foldlM_step_eq_ok_iff h st).mp hrun
    rw [and_iff_right horderly]
    exact ⟨fun heq => (Except.ok.inj heq).symm, fun heq => by rw [heq]; rfl⟩

theorem map_read_eq_ok_iff {α : Type} (g : S.Values → α) (h : ∀ e ∈ entries, S.Reads e) (a : α) :
    (S.read entries).map g = .ok a ↔ S.Orderly entries ∧ g (S.collect entries) = a := by
  have hread := read_eq_ok_iff h
  cases hrun : S.read entries with
  | error err =>
    refine iff_of_false nofun fun hand => ?_
    have hok := (hread (S.collect entries)).mpr ⟨hand.1, rfl⟩
    rw [hrun] at hok
    cases hok
  | ok values =>
    obtain ⟨horderly, rfl⟩ := (hread values).mp hrun
    rw [and_iff_right horderly]
    exact ⟨Except.ok.inj, congrArg Except.ok⟩

/-! ## Another order -/

namespace Reordered

theorem same_field (h : S.Reordered entries entries') (f : S.Field) :
    entries.filter (S.isFor f) = entries'.filter (S.isFor f) := by
  have hkey : ∀ l : List Entry, (l.filter (S.entryKey · = S.fieldKey f)).filter (S.isFor f) =
      l.filter (S.isFor f) := by
    intro l
    rw [List.filter_filter]
    refine List.filter_congr fun e _ => ?_
    cases hfor : S.isFor f e with
    | true => simp [entryKey_of_isFor hfor]
    | false => rfl
  rw [← hkey, h.same_key, hkey]

theorem collect_eq (h : S.Reordered entries entries') : S.collect entries = S.collect entries' := by
  funext f
  rw [← collect_filter, h.same_field, collect_filter]

theorem single_iff (h : S.Reordered entries entries') : S.Single entries ↔ S.Single entries' := by
  unfold Single
  simp only [h.same_field]

theorem reads (h : S.Reordered entries entries') (hreads : ∀ e ∈ entries, S.Reads e) :
    ∀ e ∈ entries', S.Reads e := fun e he => hreads e (h.perm.mem_iff.mpr he)

end Reordered

/-- A reading of the entries in another order has the same outcome, up to the error, exactly when
it fails for a field with two entries, or the lists stand together in both orders or in neither. -/
theorem read_reordered_iff {α : Type} (g : S.Values → α) (h : S.Reordered entries entries')
    (hreads : ∀ e ∈ entries, S.Reads e) :
    (∀ a, (S.read entries).map g = .ok a ↔ (S.read entries').map g = .ok a) ↔
      ¬ S.Single entries ∨ (S.Together entries ↔ S.Together entries') := by
  have houtcome : (∀ a, (S.read entries).map g = .ok a ↔ (S.read entries').map g = .ok a) ↔
      (S.Orderly entries ↔ S.Orderly entries') := by
    simp only [map_read_eq_ok_iff g hreads, map_read_eq_ok_iff g (h.reads hreads), h.collect_eq]
    constructor
    · intro hall
      simpa using hall (g (S.collect entries'))
    · intro horderly a
      rw [horderly]
  rw [houtcome, Orderly, Orderly, ← h.single_iff, and_congr_right_iff]
  exact imp_iff_not_or

end Schema

end Lib.Record
