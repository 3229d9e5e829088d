import Mathlib.Data.List.Nodup
import Mathlib.Tactic.Tauto

/-!
# Tables with a unique key

A `Table key` is a list of rows in which no two rows have the same `key`, the form in
which an SQL table with a uniqueness constraint is read: the constraint is a field, so a
table that breaks it cannot be built. The operations are the four statements such a table
sees: an upsert, an update of the rows that a condition selects, a delete of the rows that a
condition selects, and the lookup of one key.

Every later fact about a table follows from which rows each operation leaves
(`mem_upsert`, `mem_update`, `mem_delete`) and from the lookup being the row with that key
(`find?_eq_some_iff`).
-/

namespace Lib

/-- A list of rows without two rows of one key. -/
structure Table {ρ κ : Type} (key : ρ → κ) where
  rows : List ρ
  nodup : (rows.map key).Nodup

namespace Table

variable {ρ κ : Type} {key : ρ → κ}

instance : Membership ρ (Table key) := ⟨fun t r => r ∈ t.rows⟩

instance [DecidableEq ρ] (t : Table key) (r : ρ) : Decidable (r ∈ t) :=
  inferInstanceAs (Decidable (r ∈ t.rows))

instance [DecidableEq ρ] : DecidableEq (Table key) := fun s t =>
  decidable_of_iff (s.rows = t.rows) (by cases s; cases t; simp)

theorem mem_def {t : Table key} {r : ρ} : r ∈ t ↔ r ∈ t.rows := Iff.rfl

/-- The table without rows. -/
def empty : Table key := ⟨[], List.nodup_nil⟩

@[simp]
theorem not_mem_empty (r : ρ) : r ∉ (empty : Table key) := List.not_mem_nil

theorem eq_of_key_eq (t : Table key) {r r' : ρ} (hr : r ∈ t) (hr' : r' ∈ t)
    (h : key r = key r') : r = r' :=
  List.inj_on_of_nodup_map t.nodup hr hr' h

/-! ## Lookup -/

section Find
variable [DecidableEq κ]

/-- The row with key `k`. -/
def find? (t : Table key) (k : κ) : Option ρ := t.rows.find? (fun r => key r = k)

theorem find?_eq_some_iff {t : Table key} {k : κ} {r : ρ} :
    t.find? k = some r ↔ r ∈ t ∧ key r = k := by
  constructor
  · intro h
    exact ⟨List.mem_of_find?_eq_some h, by simpa using List.find?_some h⟩
  · rintro ⟨hr, rfl⟩
    cases h : t.find? (key r) with
    | none =>
      have hnone := List.find?_eq_none.mp h r hr
      simp at hnone
    | some r' =>
      have hk : key r' = key r := by simpa using List.find?_some h
      rw [t.eq_of_key_eq (List.mem_of_find?_eq_some h) hr hk]

theorem find?_eq_none_iff {t : Table key} {k : κ} :
    t.find? k = none ↔ ∀ r ∈ t, key r ≠ k := by
  simp [find?, List.find?_eq_none, mem_def]

theorem find?_key {t : Table key} {r : ρ} (hr : r ∈ t) : t.find? (key r) = some r :=
  find?_eq_some_iff.mpr ⟨hr, rfl⟩

end Find

/-! ## Delete -/

/-- `DELETE … WHERE p`. -/
def delete (t : Table key) (p : ρ → Bool) : Table key where
  rows := t.rows.filter (fun r => !p r)
  nodup := (t.nodup).sublist (List.filter_sublist.map key)

@[simp]
theorem mem_delete {t : Table key} {p : ρ → Bool} {r : ρ} :
    r ∈ t.delete p ↔ r ∈ t ∧ p r = false := by
  simp [delete, mem_def]

theorem find?_delete [DecidableEq κ] {t : Table key} {p : ρ → Bool} {k : κ} :
    (t.delete p).find? k = (t.find? k).filter fun r => !p r := by
  apply Option.ext
  intro r
  rw [Option.filter_eq_some_iff, find?_eq_some_iff, find?_eq_some_iff, mem_delete]
  simp only [Bool.not_eq_true']
  tauto

/-! ## Update -/

theorem map_key_ite (p : ρ → Bool) (f : ρ → ρ) (hf : ∀ r, key (f r) = key r) (l : List ρ) :
    (l.map fun r => if p r then f r else r).map key = l.map key := by
  rw [List.map_map]
  apply List.map_congr_left
  intro r _
  simp only [Function.comp_apply]
  split
  · exact hf r
  · rfl

/-- `UPDATE … SET f WHERE p`, where `f` leaves the key alone. -/
def update (t : Table key) (p : ρ → Bool) (f : ρ → ρ) (hf : ∀ r, key (f r) = key r) :
    Table key where
  rows := t.rows.map fun r => if p r then f r else r
  nodup := by rw [map_key_ite p f hf]; exact t.nodup

theorem mem_update {t : Table key} {p : ρ → Bool} {f : ρ → ρ} {hf : ∀ r, key (f r) = key r}
    {r : ρ} : r ∈ t.update p f hf ↔ ∃ r₀ ∈ t, (if p r₀ then f r₀ else r₀) = r := by
  simp [update, mem_def]

theorem find?_update [DecidableEq κ] {t : Table key} {p : ρ → Bool} {f : ρ → ρ}
    {hf : ∀ r, key (f r) = key r} {k : κ} :
    (t.update p f hf).find? k = (t.find? k).map fun r => if p r then f r else r := by
  cases h : t.find? k with
  | none =>
    rw [Option.map_none, find?_eq_none_iff]
    intro r hr
    obtain ⟨r₀, hr₀, rfl⟩ := mem_update.mp hr
    have hk := find?_eq_none_iff.mp h r₀ hr₀
    split
    · rw [hf]; exact hk
    · exact hk
  | some r =>
    obtain ⟨hr, rfl⟩ := find?_eq_some_iff.mp h
    rw [Option.map_some, find?_eq_some_iff]
    refine ⟨mem_update.mpr ⟨r, hr, rfl⟩, ?_⟩
    split
    · exact hf r
    · rfl

/-! ## Upsert -/

section Upsert
variable [DecidableEq κ]

theorem nodup_append_of_find?_eq_none {t : Table key} {ins : ρ} (h : t.find? (key ins) = none) :
    ((t.rows ++ [ins]).map key).Nodup := by
  rw [List.map_append, List.nodup_append]
  refine ⟨t.nodup, by simp, ?_⟩
  intro a ha b hb
  obtain ⟨r, hr, rfl⟩ := List.mem_map.mp ha
  rw [List.map_singleton, List.mem_singleton] at hb
  rw [hb]
  exact find?_eq_none_iff.mp h r hr

/-- `INSERT … ON CONFLICT (key) DO UPDATE SET upd`: the row `ins` is appended unless a row
has its key; that row is then updated in place. -/
def upsert (t : Table key) (ins : ρ) (upd : ρ → ρ) (hupd : ∀ r, key (upd r) = key r) :
    Table key :=
  if h : t.find? (key ins) = none then
    ⟨t.rows ++ [ins], nodup_append_of_find?_eq_none h⟩
  else
    t.update (fun r => key r = key ins) upd hupd

variable {t : Table key} {ins : ρ} {upd : ρ → ρ} {hupd : ∀ r, key (upd r) = key r}

/-- The row that an upsert leaves under the key of `ins`. -/
def upserted (t : Table key) (ins : ρ) (upd : ρ → ρ) : ρ := ((t.find? (key ins)).map upd).getD ins

theorem key_upserted (hupd : ∀ r, key (upd r) = key r) : key (t.upserted ins upd) = key ins := by
  unfold upserted
  cases h : t.find? (key ins) with
  | none => rfl
  | some r => exact (hupd r).trans (find?_eq_some_iff.mp h).2

theorem mem_upsert {r : ρ} :
    r ∈ t.upsert ins upd hupd ↔ (r ∈ t ∧ key r ≠ key ins) ∨ r = t.upserted ins upd := by
  unfold upsert upserted
  split
  · rename_i h
    rw [h]
    simp only [mem_def, List.mem_append, List.mem_singleton, Option.map_none, Option.getD_none]
    constructor
    · rintro (hr | rfl)
      · exact Or.inl ⟨hr, find?_eq_none_iff.mp h r hr⟩
      · exact Or.inr rfl
    · rintro (⟨hr, -⟩ | rfl)
      · exact Or.inl hr
      · exact Or.inr rfl
  · rename_i h
    obtain ⟨old, hold⟩ := Option.ne_none_iff_exists'.mp h
    obtain ⟨hmem, hkey⟩ := find?_eq_some_iff.mp hold
    rw [hold, mem_update, Option.map_some, Option.getD_some]
    constructor
    · rintro ⟨r₀, hr₀, rfl⟩
      by_cases hk : key r₀ = key ins
      · rw [if_pos (by simpa using hk), t.eq_of_key_eq hr₀ hmem (hk.trans hkey.symm)]
        exact Or.inr rfl
      · rw [if_neg (by simpa using hk)]
        exact Or.inl ⟨hr₀, hk⟩
    · rintro (⟨hr, hk⟩ | rfl)
      · exact ⟨r, hr, if_neg (by simpa using hk)⟩
      · exact ⟨old, hmem, if_pos (by simpa using hkey)⟩

theorem find?_upsert_self : (t.upsert ins upd hupd).find? (key ins) = some (t.upserted ins upd) :=
  find?_eq_some_iff.mpr ⟨mem_upsert.mpr (Or.inr rfl), key_upserted hupd⟩

theorem find?_upsert_of_ne {k : κ} (hk : k ≠ key ins) :
    (t.upsert ins upd hupd).find? k = t.find? k := by
  cases h : t.find? k with
  | none =>
    rw [find?_eq_none_iff]
    intro r hr hrk
    rcases mem_upsert.mp hr with ⟨hr, -⟩ | rfl
    · exact find?_eq_none_iff.mp h r hr hrk
    · exact hk (hrk.symm.trans (key_upserted hupd))
  | some r =>
    obtain ⟨hr, rfl⟩ := find?_eq_some_iff.mp h
    exact find?_key (mem_upsert.mpr (Or.inl ⟨hr, hk⟩))

end Upsert

end Table

end Lib
