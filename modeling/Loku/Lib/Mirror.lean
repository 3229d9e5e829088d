import Loku.Lib.Table
import Mathlib.Data.Multiset.Filter
import Mathlib.Data.Multiset.MapFold

/-!
# A mirror kept by row triggers

A table's rows change one at a time: a row is inserted under a fresh id, deleted, or replaced
by a row of the same id (`Changes`). A mirror holds one entry per row, computed by `view`, and
never sees the rows: each change only issues statements against it, an insertion of the new
entry and a deletion that has to repeat the old one (`statements`). A deletion that repeats
something else corrupts such a mirror, so what is to be shown of a sequence of changes is
twofold: every deletion names the one entry of its id (`Matched`), and at the end the mirror
is the image of the rows. Both are `Changes.mirrored`. The statements of a `Table` are such
changes (`Table.changes_delete`, `Table.changes_update`, `Table.changes_upsert`).
-/

namespace Lib

variable {ρ ε ι : Type}

/-- What happens to one row. -/
inductive Change (ρ : Type)
  | inserted (new : ρ)
  | deleted (old : ρ)
  | updated (old new : ρ)

/-- A statement against the mirror. -/
inductive MirrorStatement (ε : Type)
  | insert (entry : ε)
  | delete (entry : ε)
deriving DecidableEq

/-- The changes lead from the rows to the rows. -/
inductive Changes (id : ρ → ι) : Multiset ρ → List (Change ρ) → Multiset ρ → Prop
  | nil (s : Multiset ρ) : Changes id s [] s
  | inserted {s s' : Multiset ρ} {new : ρ} {cs : List (Change ρ)}
      (fresh : ∀ r ∈ s, id r ≠ id new) (rest : Changes id (new ::ₘ s) cs s') :
      Changes id s (.inserted new :: cs) s'
  | deleted {s s' : Multiset ρ} {old : ρ} {cs : List (Change ρ)} (rest : Changes id s cs s') :
      Changes id (old ::ₘ s) (.deleted old :: cs) s'
  | updated {s s' : Multiset ρ} {old new : ρ} {cs : List (Change ρ)} (same : id new = id old)
      (rest : Changes id (new ::ₘ s) cs s') :
      Changes id (old ::ₘ s) (.updated old new :: cs) s'

theorem Changes.append {id : ρ → ι} {s s' s'' : Multiset ρ} {cs ds : List (Change ρ)}
    (h : Changes id s cs s') (h' : Changes id s' ds s'') : Changes id s (cs ++ ds) s'' := by
  induction h with
  | nil s => exact h'
  | inserted fresh _ ih => exact .inserted fresh (ih h')
  | deleted _ ih => exact .deleted (ih h')
  | updated same _ ih => exact .updated same (ih h')

/-- Deleting some of the rows, one after the other. -/
theorem Changes.deletes {id : ρ → ι} (kept : Multiset ρ) :
    ∀ gone : List ρ, Changes id (↑gone + kept) (gone.map .deleted) kept
  | [] => by simpa using Changes.nil kept
  | old :: gone => by
    have h : (↑(old :: gone) + kept : Multiset ρ) = old ::ₘ (↑gone + kept) := by
      rw [← Multiset.cons_coe, Multiset.cons_add]
    rw [h]
    exact .deleted (Changes.deletes kept gone)

/-- Updating some of the rows, one after the other. -/
theorem Changes.updates {id : ρ → ι} {f : ρ → ρ} (hf : ∀ r, id (f r) = id r) :
    ∀ (touched : List ρ) (rest : Multiset ρ),
      Changes id (↑touched + rest) (touched.map fun r => .updated r (f r))
        (↑(touched.map f) + rest)
  | [], rest => by simpa using Changes.nil rest
  | old :: touched, rest => by
    have hbefore : (↑(old :: touched) + rest : Multiset ρ) = old ::ₘ (↑touched + rest) := by
      rw [← Multiset.cons_coe, Multiset.cons_add]
    have hafter : (↑((old :: touched).map f) + rest : Multiset ρ) =
        ↑(touched.map f) + f old ::ₘ rest := by
      rw [List.map_cons, ← Multiset.cons_coe, Multiset.cons_add, Multiset.add_cons]
    have hmoved : (↑touched + f old ::ₘ rest : Multiset ρ) = f old ::ₘ (↑touched + rest) := by
      rw [Multiset.add_cons]
    rw [hbefore, hafter]
    refine .updated (hf old) ?_
    rw [← hmoved]
    exact Changes.updates hf touched (f old ::ₘ rest)

/-- The statements one change issues. -/
def statements (view : ρ → ε) : Change ρ → List (MirrorStatement ε)
  | .inserted new => [.insert (view new)]
  | .deleted old => [.delete (view old)]
  | .updated old new => [.delete (view old), .insert (view new)]

/-- The entry of a row, alone under its id. -/
theorem filter_view_eq_singleton [DecidableEq ι] {view : ρ → ε} {rowId : ρ → ι} {entryId : ε → ι}
    (hview : ∀ r, entryId (view r) = rowId r) {s : Multiset ρ} {r : ρ}
    (h : ∀ r' ∈ s, rowId r' ≠ rowId r) :
    ((r ::ₘ s).map view).filter (fun e => entryId e = entryId (view r)) = {view r} := by
  have hrest : (s.map view).filter (fun e => entryId e = entryId (view r)) = 0 := by
    rw [Multiset.filter_eq_nil]
    intro e he
    obtain ⟨r', hr', rfl⟩ := Multiset.mem_map.mp he
    rw [hview, hview]
    exact h r' hr'
  rw [Multiset.map_cons, Multiset.filter_cons_of_pos _ (by rfl), hrest]
  rfl

section Mirror
variable [DecidableEq ε] [DecidableEq ι]

/-- One statement, on a mirror that holds what it deletes. -/
def applyStatement (m : Multiset ε) : MirrorStatement ε → Multiset ε
  | .insert entry => entry ::ₘ m
  | .delete entry => m.erase entry

/-- Every deletion repeats the one entry of its id. -/
def Matched (id : ε → ι) : Multiset ε → List (MirrorStatement ε) → Prop
  | _, [] => True
  | m, .insert entry :: rest => Matched id (entry ::ₘ m) rest
  | m, .delete entry :: rest =>
    m.filter (fun e => id e = id entry) = {entry} ∧ Matched id (m.erase entry) rest

theorem Matched.take {id : ε → ι} {m : Multiset ε} {ss : List (MirrorStatement ε)}
    (h : Matched id m ss) (k : Nat) : Matched id m (ss.take k) := by
  induction ss generalizing m k with
  | nil => simp [Matched]
  | cons s ss ih =>
    cases k with
    | zero => simp [Matched]
    | succ k =>
      rw [List.take_succ_cons]
      cases s with
      | insert entry => exact ih h k
      | delete entry => exact ⟨h.1, ih h.2 k⟩

/-- To delete the entry of a row leaves the image of the others. -/
theorem mirrored_delete {view : ρ → ε} {rowId : ρ → ι} {entryId : ε → ι}
    (hview : ∀ r, entryId (view r) = rowId r) {s : Multiset ρ} {old : ρ}
    (hothers : ∀ r ∈ s, rowId r ≠ rowId old) {ss : List (MirrorStatement ε)} {m : Multiset ε}
    (hmatched : Matched entryId (s.map view) ss)
    (hfold : ss.foldl applyStatement (s.map view) = m) :
    Matched entryId ((old ::ₘ s).map view) (.delete (view old) :: ss) ∧
      (MirrorStatement.delete (view old) :: ss).foldl applyStatement ((old ::ₘ s).map view) =
        m := by
  have herase : ((old ::ₘ s).map view).erase (view old) = s.map view := by
    rw [Multiset.map_cons, Multiset.erase_cons_head]
  refine ⟨⟨filter_view_eq_singleton hview hothers, ?_⟩, ?_⟩
  · rw [herase]
    exact hmatched
  · rw [List.foldl_cons, applyStatement, herase]
    exact hfold

/-- Under the changes of rows with distinct ids, every deletion repeats what was entered, and
the mirror stays the image of the rows. -/
theorem Changes.mirrored (view : ρ → ε) {rowId : ρ → ι} (entryId : ε → ι)
    (hview : ∀ r, entryId (view r) = rowId r) {s s' : Multiset ρ} {cs : List (Change ρ)}
    (h : Changes rowId s cs s') (hs : (s.map rowId).Nodup) :
    (s'.map rowId).Nodup ∧ Matched entryId (s.map view) (cs.flatMap (statements view)) ∧
      (cs.flatMap (statements view)).foldl applyStatement (s.map view) = s'.map view := by
  induction h with
  | nil s => exact ⟨hs, trivial, rfl⟩
  | @inserted s s' new cs fresh _ ih =>
    have hnodup : ((new ::ₘ s).map rowId).Nodup := by
      rw [Multiset.map_cons, Multiset.nodup_cons]
      refine ⟨?_, hs⟩
      rintro hmem
      obtain ⟨r, hr, heq⟩ := Multiset.mem_map.mp hmem
      exact fresh r hr heq
    obtain ⟨hids, hmatched, hfold⟩ := ih hnodup
    rw [Multiset.map_cons] at hmatched hfold
    exact ⟨hids, hmatched, hfold⟩
  | @deleted s s' old cs _ ih =>
    rw [Multiset.map_cons, Multiset.nodup_cons] at hs
    obtain ⟨hids, hmatched, hfold⟩ := ih hs.2
    have hothers : ∀ r ∈ s, rowId r ≠ rowId old := fun r hr heq =>
      hs.1 (heq ▸ Multiset.mem_map_of_mem rowId hr)
    exact ⟨hids, mirrored_delete hview hothers hmatched hfold⟩
  | @updated s s' old new cs same _ ih =>
    rw [Multiset.map_cons, Multiset.nodup_cons] at hs
    have hothers : ∀ r ∈ s, rowId r ≠ rowId old := fun r hr heq =>
      hs.1 (heq ▸ Multiset.mem_map_of_mem rowId hr)
    have hnodup : ((new ::ₘ s).map rowId).Nodup := by
      rw [Multiset.map_cons, Multiset.nodup_cons, same]
      exact hs
    obtain ⟨hids, hmatched, hfold⟩ := ih hnodup
    rw [Multiset.map_cons] at hmatched hfold
    exact ⟨hids, mirrored_delete hview hothers hmatched hfold⟩

end Mirror

/-! ## The statements of a table -/

namespace Table

variable {κ : Type} {key : ρ → κ} {id : ρ → ι}

def deleteChanges (t : Table key) (p : ρ → Bool) : List (Change ρ) :=
  (t.rows.filter p).map .deleted

def updateChanges (t : Table key) (p : ρ → Bool) (f : ρ → ρ) : List (Change ρ) :=
  (t.rows.filter p).map fun r => .updated r (f r)

/-- An upsert that meets its conflict clause updates and does not insert. -/
def upsertChanges [DecidableEq κ] (t : Table key) (ins : ρ) (upd : ρ → ρ) : List (Change ρ) :=
  if t.find? (key ins) = none then [.inserted ins]
  else t.updateChanges (fun r => key r = key ins) upd

theorem coe_rows_eq (t : Table key) (p : ρ → Bool) :
    (↑t.rows : Multiset ρ) = ↑(t.rows.filter p) + ↑(t.rows.filter fun r => !p r) := by
  rw [Multiset.coe_add, Multiset.coe_eq_coe]
  exact (List.filter_append_perm p t.rows).symm

theorem changes_delete (t : Table key) (p : ρ → Bool) :
    Changes id ↑t.rows (t.deleteChanges p) ↑(t.delete p).rows := by
  rw [coe_rows_eq t p]
  exact Changes.deletes _ _

theorem changes_update (t : Table key) (p : ρ → Bool) (f : ρ → ρ)
    (hf : ∀ r, key (f r) = key r) (hid : ∀ r, id (f r) = id r) :
    Changes id ↑t.rows (t.updateChanges p f) ↑(t.update p f hf).rows := by
  have hafter : (↑(t.update p f hf).rows : Multiset ρ) =
      ↑((t.rows.filter p).map f) + ↑(t.rows.filter fun r => !p r) := by
    have hsplit := (List.filter_append_perm p t.rows).symm.map fun r => if p r then f r else r
    rw [List.map_append] at hsplit
    rw [Multiset.coe_add, Multiset.coe_eq_coe]
    refine hsplit.trans (List.Perm.of_eq (congrArg₂ _ ?_ ?_))
    · apply List.map_congr_left
      intro r hr
      exact if_pos (List.mem_filter.mp hr).2
    · rw [← List.map_id (t.rows.filter fun r => !p r), List.map_map]
      apply List.map_congr_left
      intro r hr
      have hp := (List.mem_filter.mp hr).2
      simp only [Bool.not_eq_true'] at hp
      simp [hp]
  rw [hafter, coe_rows_eq t p]
  exact Changes.updates hid _ _

theorem changes_upsert [DecidableEq κ] (t : Table key) (ins : ρ) (upd : ρ → ρ)
    (hupd : ∀ r, key (upd r) = key r) (hid : ∀ r, id (upd r) = id r)
    (fresh : ∀ r ∈ t, id r ≠ id ins) :
    Changes id ↑t.rows (t.upsertChanges ins upd) ↑(t.upsert ins upd hupd).rows := by
  unfold upsertChanges upsert
  split
  · have hrows : (↑(t.rows ++ [ins]) : Multiset ρ) = ins ::ₘ ↑t.rows := by
      rw [Multiset.cons_coe, Multiset.coe_eq_coe]
      exact List.perm_append_singleton ins t.rows
    rw [hrows]
    exact .inserted fresh (.nil _)
  · exact changes_update t _ upd hupd hid

end Table

end Lib
