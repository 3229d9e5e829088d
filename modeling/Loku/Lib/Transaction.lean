import Mathlib.Data.List.Basic

/-!
# Transactions

The statements of a transaction work on a copy of the database, one after the other. When all of
them have gone through the copy becomes the database; when one fails, by itself or because the
database refuses it, the copy is dropped. So a failed transaction changes nothing
(`transact_of_error`).
-/

namespace Lib

variable {σ ε : Type}

/-- Run the statements from the `i`-th on; an error is the statement's own or, without one, a
refusal. -/
def runStatements (refuses : Nat → Bool) :
    Nat → List (σ → Except ε σ) → σ → Except (Option ε) σ
  | _, [], working => .ok working
  | i, statement :: rest, working =>
    if refuses i then .error none
    else
      match statement working with
      | .ok working' => runStatements refuses (i + 1) rest working'
      | .error e => .error (some e)

/-- Begin, run the statements and commit, or roll back. -/
def transact (refuses : Nat → Bool) (statements : List (σ → Except ε σ)) (db : σ) :
    σ × Except (Option ε) Unit :=
  match runStatements refuses 0 statements db with
  | .ok working => (working, .ok ())
  | .error e => (db, .error e)

/-- A transaction that fails leaves the database as it was. -/
theorem transact_of_error {refuses : Nat → Bool} {statements : List (σ → Except ε σ)} {db : σ}
    {e : Option ε} (h : (transact refuses statements db).2 = .error e) :
    (transact refuses statements db).1 = db := by
  unfold transact at h ⊢
  split at h
  · cases h
  · rfl

/-- What is not refused: statements that cannot fail are applied in order. -/
theorem runStatements_map_append {α : Type} (f : α → σ → σ) :
    ∀ (as : List α) (rest : List (σ → Except ε σ)) (i : Nat) (db : σ),
      runStatements (fun _ => false) i (as.map (fun a working => .ok (f a working)) ++ rest) db =
        runStatements (fun _ => false) (i + as.length) rest (as.foldl (fun s a => f a s) db)
  | [], rest, i, db => by simp
  | a :: as, rest, i, db => by
    rw [List.map_cons, List.cons_append, runStatements]
    simp only [Bool.false_eq_true, if_false]
    rw [runStatements_map_append f as rest (i + 1) (f a db), List.length_cons, List.foldl_cons,
      Nat.add_assoc, Nat.add_comm 1]

end Lib
