import Mathlib.Data.List.Induction

/-!
# Questions that are answered once

A log lists, for keys `κ` that change their versions `ν`, the questions that were asked and the
answers that were recorded. `lastRecorded` is the version that an answer was recorded for last.
When no question is asked about that version (`AsksFresh`), a question comes back after its
answer only if an answer for another version was recorded in between
(`AsksFresh.recorded_between`).
-/

namespace Lib

inductive MemoEvent (κ ν : Type)
  | asked (k : κ) (v : ν)
  | recorded (k : κ) (v : ν)

variable {κ ν : Type} [DecidableEq κ]

/-- The version recorded last, after one more event. -/
def MemoEvent.after (k : κ) (last : Option ν) : MemoEvent κ ν → Option ν
  | .asked _ _ => last
  | .recorded k' v => if k' = k then some v else last

/-- The version that an answer was recorded for last. -/
def lastRecorded (log : List (MemoEvent κ ν)) (k : κ) : Option ν :=
  log.foldl (MemoEvent.after k) none

@[simp]
theorem lastRecorded_asked (log : List (MemoEvent κ ν)) (k k' : κ) (v : ν) :
    lastRecorded (log ++ [.asked k' v]) k = lastRecorded log k := by
  unfold lastRecorded
  rw [List.foldl_append]
  rfl

@[simp]
theorem lastRecorded_recorded (log : List (MemoEvent κ ν)) (k k' : κ) (v : ν) :
    lastRecorded (log ++ [.recorded k' v]) k = if k' = k then some v else lastRecorded log k := by
  unfold lastRecorded
  rw [List.foldl_append]
  rfl

/-- Without another version in between, the version recorded is the last one. -/
theorem lastRecorded_of_forall {before between : List (MemoEvent κ ν)} {k : κ} {v : ν}
    (h : ∀ v', .recorded k v' ∈ between → v' = v) :
    lastRecorded (before ++ .recorded k v :: between) k = some v := by
  induction between using List.reverseRecOn with
  | nil => simp
  | append_singleton between event ih =>
    have hlast := ih fun v' hv' => h v' (List.mem_append_left _ hv')
    have hsplit : before ++ .recorded k v :: (between ++ [event]) =
        (before ++ .recorded k v :: between) ++ [event] := by simp
    rw [hsplit]
    cases event with
    | asked k' v' => rw [lastRecorded_asked, hlast]
    | recorded k' v' =>
      rw [lastRecorded_recorded, hlast]
      split
      · rename_i heq
        subst heq
        rw [h v' (by simp)]
      · rfl

/-- Every question is about another version than the one recorded last. -/
def AsksFresh (log : List (MemoEvent κ ν)) : Prop :=
  ∀ before k v after, log = before ++ .asked k v :: after → lastRecorded before k ≠ some v

namespace AsksFresh

theorem nil : AsksFresh ([] : List (MemoEvent κ ν)) := by
  intro before k v after h
  cases before <;> cases h

/-- An event at the end asks about a fresh version, or is an answer. -/
theorem concat {log : List (MemoEvent κ ν)} (h : AsksFresh log) {event : MemoEvent κ ν}
    (hevent : ∀ k v, event = .asked k v → lastRecorded log k ≠ some v) :
    AsksFresh (log ++ [event]) := by
  intro before k v after heq
  rcases List.eq_nil_or_concat after with rfl | ⟨after, last, rfl⟩
  · obtain ⟨rfl, hlast⟩ := List.append_inj' heq rfl
    exact hevent k v (List.singleton_inj.mp hlast)
  · have hsplit : before ++ MemoEvent.asked k v :: after.concat last =
        (before ++ .asked k v :: after) ++ [last] := by simp
    rw [hsplit] at heq
    exact h before k v after (List.append_inj' heq rfl).1

/-- A question comes back only after an answer for another version. -/
theorem recorded_between {before between after : List (MemoEvent κ ν)} {k : κ} {v : ν}
    (h : AsksFresh (before ++ .recorded k v :: (between ++ .asked k v :: after))) :
    ∃ v', v' ≠ v ∧ .recorded k v' ∈ between := by
  by_contra hnone
  push Not at hnone
  refine h (before ++ .recorded k v :: between) k v after (by simp) ?_
  apply lastRecorded_of_forall
  intro v' hv'
  by_contra hne
  exact hnone v' hne hv'

end AsksFresh

end Lib
