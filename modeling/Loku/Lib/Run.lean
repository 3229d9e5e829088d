import Mathlib.Logic.Relation

/-!
# Runs of a transition system

`Run step s as s'` says that the actions `as`, taken in order, lead from `s` to `s'`. What one
step preserves, a run preserves (`Run.invariant`); a run whose steps all meet a condition on
the state they start from is a run of the guarded relation (`guarded`). What a step keeps just
when it meets such a condition holds all along a run just when all its steps meet it
(`Run.forall_passes_iff`).
-/

namespace Lib

variable {σ α : Type} {step : σ → α → σ → Prop}

/-- The actions lead from one state to the other. -/
inductive Run (step : σ → α → σ → Prop) : σ → List α → σ → Prop
  | nil (s : σ) : Run step s [] s
  | cons {s s' s'' : σ} {a : α} {as : List α} : step s a s' → Run step s' as s'' →
      Run step s (a :: as) s''

namespace Run

theorem single {s s' : σ} {a : α} (h : step s a s') : Run step s [a] s' := .cons h (.nil s')

theorem append {s s' s'' : σ} {as bs : List α} (h : Run step s as s') (h' : Run step s' bs s'') :
    Run step s (as ++ bs) s'' := by
  induction h with
  | nil => exact h'
  | cons hstep _ ih => exact .cons hstep (ih h')

/-- What every step preserves holds at the end of a run that starts with it. -/
theorem invariant {I : σ → Prop} (hstep : ∀ s a s', I s → step s a s' → I s') {s s' : σ}
    {as : List α} (h : Run step s as s') (hs : I s) : I s' := by
  induction h with
  | nil => exact hs
  | cons ha _ ih => exact ih (hstep _ _ _ hs ha)

/-- A run of a smaller relation is a run of a larger one. -/
theorem mono {step' : σ → α → σ → Prop} (hle : ∀ s a s', step s a s' → step' s a s') {s s' : σ}
    {as : List α} (h : Run step s as s') : Run step' s as s' := by
  induction h with
  | nil => exact .nil _
  | cons ha _ ih => exact .cons (hle _ _ _ ha) ih

/-- What the steps of actions that meet a condition preserve. -/
theorem invariant_of_actions {I : σ → Prop} {ok : α → Prop}
    (hstep : ∀ s a s', I s → step s a s' → ok a → I s') {s s' : σ} {as : List α}
    (h : Run step s as s') (hok : ∀ a ∈ as, ok a) (hs : I s) : I s' := by
  induction h with
  | nil => exact hs
  | cons ha _ ih =>
    apply ih fun a' ha' => hok a' (List.mem_cons_of_mem _ ha')
    exact hstep _ _ _ hs ha (hok _ List.mem_cons_self)

/-- Where each step of an action that meets a condition lowers a rank, a run of such actions is no
longer than the rank at its start. -/
theorem length_add_rank_le (rank : σ → Nat) {ok : α → Prop}
    (hstep : ∀ s a s', step s a s' → ok a → rank s' < rank s) {s s' : σ} {as : List α}
    (h : Run step s as s') (hok : ∀ a ∈ as, ok a) : as.length + rank s' ≤ rank s := by
  induction h with
  | nil => simp
  | cons ha _ ih =>
    have hlt := hstep _ _ _ ha (hok _ List.mem_cons_self)
    have hle := ih fun a' ha' => hok a' (List.mem_cons_of_mem _ ha')
    rw [List.length_cons]
    omega

/-- The states that a run goes through. -/
def Passes (step : σ → α → σ → Prop) (s : σ) (as : List α) (s' middle : σ) : Prop :=
  ∃ before after, as = before ++ after ∧ Run step s before middle ∧ Run step middle after s'

/-- The steps that a run takes: the state before the step, and the action. -/
def Takes (step : σ → α → σ → Prop) (s : σ) (as : List α) (s' middle : σ) (a : α) : Prop :=
  ∃ before after next, as = before ++ a :: after ∧ Run step s before middle ∧
    step middle a next ∧ Run step next after s'

theorem Takes.cons {s s₁ s' middle : σ} {a b : α} {as : List α} (ha : step s a s₁)
    (h : Takes step s₁ as s' middle b) : Takes step s (a :: as) s' middle b := by
  obtain ⟨before, after, next, rfl, hbefore, hb, hafter⟩ := h
  exact ⟨a :: before, after, next, rfl, .cons ha hbefore, hb, hafter⟩

/-- What steps that meet a condition preserve holds wherever such steps have led. -/
theorem invariant_of_takes {I : σ → Prop} {ok : σ → α → Prop}
    (hstep : ∀ s a s', I s → step s a s' → ok s a → I s') {s middle s' : σ} {before after : List α}
    (h : Run step s before middle) (hrest : Run step middle after s')
    (hok : ∀ m a, Takes step s (before ++ after) s' m a → ok m a) (hs : I s) : I middle := by
  induction h with
  | nil => exact hs
  | cons ha hrun ih =>
    refine ih hrest (fun m b hb => hok m b (hb.cons ha)) (hstep _ _ _ hs ha (hok _ _ ?_))
    exact ⟨[], _, _, rfl, .nil _, ha, hrun.append hrest⟩

/-- Where each step keeps `I` exactly if its action meets the condition in the state it starts
from, `I` holds all along a run exactly if all the steps that the run takes do. What holds of every
state may be used in the steps. -/
theorem forall_passes_iff {I J : σ → Prop} {ok : σ → α → Prop}
    (hJ : ∀ s a s', J s → step s a s' → J s')
    (hI : ∀ s a s', J s → I s → step s a s' → (I s' ↔ ok s a)) {s s' : σ} {as : List α}
    (hs : J s) (hi : I s) :
    (∀ middle, Passes step s as s' middle → I middle) ↔
      ∀ middle a, Takes step s as s' middle a → ok middle a := by
  constructor
  · rintro hall middle a ⟨before, after, next, rfl, hbefore, ha, hafter⟩
    have hmiddle : I middle := hall middle ⟨before, a :: after, rfl, hbefore, .cons ha hafter⟩
    have hnext : I next :=
      hall next ⟨before ++ [a], after, by simp, hbefore.append (.single ha), hafter⟩
    exact (hI middle a next (hbefore.invariant hJ hs) hmiddle ha).mp hnext
  · rintro hall middle ⟨before, after, rfl, hbefore, hafter⟩
    have hboth := hbefore.invariant_of_takes (I := fun s => J s ∧ I s)
      (fun s a s' hs ha hok => ⟨hJ s a s' hs.1 ha, (hI s a s' hs.1 hs.2 ha).mpr hok⟩) hafter hall
      ⟨hs, hi⟩
    exact hboth.2

end Run

/-! ## What a run can lead to -/

/-- Some run leads to a state like that. -/
def CanReach (step : σ → α → σ → Prop) (s : σ) (Q : σ → Prop) : Prop :=
  ∃ as s', Run step s as s' ∧ Q s'

namespace CanReach

variable {P Q : σ → Prop}

theorem here {s : σ} (h : Q s) : CanReach step s Q := ⟨[], s, .nil s, h⟩

theorem of_step {s s' : σ} {a : α} (ha : step s a s') (h : CanReach step s' Q) :
    CanReach step s Q := by
  obtain ⟨as, s'', hrun, hQ⟩ := h
  exact ⟨a :: as, s'', .cons ha hrun, hQ⟩

/-- One run goes on where the other has led. -/
theorem trans {s : σ} (h : CanReach step s P) (hnext : ∀ s', P s' → CanReach step s' Q) :
    CanReach step s Q := by
  obtain ⟨as, s', hrun, hP⟩ := h
  obtain ⟨bs, s'', hrun', hQ⟩ := hnext s' hP
  exact ⟨as ++ bs, s'', hrun.append hrun', hQ⟩

theorem mono {s : σ} (h : CanReach step s P) (hle : ∀ s', P s' → Q s') : CanReach step s Q :=
  h.trans fun s' hP => here (hle s' hP)

/-- As many rounds of a loop as are wanted. -/
theorem iterate {I : Nat → σ → Prop} {n : Nat}
    (hround : ∀ i < n, ∀ s, I i s → CanReach step s (I (i + 1))) {s : σ} (h : I 0 s) :
    CanReach step s (I n) := by
  induction n with
  | zero => exact here h
  | succ n ih =>
    exact (ih fun i hi => hround i (by omega)).trans (hround n (by omega))

end CanReach

/-- The steps taken from a state that meets a condition with the action. -/
def guarded (step : σ → α → σ → Prop) (ok : σ → α → Prop) : σ → α → σ → Prop :=
  fun s a s' => step s a s' ∧ ok s a

/-- The states a run can reach from a set of initial states. -/
def Reachable (step : σ → α → σ → Prop) (init : σ → Prop) (s : σ) : Prop :=
  ∃ s₀ as, init s₀ ∧ Run step s₀ as s

theorem Reachable.invariant {init I : σ → Prop} (hinit : ∀ s, init s → I s)
    (hstep : ∀ s a s', I s → step s a s' → I s') {s : σ} (h : Reachable step init s) : I s := by
  obtain ⟨s₀, as, h₀, hrun⟩ := h
  exact hrun.invariant hstep (hinit s₀ h₀)

end Lib
