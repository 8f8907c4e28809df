import Mathlib.Data.List.Basic

/-!
# Guarded runs of a step function

A concurrent system is given by a partial step function: an action either is
not enabled in a state or leads to exactly one next state.  A guarded run is a
run in which every action is taken in a state that allows it.  The module
packages the one induction that every safety argument over runs uses, and an
executable form of guarded runs by which a concrete run is checked.
-/

namespace GuardedRun

section Runs

variable {State Act : Type*}
variable (step : State → Act → Option State)
variable (allowed : State → Act → Prop)

/-- A finite run, each of whose actions is allowed in the state it is taken in. -/
inductive Run : State → List Act → State → Prop
  | nil (s : State) : Run s [] s
  | cons {s t u : State} {a : Act} {acts : List Act} :
      allowed s a → step s a = some t → Run t acts u → Run s (a :: acts) u

variable {step allowed}

/-- What every allowed step preserves holds at the end of every guarded run. -/
theorem Run.preserves {Inv : State → Prop}
    (hstep : ∀ s a t, Inv s → allowed s a → step s a = some t → Inv t)
    {s u : State} {acts : List Act} (hrun : Run step allowed s acts u) (hs : Inv s) :
    Inv u := by
  induction hrun with
  | nil s => exact hs
  | cons hallowed ht _ ih => exact ih (hstep _ _ _ hs hallowed ht)

theorem Run.append {s t u : State} {acts more : List Act} (hfirst : Run step allowed s acts t)
    (hsecond : Run step allowed t more u) :
    Run step allowed s (acts ++ more) u := by
  induction hfirst with
  | nil s => exact hsecond
  | cons hallowed ht _ ih => exact Run.cons hallowed ht (ih hsecond)

variable (step allowed)

/-- Execute a list of actions, stopping at one that is not allowed or not enabled. -/
def exec [∀ s a, Decidable (allowed s a)] : State → List Act → Option State
  | s, [] => some s
  | s, a :: acts =>
    if allowed s a then
      match step s a with
      | none => none
      | some t => exec t acts
    else none

variable {step allowed}

/-- An execution that ends is a guarded run. -/
theorem Run.of_exec [∀ s a, Decidable (allowed s a)] {s u : State} {acts : List Act}
    (hexec : exec step allowed s acts = some u) :
    Run step allowed s acts u := by
  induction acts generalizing s with
  | nil =>
    simp only [exec, Option.some.injEq] at hexec
    subst hexec
    exact Run.nil s
  | cons a acts ih =>
    simp only [exec] at hexec
    split at hexec
    · rename_i hallowed
      cases ht : step s a with
      | none => simp [ht] at hexec
      | some t =>
        rw [ht] at hexec
        exact Run.cons hallowed ht (ih hexec)
    · simp at hexec

/-- An execution whose last state passes a test is a guarded run to such a state. -/
theorem Run.exists_of_exec (step : State → Act → Option State) (allowed : State → Act → Prop)
    [∀ s a, Decidable (allowed s a)] (s : State) (acts : List Act) (p : State → Bool)
    (hexec : (exec step allowed s acts).any p = true) :
    ∃ u, Run step allowed s acts u ∧ p u = true := by
  cases hu : exec step allowed s acts with
  | none => simp [hu] at hexec
  | some u =>
    refine ⟨u, Run.of_exec hu, ?_⟩
    simpa [hu] using hexec

end Runs

end GuardedRun
