/-
Runs of a system whose steps satisfy a condition.

A step function says which actions a state allows and where they lead.  A run is any
sequence of allowed actions, each of which satisfies a condition on the state it is
taken in; with the condition that is always true these are all runs.  What every such
step preserves, every such run preserves.
-/
import Mathlib.Data.List.Basic

namespace Runs

variable {σ α : Type*}

inductive Run (step : σ → α → Option σ) (allowed : σ → α → Prop) (s : σ) : σ → Prop
  | refl : Run step allowed s s
  | tail {t u : σ} (a : α) (run : Run step allowed s t) (ok : allowed t a)
      (next : step t a = some u) : Run step allowed s u

variable {step : σ → α → Option σ} {allowed : σ → α → Prop} {s t u : σ}

theorem Run.trans (first : Run step allowed s t) (second : Run step allowed t u) :
    Run step allowed s u := by
  induction second with
  | refl => exact first
  | tail a _ ok next ih => exact .tail a ih ok next

/-- The induction on a run: an invariant holds at its end. -/
theorem Run.invariant {P : σ → Prop} (run : Run step allowed s t) (start : P s)
    (preserved : ∀ t u a, P t → allowed t a → step t a = some u → P u) : P t := by
  induction run with
  | refl => exact start
  | tail a _ ok next ih => exact preserved _ _ a ih ok next

/-- The actions of a list, one after the other, as long as they are allowed. -/
def follow (step : σ → α → Option σ) (allowed : σ → α → Prop) [∀ s a, Decidable (allowed s a)] :
    σ → List α → Option σ
  | s, [] => some s
  | s, a :: actions =>
      if allowed s a then (step s a).bind fun t => follow step allowed t actions else none

theorem run_of_follow [∀ s a, Decidable (allowed s a)] {actions : List α}
    (h : follow step allowed s actions = some t) : Run step allowed s t := by
  induction actions generalizing s with
  | nil =>
      injection h with h
      exact h ▸ .refl
  | cons a actions ih =>
      rw [follow] at h
      split at h
      · rename_i ok
        obtain ⟨u, next, rest⟩ := Option.bind_eq_some_iff.mp h
        exact (Run.refl.tail a ok next).trans (ih rest)
      · cases h

end Runs

/-
Calls that owe a step.

A call that has made one of two steps that belong together owes the other one.  Calls
stand in a list, and a call that goes on is replaced in its place.  What the lemmas say
is who owes something afterwards: whoever owed it before, as long as it was not the call
that went on, and the call that went on if it does now.
-/

namespace Debts

variable {α : Type*} {owes : α → Bool} {calls : List α} {i : Nat} {call call' : α}

def Owed (owes : α → Bool) (calls : List α) : Prop := ∃ call ∈ calls, owes call = true

theorem Owed.of_others (h : Owed owes (calls.eraseIdx i)) : Owed owes (calls.set i call') := by
  obtain ⟨other, there, owing⟩ := h
  obtain ⟨j, apart, there⟩ := List.mem_eraseIdx_iff_getElem?.mp there
  refine ⟨other, List.mem_of_getElem? (i := j) ?_, owing⟩
  rw [List.getElem?_set_ne (Ne.symm apart)]
  exact there

theorem Owed.cases (h : Owed owes calls) (here : calls[i]? = some call) :
    owes call = true ∨ Owed owes (calls.eraseIdx i) := by
  obtain ⟨other, there, owing⟩ := h
  obtain ⟨j, there⟩ := List.getElem?_of_mem there
  by_cases same : j = i
  · rw [same, here] at there
    injection there with there
    rw [there]
    exact .inl owing
  · exact .inr ⟨other, List.mem_eraseIdx_iff_getElem?.mpr ⟨j, same, there⟩, owing⟩

theorem Owed.self (here : calls[i]? = some call) (owing : owes call' = true) :
    Owed owes (calls.set i call') := by
  refine ⟨call', List.mem_of_getElem? (i := i) ?_, owing⟩
  rw [List.getElem?_set_self']
  rw [here]
  rfl

/-- A call that goes on and owes what it owed. -/
theorem Owed.set (h : Owed owes calls) (here : calls[i]? = some call)
    (same : owes call = true → owes call' = true) : Owed owes (calls.set i call') := by
  rcases h.cases here with owing | others
  · exact .self here (same owing)
  · exact others.of_others

theorem Owed.append (h : Owed owes calls) (more : List α) : Owed owes (calls ++ more) := by
  obtain ⟨call, there, owing⟩ := h
  exact ⟨call, List.mem_append_left _ there, owing⟩

theorem not_owed (ended : ∀ call ∈ calls, owes call = false) : ¬ Owed owes calls := by
  rintro ⟨call, there, owing⟩
  rw [ended call there] at owing
  cases owing

/-- What holds of every call and of the one that takes a place holds of every call then. -/
theorem forall_set {P : α → Prop} (all : ∀ call ∈ calls, P call) (new : P call') :
    ∀ call ∈ calls.set i call', P call := by
  intro other there
  rcases List.mem_or_eq_of_mem_set there with there | same
  · exact all other there
  · rw [same]
    exact new

end Debts
