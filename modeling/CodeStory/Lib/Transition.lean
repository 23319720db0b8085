import Mathlib.Logic.Basic
import Mathlib.Data.List.Basic

/-!
# Partial transition functions and their runs

`step s a = some t` says that action `a` is enabled in `s` and leads to `t`. A run is a
finite list of enabled actions. Nothing here fixes what a state or an action is; the
only tools are reachability, the invariant rule, and the restriction of a system to the
steps that satisfy a condition.
-/

set_option autoImplicit false

namespace Transition

universe u v
variable {S : Type u} {A : Type v}

/-- Finite reachability under a partial step function, extended at its far end. -/
inductive Reach (step : S → A → Option S) : S → S → Prop where
  | refl (s : S) : Reach step s s
  | tail {s t u : S} {a : A} : Reach step s t → step t a = some u → Reach step s u

/-- Execute a list of actions; `none` as soon as one of them is not enabled. -/
def run (step : S → A → Option S) : S → List A → Option S
  | s, [] => some s
  | s, a :: as =>
    match step s a with
    | none => none
    | some t => run step t as

/-- Keep only the steps that satisfy `ok` in the state they start from. -/
def guarded (ok : S → A → Prop) [∀ s a, Decidable (ok s a)]
    (step : S → A → Option S) (s : S) (a : A) : Option S :=
  if ok s a then step s a else none

namespace Reach
variable {step : S → A → Option S} {s t u : S}

theorem single {a : A} (h : step s a = some t) : Reach step s t := .tail (.refl s) h

theorem trans (hst : Reach step s t) (htu : Reach step t u) : Reach step s u := by
  induction htu with
  | refl => exact hst
  | tail _ h ih => exact .tail ih h

/-- The invariant rule: what one step preserves, every run preserves. -/
theorem invariant {I : S → Prop} (hstep : ∀ s a t, I s → step s a = some t → I t)
    (h : Reach step s t) (hs : I s) : I t := by
  induction h with
  | refl => exact hs
  | tail _ h ih => exact hstep _ _ _ ih h

/-- A preserved relation between two states of a run. -/
theorem relation {R : S → S → Prop} (hrefl : ∀ s, R s s)
    (htrans : ∀ s t u, R s t → R t u → R s u)
    (hstep : ∀ s a t, step s a = some t → R s t)
    (h : Reach step s t) : R s t := by
  induction h with
  | refl => exact hrefl _
  | tail _ h ih => exact htrans _ _ _ ih (hstep _ _ _ h)

end Reach

theorem exists_of_run_cons {step : S → A → Option S} {s t : S} {a : A} {as : List A}
    (h : run step s (a :: as) = some t) : ∃ m, step s a = some m ∧ run step m as = some t := by
  simp only [run] at h
  split at h
  · exact absurd h (by simp)
  · rename_i m hm
    exact ⟨m, hm, h⟩

theorem reach_of_run {step : S → A → Option S} {as : List A} :
    ∀ {s t : S}, run step s as = some t → Reach step s t := by
  induction as with
  | nil =>
    intro s t h
    obtain rfl : s = t := by simpa [run] using h
    exact .refl s
  | cons a as ih =>
    intro s t h
    obtain ⟨m, hm, h⟩ := exists_of_run_cons h
    exact (Reach.single hm).trans (ih h)

/-- What every action of a list preserves, the list preserves. -/
theorem run_invariant {step : S → A → Option S} {I : S → Prop} {as : List A}
    (hstep : ∀ a ∈ as, ∀ s t, I s → step s a = some t → I t) :
    ∀ {s t : S}, run step s as = some t → I s → I t := by
  induction as with
  | nil =>
    intro s t h hs
    obtain rfl : s = t := by simpa [run] using h
    exact hs
  | cons a as ih =>
    intro s t h hs
    obtain ⟨m, hm, h⟩ := exists_of_run_cons h
    refine ih (fun b hb => hstep b (List.mem_cons_of_mem _ hb)) h ?_
    exact hstep a List.mem_cons_self s m hs hm

/-- The state after a list of actions, or the first one if they are not all enabled. -/
def after (step : S → A → Option S) (s : S) (as : List A) : S := (run step s as).getD s

theorem reach_after (step : S → A → Option S) (s : S) (as : List A) :
    Reach step s (after step s as) := by
  unfold after
  cases h : run step s as with
  | none => exact .refl s
  | some t => exact reach_of_run h

section Guarded
variable {ok : S → A → Prop} [∀ s a, Decidable (ok s a)] {step : S → A → Option S}

theorem guarded_eq_some {s t : S} {a : A} :
    guarded ok step s a = some t ↔ ok s a ∧ step s a = some t := by
  unfold guarded
  split <;> simp_all

/-- A run of the restricted system is a run of the system itself. -/
theorem Reach.of_guarded {s t : S} (h : Reach (guarded ok step) s t) : Reach step s t := by
  induction h with
  | refl => exact .refl _
  | tail _ h ih => exact .tail ih (guarded_eq_some.mp h).2

end Guarded

end Transition
