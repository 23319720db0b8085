import Mathlib.Data.Finset.Card
import Mathlib.Logic.Function.Basic

/-!
# How many members of a family have a property

`Census p f n` says that exactly `n` indices of the family `f` satisfy `p`. Families are
changed one member at a time, with `Function.update`.
-/

set_option autoImplicit false

universe u v

def Census {ι : Type u} {α : Type v} (p : α → Prop) (f : ι → α) (n : Nat) : Prop :=
  ∃ members : Finset ι, members.card = n ∧ ∀ i, i ∈ members ↔ p (f i)

namespace Census

variable {ι : Type u} {α : Type v} {p : α → Prop} {f : ι → α} {n : Nat}

theorem none (h : ∀ i, ¬ p (f i)) : Census p f 0 :=
  ⟨∅, rfl, fun i => by simp [h i]⟩

theorem of_zero (h : Census p f 0) (i : ι) : ¬ p (f i) := by
  obtain ⟨members, hcard, hmem⟩ := h
  rw [Finset.card_eq_zero] at hcard
  subst hcard
  intro hi
  exact absurd ((hmem i).mpr hi) (by simp)

theorem pos (h : Census p f n) {i : ι} (hi : p (f i)) : 0 < n := by
  rcases Nat.eq_zero_or_pos n with rfl | hn
  · exact absurd hi (h.of_zero i)
  · exact hn

variable [DecidableEq ι] {i : ι} {a : α}

theorem keep (h : Census p f n) (same : p a ↔ p (f i)) :
    Census p (Function.update f i a) n := by
  obtain ⟨members, hcard, hmem⟩ := h
  refine ⟨members, hcard, fun j => ?_⟩
  by_cases hj : j = i
  · subst hj
    rw [Function.update_self, same]
    exact hmem j
  · rw [Function.update_of_ne hj]
    exact hmem j

theorem gain (h : Census p f n) (hbefore : ¬ p (f i)) (hafter : p a) :
    Census p (Function.update f i a) (n + 1) := by
  obtain ⟨members, hcard, hmem⟩ := h
  have hout : i ∉ members := fun hi => hbefore ((hmem i).mp hi)
  refine ⟨insert i members, by rw [Finset.card_insert_of_notMem hout, hcard], fun j => ?_⟩
  by_cases hj : j = i
  · subst hj
    simp [hafter]
  · rw [Function.update_of_ne hj, Finset.mem_insert]
    simp [hj, hmem j]

theorem lose (h : Census p f n) (hbefore : p (f i)) (hafter : ¬ p a) :
    Census p (Function.update f i a) (n - 1) := by
  obtain ⟨members, hcard, hmem⟩ := h
  have hin : i ∈ members := (hmem i).mpr hbefore
  refine ⟨members.erase i, by rw [Finset.card_erase_of_mem hin, hcard], fun j => ?_⟩
  by_cases hj : j = i
  · subst hj
    simp [hafter]
  · rw [Function.update_of_ne hj, Finset.mem_erase]
    simp [hj, hmem j]

end Census
