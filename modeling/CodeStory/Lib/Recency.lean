import Mathlib.Data.List.Nodup
import Mathlib.Data.List.TakeDrop

/-!
# Records of the most recent keys

Keys are selected one after another, and requests change the state of the key that is selected. A
record is kept for as long as its key is among the most recent ones, and a key that is selected
without a record starts afresh.
-/

set_option autoImplicit false

namespace Recency

universe u v

inductive Happening (κ : Type u) (σ : Type v) where
  | selected (k : κ)
  | requested (change : σ → σ)

variable {κ : Type u} {σ : Type v}

/-! Histories have what happened last at their head. -/

def current : List (Happening κ σ) → Option κ
  | [] => none
  | .selected k :: _ => some k
  | .requested _ :: h => current h

variable [DecidableEq κ]

/-- The different keys that were selected. -/
def recent : List (Happening κ σ) → List κ
  | [] => []
  | .selected k :: h => k :: (recent h).filter (· ≠ k)
  | .requested _ :: h => recent h

/-- The state of a key since its record was made. -/
def ledger (capacity : Nat) (fresh : σ) : List (Happening κ σ) → κ → Option σ
  | [], _ => none
  | .selected k :: h, k' =>
    if k' = k then some ((ledger capacity fresh h k).getD fresh)
    else if k' ∈ (recent (.selected k :: h)).take capacity then ledger capacity fresh h k'
    else none
  | .requested change :: h, k' =>
    if current h = some k' then (ledger capacity fresh h k').map change
    else ledger capacity fresh h k'

variable {h : List (Happening κ σ)} {k k' : κ} {capacity : Nat} {fresh : σ}

theorem recent_nodup (h : List (Happening κ σ)) : (recent h).Nodup := by
  induction h with
  | nil => exact List.nodup_nil
  | cons happening h ih =>
    cases happening with
    | selected k =>
      refine List.nodup_cons.mpr ⟨fun hmem => ?_, ih.filter _⟩
      exact absurd rfl (of_decide_eq_true (List.mem_filter.mp hmem).2)
    | requested change => exact ih

theorem head?_recent (h : List (Happening κ σ)) : (recent h).head? = current h := by
  induction h with
  | nil => rfl
  | cons happening h ih =>
    cases happening with
    | selected k => rfl
    | requested change => exact ih

/-- A key among the latest moves to the front, and the others stay. -/
theorem take_recent_known {n : Nat} (hk : k ∈ (recent h).take (n + 1)) :
    (recent (.selected k :: h)).take (n + 1) = k :: ((recent h).take (n + 1)).filter (· ≠ k) := by
  have hnodup : ((recent h).take (n + 1)).Nodup := (recent_nodup h).sublist (List.take_sublist _ _)
  change k :: ((recent h).filter (· ≠ k)).take n = _
  congr 1
  have hsplit : (recent h).filter (· ≠ k) =
      ((recent h).take (n + 1)).filter (· ≠ k) ++ ((recent h).drop (n + 1)).filter (· ≠ k) := by
    rw [← List.filter_append, List.take_append_drop]
  have herase : ((recent h).take (n + 1)).filter (· ≠ k) = ((recent h).take (n + 1)).erase k := by
    rw [hnodup.erase_eq_filter]
    apply List.filter_congr
    intro j _
    by_cases hj : j = k
    · simp [hj]
    · simp [hj]
  have hlen : (((recent h).take (n + 1)).filter (· ≠ k)).length =
      ((recent h).take (n + 1)).length - 1 := by
    rw [herase, List.length_erase_of_mem hk]
  rw [List.length_take] at hlen
  rw [hsplit]
  by_cases hlong : n + 1 ≤ (recent h).length
  · rw [Nat.min_eq_left hlong, Nat.add_sub_cancel] at hlen
    exact List.take_left' hlen
  · have hshort : (recent h).length ≤ n := by omega
    have hdrop : (recent h).drop (n + 1) = [] := List.drop_eq_nil_of_le (by omega)
    rw [hdrop, List.filter_nil, List.append_nil]
    exact List.take_of_length_le (by omega)

/-- A key that is not among the latest takes the place of the last one. -/
theorem take_recent_new {n : Nat} (hk : k ∉ (recent h).take (n + 1)) :
    (recent (.selected k :: h)).take (n + 1) = k :: (recent h).take n := by
  change k :: ((recent h).filter (· ≠ k)).take n = _
  congr 1
  have hkept : ((recent h).take (n + 1)).filter (· ≠ k) = (recent h).take (n + 1) := by
    apply List.filter_eq_self.mpr
    intro j hj
    apply decide_eq_true
    rintro rfl
    exact hk hj
  have hsplit : (recent h).filter (· ≠ k) =
      (recent h).take (n + 1) ++ ((recent h).drop (n + 1)).filter (· ≠ k) := by
    have happend := List.filter_append (p := (· ≠ k)) ((recent h).take (n + 1))
      ((recent h).drop (n + 1))
    rw [List.take_append_drop, hkept] at happend
    exact happend
  rw [hsplit]
  by_cases hlong : n + 1 ≤ (recent h).length
  · rw [List.take_append_of_le_length (by rw [List.length_take]; omega), List.take_take,
      Nat.min_eq_left (Nat.le_succ n)]
  · have hdrop : (recent h).drop (n + 1) = [] := List.drop_eq_nil_of_le (by omega)
    rw [hdrop, List.filter_nil, List.append_nil, List.take_take, Nat.min_eq_left (Nat.le_succ n)]

/-- A key that is not among the latest has no record. -/
theorem ledger_eq_none {n : Nat} (hk : k ∉ (recent h).take (n + 1)) :
    ledger (n + 1) fresh h k = none := by
  induction h with
  | nil => rfl
  | cons happening h ih =>
    cases happening with
    | selected j =>
      have hne : k ≠ j := by
        rintro rfl
        exact hk List.mem_cons_self
      unfold ledger
      rw [if_neg hne, if_neg hk]
    | requested change =>
      unfold ledger
      rw [ih hk]
      split
      · rfl
      · rfl

theorem ledger_selected : ledger capacity fresh (.selected k :: h) k =
    some ((ledger capacity fresh h k).getD fresh) := by
  conv_lhs => unfold ledger
  exact if_pos rfl

theorem ledger_kept (hne : k' ≠ k) (hmem : k' ∈ (recent (.selected k :: h)).take capacity) :
    ledger capacity fresh (.selected k :: h) k' = ledger capacity fresh h k' := by
  conv_lhs => unfold ledger
  rw [if_neg hne, if_pos hmem]

end Recency
