import Mathlib.Data.List.Sort
import Mathlib.Order.MinMax

/-!
# Merging half-open intervals

Intervals in the order of their starts are merged in one pass. The result covers the same places,
and its intervals lie apart.
-/

set_option autoImplicit false

namespace Intervals

universe u

structure Interval (α : Type u) where
  start : α
  stop : α
  deriving DecidableEq, Repr

section Cover

variable {α : Type u} [LinearOrder α]

def Interval.Holds (interval : Interval α) (i : α) : Prop := interval.start ≤ i ∧ i < interval.stop

instance (interval : Interval α) (i : α) : Decidable (interval.Holds i) :=
  inferInstanceAs (Decidable (_ ∧ _))

def Covers (intervals : List (Interval α)) (i : α) : Prop :=
  ∃ interval ∈ intervals, interval.Holds i

instance (intervals : List (Interval α)) (i : α) : Decidable (Covers intervals i) :=
  inferInstanceAs (Decidable (∃ interval ∈ intervals, _))

variable {interval : Interval α} {intervals later : List (Interval α)} {i : α}

theorem not_covers_nil : ¬ Covers [] i := by
  rintro ⟨interval, hmem, -⟩
  exact absurd hmem List.not_mem_nil

theorem covers_cons :
    Covers (interval :: intervals) i ↔ interval.Holds i ∨ Covers intervals i :=
  List.exists_mem_cons_iff _ _ _

theorem covers_perm (h : intervals.Perm later) : Covers intervals i ↔ Covers later i := by
  constructor
  · rintro ⟨interval, hmem, hholds⟩
    exact ⟨interval, h.mem_iff.mp hmem, hholds⟩
  · rintro ⟨interval, hmem, hholds⟩
    exact ⟨interval, h.mem_iff.mpr hmem, hholds⟩

/-! ## Merging -/

def mergeFrom (current : Interval α) : List (Interval α) → List (Interval α)
  | [] => [current]
  | next :: later =>
    if next.start ≤ current.stop then mergeFrom ⟨current.start, max current.stop next.stop⟩ later
    else current :: mergeFrom next later

def merge : List (Interval α) → List (Interval α)
  | [] => []
  | first :: later => mergeFrom first later

/-- In the order of their starts. -/
def Sorted (intervals : List (Interval α)) : Prop :=
  intervals.Pairwise fun earlier later => earlier.start ≤ later.start

/-- An interval takes in the next one if that begins no later than it ends. -/
theorem holds_joined {current next : Interval α} (hle : current.start ≤ next.start)
    (hjoin : next.start ≤ current.stop) :
    (⟨current.start, max current.stop next.stop⟩ : Interval α).Holds i ↔
      current.Holds i ∨ next.Holds i := by
  unfold Interval.Holds
  dsimp only
  constructor
  · rintro ⟨hstart, hstop⟩
    rcases lt_max_iff.mp hstop with hstop | hstop
    · exact .inl ⟨hstart, hstop⟩
    · rcases lt_or_ge i current.stop with hlt | hge
      · exact .inl ⟨hstart, hlt⟩
      · exact .inr ⟨hjoin.trans hge, hstop⟩
  · rintro (⟨hstart, hstop⟩ | ⟨hstart, hstop⟩)
    · exact ⟨hstart, lt_max_of_lt_left hstop⟩
    · exact ⟨hle.trans hstart, lt_max_of_lt_right hstop⟩

theorem covers_mergeFrom {current : Interval α} (hsorted : Sorted (current :: later)) :
    Covers (mergeFrom current later) i ↔ Covers (current :: later) i := by
  induction later generalizing current with
  | nil => exact Iff.rfl
  | cons next later ih =>
    obtain ⟨hfirst, hrest⟩ := List.pairwise_cons.mp hsorted
    unfold mergeFrom
    by_cases hjoin : next.start ≤ current.stop
    · rw [if_pos hjoin, ih]
      · rw [covers_cons, holds_joined (hfirst next List.mem_cons_self) hjoin, covers_cons,
          covers_cons, or_assoc]
      · refine List.pairwise_cons.mpr ⟨?_, (List.pairwise_cons.mp hrest).2⟩
        intro other hmem
        exact hfirst other (List.mem_cons_of_mem _ hmem)
    · rw [if_neg hjoin, covers_cons, ih hrest, ← covers_cons]

theorem covers_merge (hsorted : Sorted intervals) :
    Covers (merge intervals) i ↔ Covers intervals i := by
  cases intervals with
  | nil => exact Iff.rfl
  | cons first later => exact covers_mergeFrom hsorted

/-- The ends of a merged interval are ends of intervals that went in. -/
theorem mergeFrom_ends {current : Interval α} {p : α → Prop}
    (h : ∀ interval ∈ current :: later, interval.start ≤ interval.stop ∧ p interval.start ∧
      p interval.stop) :
    ∀ interval ∈ mergeFrom current later, interval.start ≤ interval.stop ∧ p interval.start ∧
      p interval.stop := by
  induction later generalizing current with
  | nil => exact h
  | cons next later ih =>
    obtain ⟨hcurrent, hrest⟩ := List.forall_mem_cons.mp h
    obtain ⟨hnext, hlater⟩ := List.forall_mem_cons.mp hrest
    unfold mergeFrom
    by_cases hjoin : next.start ≤ current.stop
    · rw [if_pos hjoin]
      refine ih (List.forall_mem_cons.mpr ⟨⟨?_, hcurrent.2.1, ?_⟩, hlater⟩)
      · exact hcurrent.1.trans (le_max_left _ _)
      · rcases max_choice current.stop next.stop with hmax | hmax
        · rw [hmax]
          exact hcurrent.2.2
        · rw [hmax]
          exact hnext.2.2
    · rw [if_neg hjoin]
      exact List.forall_mem_cons.mpr ⟨hcurrent, ih hrest⟩

theorem merge_ends {p : α → Prop}
    (h : ∀ interval ∈ intervals, interval.start ≤ interval.stop ∧ p interval.start ∧
      p interval.stop) :
    ∀ interval ∈ merge intervals, interval.start ≤ interval.stop ∧ p interval.start ∧
      p interval.stop := by
  cases intervals with
  | nil => exact h
  | cons first later => exact mergeFrom_ends h

end Cover

end Intervals
