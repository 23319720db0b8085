import Mathlib.Data.Nat.Log
import Mathlib.Algebra.Ring.Nat

/-!
# A record that states its own length

The number of bytes of a record is one of its fields, in decimal. Writing the length down
changes it, by the digits of what is written; writing it again and again comes to rest after
three times, since within ten bytes there are only two numbers of digits.
-/

set_option autoImplicit false

namespace CodeStory.RecordedLength

/-- The digits of a number in decimal. -/
def decimalLength (n : Nat) : Nat := Nat.log 10 n + 1

theorem decimalLength_pos (n : Nat) : 0 < decimalLength n := Nat.succ_pos _

theorem decimalLength_mono {m n : Nat} (h : m ≤ n) : decimalLength m ≤ decimalLength n := by
  have hlog : Nat.log 10 m ≤ Nat.log 10 n := Nat.log_mono_right h
  unfold decimalLength
  omega

theorem decimalLength_le_ten {n : Nat} (h : n < 10 ^ 10) : decimalLength n ≤ 10 := by
  unfold decimalLength
  by_cases hn : n = 0
  · subst hn
    rw [Nat.log_zero_right]
    omega
  · have hlog := Nat.log_lt_of_lt_pow hn h
    omega

theorem ten_le_decimalLength {n : Nat} (h : 10 ^ 9 ≤ n) : 10 ≤ decimalLength n := by
  have hlog : Nat.log 10 (10 ^ 9) ≤ Nat.log 10 n := Nat.log_mono_right h
  rw [Nat.log_pow (by omega)] at hlog
  unfold decimalLength
  omega

/-- Nine more make at most one digit more. -/
theorem decimalLength_le_succ {m n : Nat} (hpos : 0 < n) (h : m ≤ n + 9) :
    decimalLength m ≤ decimalLength n + 1 := by
  have hlog : Nat.log 10 m ≤ Nat.log 10 (n * 10) := Nat.log_mono_right (by omega)
  rw [Nat.log_mul_base (by omega) (by omega)] at hlog
  unfold decimalLength
  omega

/-- Every unit makes at most one digit more. -/
theorem decimalLength_add_le {n : Nat} (hpos : 0 < n) (k : Nat) :
    decimalLength (n + k) ≤ decimalLength n + k := by
  induction k with
  | zero => exact Nat.le_refl _
  | succ k ih =>
    have hstep : decimalLength (n + (k + 1)) ≤ decimalLength (n + k) + 1 :=
      decimalLength_le_succ (by omega) (by omega)
    omega

section Settling
variable (others : Nat)

/-- The length of a record of so many other bytes that states the length `n`. -/
def lengthStating (n : Nat) : Nat := others + decimalLength n

theorem lengthStating_range {n : Nat} (h : n < 10 ^ 10) :
    others < lengthStating others n ∧ lengthStating others n ≤ others + 10 := by
  have hpos := decimalLength_pos n
  have hten := decimalLength_le_ten h
  unfold lengthStating
  omega

/-- The third length that is written down is the length. -/
theorem lengthStating_settles (hothers : others + 10 < 10 ^ 10) {n : Nat} (h : n < 10 ^ 10) :
    lengthStating others (lengthStating others (lengthStating others (lengthStating others n))) =
      lengthStating others (lengthStating others (lengthStating others n)) := by
  obtain ⟨hfirst, hfirst'⟩ := lengthStating_range others h
  generalize lengthStating others n = first at *
  obtain ⟨hsecond, hsecond'⟩ := lengthStating_range others (show first < 10 ^ 10 by omega)
  have hsecondEq : lengthStating others first = others + decimalLength first := rfl
  generalize lengthStating others first = second at *
  obtain ⟨hthird, hthird'⟩ := lengthStating_range others (show second < 10 ^ 10 by omega)
  have hthirdEq : lengthStating others second = others + decimalLength second := rfl
  generalize lengthStating others second = third at *
  have hfourth : lengthStating others third = others + decimalLength third := rfl
  rw [hfourth]
  have hnear : ∀ {a b : Nat}, others < b → a ≤ others + 10 →
      decimalLength a ≤ decimalLength b + 1 :=
    fun hb ha => decimalLength_le_succ (by omega) (by omega)
  -- The lengths move in one direction, and there is only one step to make.
  rcases Nat.lt_trichotomy first second with hlt | heq | hgt
  · have hmono := decimalLength_mono (Nat.le_of_lt hlt)
    have hmono' : decimalLength second ≤ decimalLength third := decimalLength_mono (by omega)
    have hone := hnear hfirst hsecond'
    have hone' := hnear hfirst hthird'
    by_cases hsame : decimalLength second = decimalLength third
    · omega
    · have hlt' : decimalLength first = decimalLength second := by omega
      have heq : second = third := by omega
      rw [heq] at hsame
      exact absurd rfl hsame
  · rw [heq] at hsecondEq
    have heq' : second = third := by omega
    rw [← heq']
    exact hsecondEq.symm
  · have hmono := decimalLength_mono (Nat.le_of_lt hgt)
    have hmono' : decimalLength third ≤ decimalLength second := decimalLength_mono (by omega)
    have hone := hnear hsecond hfirst'
    have hone' := hnear hthird hfirst'
    by_cases hsame : decimalLength second = decimalLength third
    · omega
    · have hlt' : decimalLength first = decimalLength second := by omega
      have heq : second = third := by omega
      rw [heq] at hsame
      exact absurd rfl hsame

theorem iterate_lengthStating_lt (hothers : others + 10 < 10 ^ 10) {n : Nat} (h : n < 10 ^ 10)
    (k : Nat) : (lengthStating others)^[k] n < 10 ^ 10 := by
  induction k with
  | zero => exact h
  | succ k ih =>
    have hrange := (lengthStating_range others ih).2
    rw [Function.iterate_succ_apply']
    omega

/-- A record that states its length within a bound has room to state the bound. -/
theorem lengthStating_le_of_fixed {n bound : Nat} (hfixed : lengthStating others n = n)
    (hle : n ≤ bound) : lengthStating others bound ≤ bound := by
  have hdigits := decimalLength_pos n
  unfold lengthStating at hfixed ⊢
  have hmore : decimalLength (n + (bound - n)) ≤ decimalLength n + (bound - n) :=
    decimalLength_add_le (by omega) _
  rw [Nat.add_sub_cancel' hle] at hmore
  omega

/-- With that room no length that is written down goes past the bound. -/
theorem iterate_lengthStating_le {n bound : Nat} (hfits : lengthStating others bound ≤ bound)
    (hn : decimalLength n ≤ decimalLength bound) (k : Nat) :
    (lengthStating others)^[k + 1] n ≤ bound := by
  induction k with
  | zero => exact (Nat.add_le_add_left hn others).trans hfits
  | succ k ih =>
    rw [Function.iterate_succ_apply']
    exact (Nat.add_le_add_left (decimalLength_mono ih) others).trans hfits

end Settling

end CodeStory.RecordedLength
