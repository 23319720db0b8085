import Mathlib.Algebra.Order.Field.Basic
import Mathlib.Data.Rat.Cast.Order
import Mathlib.Tactic.NormNum
import Mathlib.Tactic.Linarith

/-!
# Numbers of single precision

The finite values of the binary format with 24 bits of precision. Between two neighbours of the
format lies no third, so a bound that is not in the format can be replaced by the neighbour
above it.
-/

set_option autoImplicit false

namespace SinglePrecision

/-- Whole multiples of a power of two, less than `2 ^ 24` of them. -/
def IsSingle (x : Rat) : Prop :=
  ∃ m e : Int, |m| < 2 ^ 24 ∧ -149 ≤ e ∧ e ≤ 104 ∧ x = m * (2 : Rat) ^ e

variable {x : Rat}

/-- From one half on, the spacing is at least `2 ^ -24`. -/
theorem IsSingle.exists_multiple (h : IsSingle x) (hx : 1 / 2 ≤ x) :
    ∃ k : Int, x = k / 2 ^ 24 := by
  obtain ⟨m, e, hm, -, -, rfl⟩ := h
  have he : -24 ≤ e := by
    by_contra hsmall
    have hpow : (2 : Rat) ^ e ≤ 2 ^ (-25 : Int) :=
      zpow_le_zpow_right₀ (by norm_num) (by omega)
    have hm' : (m : Rat) < 2 ^ 24 := by exact_mod_cast (abs_lt.mp hm).2
    have hlt : (m : Rat) * 2 ^ e < 2 ^ 24 * 2 ^ (-25 : Int) := by
      calc (m : Rat) * 2 ^ e < 2 ^ 24 * 2 ^ e := by
            exact mul_lt_mul_of_pos_right hm' (zpow_pos (by norm_num) e)
        _ ≤ 2 ^ 24 * 2 ^ (-25 : Int) := by
            exact mul_le_mul_of_nonneg_left hpow (by norm_num)
    norm_num at hlt
    linarith
  refine ⟨m * 2 ^ (e + 24).toNat, ?_⟩
  have hsplit : (2 : Rat) ^ e * 2 ^ 24 = 2 ^ (e + 24).toNat := by
    rw [← zpow_natCast, ← zpow_natCast, ← zpow_add₀ (by norm_num)]
    congr 1
    omega
  rw [eq_div_iff (by norm_num), mul_assoc, hsplit]
  push_cast
  rfl

/-- A bound and the next multiple of `2 ^ -24` above it are passed by the same numbers. -/
theorem IsSingle.le_iff (h : IsSingle x) {bound : Rat} {n : Int} (hhalf : 1 / 2 ≤ bound)
    (hbelow : ((n - 1 : Int) : Rat) / 2 ^ 24 < bound) (habove : bound ≤ (n : Rat) / 2 ^ 24) :
    bound ≤ x ↔ (n : Rat) / 2 ^ 24 ≤ x := by
  constructor
  · intro hx
    obtain ⟨k, rfl⟩ := h.exists_multiple (hhalf.trans hx)
    have hlt : ((n - 1 : Int) : Rat) / 2 ^ 24 < (k : Rat) / 2 ^ 24 := hbelow.trans_le hx
    have hk : n - 1 < k := by
      rw [div_lt_div_iff_of_pos_right (by norm_num)] at hlt
      exact_mod_cast hlt
    apply div_le_div_of_nonneg_right ?_ (by norm_num)
    exact_mod_cast (by omega : n ≤ k)
  · exact habove.trans

end SinglePrecision
