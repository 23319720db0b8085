import Mathlib.Data.List.Basic
import Mathlib.Algebra.Ring.Nat

/-!
# The 64-bit FNV-1a hash

The state after a sequence of bytes, and its sixteen hexadecimal digits, which determine it.
-/

set_option autoImplicit false

namespace Fnv

def offsetBasis : UInt64 := 0xcbf29ce484222325

def mixByte (state : UInt64) (byte : UInt8) : UInt64 :=
  (state ^^^ byte.toUInt64) * 0x00000100000001B3

def mixBytes (state : UInt64) (bytes : List UInt8) : UInt64 := bytes.foldl mixByte state

@[simp] theorem mixBytes_append (state : UInt64) (a b : List UInt8) :
    mixBytes state (a ++ b) = mixBytes (mixBytes state a) b := List.foldl_append

/-- `u32::to_le_bytes` -/
def leBytes32 (n : UInt32) : List UInt8 :=
  [n.toUInt8, (n >>> 8).toUInt8, (n >>> 16).toUInt8, (n >>> 24).toUInt8]

/-- The lowest digits of a number, in base sixteen and lower case. -/
def hexDigits : Nat → Nat → List Char
  | 0, _ => []
  | k + 1, n => hexDigits k (n / 16) ++ [Nat.digitChar (n % 16)]

/-- `format!("{state:016x}")` -/
def hex16 (state : UInt64) : List Char := hexDigits 16 state.toNat

theorem digitChar_inj {m n : Nat} (hm : m < 16) (hn : n < 16)
    (h : Nat.digitChar m = Nat.digitChar n) : m = n := by
  have htable : ∀ i < 16, ∀ j < 16, Nat.digitChar i = Nat.digitChar j → i = j := by decide
  exact htable m hm n hn h

theorem hexDigits_inj {k m n : Nat} (h : hexDigits k m = hexDigits k n) :
    m % 16 ^ k = n % 16 ^ k := by
  induction k generalizing m n with
  | zero => rw [Nat.pow_zero, Nat.mod_one, Nat.mod_one]
  | succ k ih =>
    obtain ⟨hhigh, hlow⟩ := List.append_inj' h rfl
    have hdiv := ih hhigh
    have hmod := digitChar_inj (Nat.mod_lt m (by decide)) (Nat.mod_lt n (by decide))
      (List.cons.inj hlow).1
    rw [Nat.pow_succ, Nat.mul_comm, Nat.mod_mul, Nat.mod_mul, hdiv, hmod]

theorem hex16_inj {a b : UInt64} (h : hex16 a = hex16 b) : a = b := by
  have hmod := hexDigits_inj h
  have ha : a.toNat < 16 ^ 16 := a.toNat_lt
  have hb : b.toNat < 16 ^ 16 := b.toNat_lt
  rw [Nat.mod_eq_of_lt ha, Nat.mod_eq_of_lt hb] at hmod
  exact UInt64.toNat_inj.mp hmod

end Fnv
