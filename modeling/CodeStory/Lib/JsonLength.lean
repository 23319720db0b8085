import Mathlib.Algebra.BigOperators.Group.List.Basic
import Mathlib.Algebra.Ring.Nat
import CodeStory.Lib.Text
import CodeStory.Lib.Utf8Text

/-!
# Lengths of serialised JSON

The number of bytes that a compact serialiser writes: no spaces, the two-character escapes where
JSON has one, six characters for every other control character, and the rest as it is.
-/

set_option autoImplicit false

namespace CodeStory.JsonLength

def shortEscapes : List Char :=
  ['"', '\\', '\x08', '\t', '\n', '\x0c', '\r']

def charLength (c : Char) : Nat :=
  if c ∈ shortEscapes then 2 else if c.toNat < 0x20 then 6 else c.utf8Size

def textLength (text : List Char) : Nat := (text.map charLength).sum

def stringLength (s : String) : Nat := textLength s.toList + 2

def arrayLength (items : List Nat) : Nat := items.sum + (items.length - 1) + 2

/-- The members of an object with the lengths of their values. -/
def objectLength (members : List (String × Nat)) : Nat :=
  arrayLength (members.map fun member => stringLength member.1 + 1 + member.2)

def boolLength (b : Bool) : Nat := if b then 4 else 5

def nullLength : Nat := 4

/-! ## Texts -/

theorem textLength_append (a b : List Char) :
    textLength (a ++ b) = textLength a + textLength b := by
  unfold textLength
  rw [List.map_append, List.sum_append]

attribute [local instance] Text.decidableAllChars

theorem shortEscapes_ascii : ∀ c ∈ shortEscapes, c.toNat < 0x80 := by decide

theorem utf8Size_of_ascii {c : Char} (h : c.toNat < 0x80) : c.utf8Size = 1 :=
  Char.utf8Size_eq_one_iff.mpr (UInt32.le_iff_toNat_le.mpr (Nat.le_of_lt_succ h))

/-- Escaping makes no character shorter. -/
theorem utf8Size_le_charLength (c : Char) : c.utf8Size ≤ charLength c := by
  unfold charLength
  split
  · rename_i hc
    rw [utf8Size_of_ascii (shortEscapes_ascii c hc)]
    omega
  · split
    · rw [utf8Size_of_ascii (by omega)]
      omega
    · exact Nat.le_refl _

theorem byteLen_le_textLength (text : List Char) : Utf8Text.byteLen text ≤ textLength text := by
  induction text with
  | nil => exact Nat.le_refl 0
  | cons c text ih =>
    unfold textLength at ih ⊢
    rw [List.map_cons, List.sum_cons, Utf8Text.byteLen_cons]
    have hc := utf8Size_le_charLength c
    omega

/-! ## Parts of a whole -/

theorem arrayLength_set_lt {items : List Nat} {i n : Nat} (h : i < items.length)
    (hlt : n < items[i]) : arrayLength (items.set i n) < arrayLength items := by
  have hset : (items.set i n).sum + items[i] = items.sum + n := by
    rw [List.set_eq_take_append_cons_drop, if_pos h]
    have hsplit : items.take i ++ items[i] :: items.drop (i + 1) = items := by
      rw [List.getElem_cons_drop, List.take_append_drop]
    have hsum := congrArg List.sum hsplit
    rw [List.sum_append, List.sum_cons] at hsum ⊢
    omega
  unfold arrayLength
  rw [List.length_set]
  omega

/-- Another value in place of a member's. -/
theorem objectLength_replace (before : List (String × Nat)) (name : String) (n m : Nat)
    (after : List (String × Nat)) :
    objectLength (before ++ (name, n) :: after) + m =
      objectLength (before ++ (name, m) :: after) + n := by
  unfold objectLength arrayLength
  simp only [List.map_append, List.map_cons, List.sum_append, List.sum_cons, List.length_append,
    List.length_cons]
  omega

theorem two_le_objectLength (members : List (String × Nat)) : 2 ≤ objectLength members :=
  Nat.le_add_left 2 _

theorem objectLength_cons_lt {name : String} {n m : Nat} (h : n < m)
    (members : List (String × Nat)) :
    objectLength ((name, n) :: members) < objectLength ((name, m) :: members) := by
  unfold objectLength arrayLength
  simp only [List.map_cons, List.sum_cons, List.length_cons]
  omega

end CodeStory.JsonLength
