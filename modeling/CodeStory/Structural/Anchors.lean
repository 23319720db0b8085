import Mathlib.Data.List.TakeWhile
import CodeStory.Graph.Resolution
import CodeStory.Structural.Blanking

/-!
# Structural anchors

`push_anchor` of `structural/generic.rs` with the spans of `structural/common.rs`. The ids of nodes
are hashes of what an anchor holds and are left out, as are the member edges and the occurrences,
which repeat the span.
-/

set_option autoImplicit false

namespace CodeStory.Structural

open Utf8Text
open CodeStory.Graph (NodeKind)

inductive StructuralCollectionError where
  | malformed (message : String)
  deriving DecidableEq, Repr

def maxStructuralSourceBytes : Nat := 1024 * 1024

structure StructuralSourceSpan where
  startLine : Nat
  startCol : Nat
  endLine : Nat
  endCol : Nat
  deriving DecidableEq, Repr

def StructuralSourceSpan.token (line zeroBasedStart byteLength : Nat) : StructuralSourceSpan :=
  ⟨line, clampU32 (zeroBasedStart + 1), line, clampU32 (zeroBasedStart + byteLength)⟩

structure Anchor where
  kind : NodeKind
  name : Text
  canonicalId : Text
  span : StructuralSourceSpan
  deriving DecidableEq, Repr

def decimal (n : Nat) : Text := (toString n).toList

/-- `path.to_string_lossy().replace('\\', "/")` -/
def pathKey (path : Text) : Text := path.map fun c => if c = '\\' then '/' else c

def anchor (path : Text) (kind : NodeKind) (role : String) (label : Text)
    (ordinal line zeroBasedCol byteLength : Nat) : Anchor where
  kind := kind
  name := label
  canonicalId := "structural-generic:".toList ++ pathKey path ++ ':' :: (role.toList ++
    ':' :: (decimal ordinal ++ ':' :: (decimal line ++ ':' :: (decimal zeroBasedCol ++
      ':' :: label))))
  span := .token line zeroBasedCol (max byteLength 1)

def lineNumber (index : Nat) : Nat := clampU32 (index + 1)

/-! ## Lines and columns of a text -/

def lineColForByteOffset (source : List UInt8) (offset : Nat) : Nat × Nat :=
  let before := source.take (min offset source.length)
  let col := match lastNewline before with
    | none => before.length
    | some index => before.length - index - 1
  (clampU32 (before.countP (· = newline) + 1), col)

/-- The line that begins or goes on behind a text. -/
def lineBehind (before : Text) : Nat := before.count '\n' + 1

/-- The bytes of the last line of a text. -/
def columnBehind (before : Text) : Nat := byteLen (before.reverse.takeWhile (· ≠ '\n')).reverse

theorem newline_not_mem_encode {t : Text} (h : '\n' ∉ t) : newline ∉ encode t := by
  intro hmem
  obtain ⟨c, hc, hvalue⟩ := exists_of_mem_encode hmem (by decide)
  have heq : c = '\n' := Char.toNat_inj.mp hvalue
  exact h (heq ▸ hc)

theorem lastNewline_append {a b : List UInt8} (hb : newline ∉ b) :
    lastNewline (a ++ newline :: b) = some a.length := by
  have hreverse : (a ++ newline :: b).reverse = b.reverse ++ newline :: a.reverse := by
    rw [List.reverse_append, List.reverse_cons, List.append_assoc]
    rfl
  have hfound : (b.reverse ++ newline :: a.reverse).findIdx? (· = newline) = some b.length := by
    rw [List.findIdx?_append, List.findIdx?_eq_none_iff.mpr, List.findIdx?_cons]
    · simp
    · intro x hx
      exact decide_eq_false fun heq => hb (heq ▸ List.mem_reverse.mp hx)
  unfold lastNewline
  rw [hreverse, hfound, Option.map_some, List.length_append, List.length_cons]
  congr 1
  omega

theorem lastNewline_eq_none {bytes : List UInt8} (h : newline ∉ bytes) :
    lastNewline bytes = none := by
  unfold lastNewline
  rw [Option.map_eq_none_iff, List.findIdx?_eq_none_iff]
  intro x hx
  exact decide_eq_false fun heq => h (heq ▸ List.mem_reverse.mp hx)

theorem countP_newline_encode (t : Text) : (encode t).countP (· = newline) = t.count '\n' := by
  induction t with
  | nil => rfl
  | cons c t ih =>
    have hsplit : encode (c :: t) = String.utf8EncodeChar c ++ encode t := rfl
    rw [hsplit, List.countP_append, ih, List.count_cons]
    by_cases hc : c = '\n'
    · rw [hc, if_pos (by decide), Nat.add_comm]
      rfl
    · have hnone : (String.utf8EncodeChar c).countP (· = newline) = 0 := by
        rw [List.countP_eq_zero]
        intro x hx heq
        have hx' := of_decide_eq_true heq
        rw [hx'] at hx
        exact hc (Char.toNat_inj.mp (toNat_of_mem_encodeChar hx (by decide)))
      rw [hnone, if_neg (fun heq => hc (eq_of_beq heq)), Nat.zero_add, Nat.add_zero]

/-- The byte scanner's position behind a text is the position behind its characters. -/
theorem lineColForByteOffset_append (before after : Text) :
    lineColForByteOffset (encode (before ++ after)) (byteLen before) =
      (clampU32 (lineBehind before), columnBehind before) := by
  have htake : (encode (before ++ after)).take
      (min (byteLen before) (encode (before ++ after)).length) = encode before := by
    rw [length_encode, byteLen_append, Nat.min_eq_left (Nat.le_add_right _ _), encode_append,
      ← length_encode (t := before), List.take_left]
  unfold lineColForByteOffset
  rw [htake]
  dsimp only
  rw [countP_newline_encode]
  refine Prod.ext rfl ?_
  unfold columnBehind
  by_cases hmem : '\n' ∈ before
  · obtain ⟨last, front, hreverse, hlast⟩ :=
      List.eq_append_cons_of_mem (List.mem_reverse.mpr hmem)
    have hbefore : before = front.reverse ++ ['\n'] ++ last.reverse := by
      rw [← List.reverse_reverse before, hreverse]
      simp
    have hwhile : before.reverse.takeWhile (· ≠ '\n') = last := by
      rw [hreverse, List.takeWhile_append_of_pos]
      · simp
      · intro c hc
        exact decide_eq_true fun heq => hlast (heq ▸ hc)
    have hbytes : encode before = encode front.reverse ++ newline :: encode last.reverse := by
      rw [hbefore, encode_append, encode_append, List.append_assoc]
      rfl
    have hlastBytes : newline ∉ encode last.reverse :=
      newline_not_mem_encode fun h => hlast (List.mem_reverse.mp h)
    dsimp only
    rw [hwhile, hbytes, lastNewline_append hlastBytes]
    dsimp only
    rw [List.length_append, List.length_cons, length_encode, length_encode]
    change byteLen front.reverse + (byteLen last.reverse + 1) - byteLen front.reverse - 1 =
      byteLen last.reverse
    omega
  · have hwhile : before.reverse.takeWhile (· ≠ '\n') = before.reverse := by
      rw [List.takeWhile_eq_self_iff]
      intro c hc
      exact decide_eq_true fun heq => hmem (heq ▸ List.mem_reverse.mp hc)
    dsimp only
    rw [hwhile, lastNewline_eq_none (newline_not_mem_encode hmem), List.reverse_reverse]
    exact length_encode

end CodeStory.Structural
