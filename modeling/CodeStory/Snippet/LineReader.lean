import Mathlib.Algebra.Ring.Nat
import Mathlib.Data.List.DropRight
import CodeStory.Lib.LossyUtf8

/-!
# Snippets of source files

A file comes through a buffered reader; each line of it is assembled from the buffers, capped and
numbered, and the whole is capped again. A reader is the buffers that are still to come and the
error, if any, that stands behind them. Opening a file is outside; its answer is given.
-/

set_option autoImplicit false

namespace CodeStory.Snippet

open Utf8Text

abbrev Bytes := List UInt8

structure Reader where
  buffers : List Bytes
  failure : Option String := none

/-- `usize::MAX` -/
def usizeMax : Nat := 2 ^ 64 - 1

/-- `u32::MAX` -/
def u32Max : Nat := 2 ^ 32 - 1

def directSnippetContextLineCap : Nat := 50

def directSnippetMaxBytes : Nat := 64 * 1024

def directSnippetTruncationSuffix : Text := "\n... snippet truncated by byte cap\n```".toList

structure BoundedSnippet where
  markdown : Text
  truncated : Bool
  deriving DecidableEq

/-! ## Byte caps -/

/-- The nearest offset below that is between characters. -/
def floorBoundary (text : Text) : Nat → Nat
  | 0 => 0
  | keep + 1 => if (splitAt text (keep + 1)).isSome then keep + 1 else floorBoundary text keep

/-- `String::truncate` at an offset between characters. -/
def truncate (text : Text) (keep : Nat) : Text := (sliceTo text keep).getD text

def truncateToByteCap (text : Text) (maxBytes : Nat) (suffix : Text) : BoundedSnippet :=
  if byteLen text ≤ maxBytes then ⟨text, false⟩
  else
    let keep := floorBoundary text (maxBytes - byteLen suffix)
    let text := truncate text keep ++ suffix
    if maxBytes < byteLen text then ⟨truncate text (floorBoundary text maxBytes), true⟩
    else ⟨text, true⟩

def openingFence : Text := "```text\n".toList

def closingFence : Text := "```".toList

def finishBoundedFileSnippet (out : Text) (truncated : Bool) (maxBytes : Nat)
    (truncationSuffix : Text) : BoundedSnippet :=
  if out = openingFence then ⟨[], false⟩
  else
    let out := out ++ closingFence
    if maxBytes < byteLen out then truncateToByteCap out maxBytes truncationSuffix
    else if truncated then
      let out := if closingFence <:+ out then truncate out (byteLen out - 3) else out
      if byteLen out + byteLen truncationSuffix ≤ maxBytes then ⟨out ++ truncationSuffix, true⟩
      else truncateToByteCap out maxBytes truncationSuffix
    else ⟨out, false⟩

/-! ## Lines -/

/-- What has been read of a line. -/
structure LineRead where
  total : Nat := 0
  out : Text := []
  truncated : Bool := false
  deriving DecidableEq

/-- The chunk of a buffer that belongs to the line. -/
def LineRead.take (maxLineBytes : Nat) (read : LineRead) (chunk : Bytes) : LineRead :=
  let total := min (read.total + chunk.length) usizeMax
  if byteLen read.out < maxLineBytes then
    let copyLen := min chunk.length (maxLineBytes - byteLen read.out)
    { total := total
      out := read.out ++ lossy (chunk.take copyLen)
      truncated := read.truncated || decide (copyLen < chunk.length) }
  else
    { total := total, out := read.out, truncated := read.truncated || !chunk.isEmpty }

-- An empty buffer means the end of the file. Without a newline the whole buffer is consumed.
def readBuffers (failure : Option String) (maxLineBytes : Nat) :
    List Bytes → LineRead → Except String (LineRead × List Bytes)
  | [], read =>
    match failure with
    | some error => .error error
    | none => .ok (read, [])
  | available :: later, read =>
    if available.isEmpty then .ok (read, available :: later)
    else
      match available.findIdx? (· = 10) with
      | some position =>
        let takeLen := position + 1
        .ok (read.take maxLineBytes (available.take takeLen),
          if takeLen < available.length then available.drop takeLen :: later else later)
      | none => readBuffers failure maxLineBytes later (read.take maxLineBytes available)

def readLineCapped (reader : Reader) (maxLineBytes : Nat) : Except String (LineRead × Reader) :=
  (readBuffers reader.failure maxLineBytes reader.buffers {}).map fun (read, buffers) =>
    (read, { reader with buffers := buffers })

/-! ## Snippets -/

/-- Which lines are shown, and the largest value of the line counter. -/
structure LineWindow where
  focus : Nat
  start : Nat
  stop : Nat
  counterMax : Nat

def trimLineEnd (line : Text) : Text := line.rdropWhile fun c => c = '\r' ∨ c = '\n'

/-- `{:>5}` -/
def paddedNumber (n : Nat) : Text :=
  List.replicate (5 - (Nat.toDigits 10 n).length) ' ' ++ Nat.toDigits 10 n

def numberedLine (focus lineNo : Nat) (line : Text) : Text :=
  (if lineNo = focus then '>' else ' ') :: paddedNumber lineNo ++ " | ".toList ++
    trimLineEnd line ++ ['\n']

/-- The loop over the lines. The fuel is more than the lines that there can be. -/
def showLines (window : LineWindow) (maxBytes : Nat) :
    Nat → Reader → Nat → Text → Bool → Except String (Text × Bool)
  | 0, _, _, out, truncated => .ok (out, truncated)
  | fuel + 1, reader, lineNo, out, truncated =>
    match readLineCapped reader maxBytes with
    | .error error => .error error
    | .ok (read, reader) =>
      if read.total = 0 then .ok (out, truncated)
      else
        let lineNo := min (lineNo + 1) window.counterMax
        if window.stop < lineNo then .ok (out, truncated)
        else if window.start ≤ lineNo then
          showLines window maxBytes fuel reader lineNo
            (out ++ numberedLine window.focus lineNo read.out) (truncated || read.truncated)
        else showLines window maxBytes fuel reader lineNo out truncated

def boundedSnippet (window : LineWindow) (file : Except String Reader) (maxBytes : Nat)
    (truncationSuffix : Text) : Except String BoundedSnippet := do
  let reader ← file
  let shown ← showLines window maxBytes (reader.buffers.flatten.length + 1) reader 0 openingFence
    false
  return finishBoundedFileSnippet shown.1 shown.2 maxBytes truncationSuffix

def contextWindow (focusLine : UInt32) (context : Nat) : LineWindow :=
  let context := min context directSnippetContextLineCap
  let focus := max focusLine.toNat 1
  ⟨focus, max (focus - context) 1, min (focus + context) usizeMax, usizeMax⟩

def boundedMarkdownSnippetFromPath (file : Except String Reader) (focusLine : UInt32)
    (context maxBytes : Nat) (truncationSuffix : Text) : Except String BoundedSnippet :=
  boundedSnippet (contextWindow focusLine context) file maxBytes truncationSuffix

def rangeWindow (focusLine startLine endLine : UInt32) (context : Nat) : LineWindow :=
  let context := min context directSnippetContextLineCap
  ⟨max focusLine.toNat 1, max (startLine.toNat - context) 1,
    min (max endLine.toNat startLine.toNat + context) u32Max, u32Max⟩

def boundedMarkdownSnippetRangeFromPath (file : Except String Reader)
    (focusLine startLine endLine : UInt32) (context maxBytes : Nat) (truncationSuffix : Text) :
    Except String BoundedSnippet :=
  boundedSnippet (rangeWindow focusLine startLine endLine context) file maxBytes truncationSuffix

/-! ## Caps hold -/

theorem floorBoundary_le (text : Text) (keep : Nat) : floorBoundary text keep ≤ keep := by
  induction keep with
  | zero => exact Nat.le_refl 0
  | succ keep ih =>
    unfold floorBoundary
    split
    · exact Nat.le_refl _
    · omega

theorem isBoundary_floorBoundary (text : Text) (keep : Nat) :
    IsBoundary text (floorBoundary text keep) := by
  induction keep with
  | zero => exact .zero
  | succ keep ih =>
    unfold floorBoundary
    split
    · rename_i hsome
      exact isBoundary_iff.mpr hsome
    · exact ih

theorem byteLen_truncate {text : Text} {keep : Nat} (h : IsBoundary text keep) :
    byteLen (truncate text keep) = keep := by
  obtain ⟨a, b, rfl, rfl⟩ := h
  unfold truncate
  rw [sliceTo_append]
  rfl

theorem truncate_append (a b : Text) : truncate (a ++ b) (byteLen a) = a := by
  unfold truncate
  rw [sliceTo_append]
  rfl

theorem byteLen_truncateToByteCap (text : Text) (maxBytes : Nat) (suffix : Text) :
    byteLen (truncateToByteCap text maxBytes suffix).markdown ≤ maxBytes := by
  unfold truncateToByteCap
  split
  · rename_i hle
    exact hle
  · dsimp only
    split
    · rw [byteLen_truncate (isBoundary_floorBoundary _ _)]
      exact floorBoundary_le _ _
    · rename_i hle
      exact Nat.not_lt.mp hle

theorem truncated_truncateToByteCap (text : Text) (maxBytes : Nat) (suffix : Text) :
    (truncateToByteCap text maxBytes suffix).truncated = decide (maxBytes < byteLen text) := by
  unfold truncateToByteCap
  split
  · rename_i hle
    exact (decide_eq_false (Nat.not_lt.mpr hle)).symm
  · rename_i hlt
    dsimp only
    split
    · exact (decide_eq_true (Nat.not_le.mp hlt)).symm
    · exact (decide_eq_true (Nat.not_le.mp hlt)).symm

/-- No snippet is longer than its cap. -/
theorem byteLen_finishBoundedFileSnippet (out : Text) (truncated : Bool) (maxBytes : Nat)
    (suffix : Text) :
    byteLen (finishBoundedFileSnippet out truncated maxBytes suffix).markdown ≤ maxBytes := by
  unfold finishBoundedFileSnippet
  split
  · exact Nat.zero_le _
  · dsimp only
    split
    · exact byteLen_truncateToByteCap _ _ _
    · rename_i hfits
      split
      · generalize (if closingFence <:+ out ++ closingFence then
          truncate (out ++ closingFence) (byteLen (out ++ closingFence) - 3)
          else out ++ closingFence) = text
        split
        · rename_i hsuffix
          rw [byteLen_append]
          exact hsuffix
        · exact byteLen_truncateToByteCap _ _ _
      · exact Nat.not_lt.mp hfits

/-- What was cut is flagged, unless the text fits without the closing fence but not with the
suffix. -/
theorem truncated_finishBoundedFileSnippet {out : Text} (hout : out ≠ openingFence)
    (truncated : Bool) (maxBytes : Nat) (suffix : Text) :
    (finishBoundedFileSnippet out truncated maxBytes suffix).truncated = true ↔
      maxBytes < byteLen out + 3 ∨
        (truncated = true ∧ byteLen out + byteLen suffix ≤ maxBytes) := by
  have hfence : byteLen closingFence = 3 := by decide
  have hcut : truncate (out ++ closingFence) (byteLen (out ++ closingFence) - 3) = out := by
    rw [byteLen_append, hfence, Nat.add_sub_cancel]
    exact truncate_append out closingFence
  unfold finishBoundedFileSnippet
  rw [if_neg hout]
  dsimp only
  rw [byteLen_append, hfence]
  split
  · rename_i hlong
    rw [truncated_truncateToByteCap, byteLen_append, hfence, decide_eq_true_iff]
    exact iff_of_true hlong (.inl hlong)
  · rename_i hfits
    cases truncated with
    | false => simp [hfits]
    | true =>
      rw [if_pos rfl, if_pos (List.suffix_append out closingFence)]
      rw [byteLen_append, hfence] at hcut
      rw [hcut]
      split
      · rename_i hsuffix
        simp [hsuffix]
      · rename_i hsuffix
        rw [truncated_truncateToByteCap, decide_eq_true_iff]
        constructor
        · intro h
          omega
        · rintro (h | ⟨_, h⟩)
          · exact absurd h hfits
          · exact absurd h hsuffix

end CodeStory.Snippet
