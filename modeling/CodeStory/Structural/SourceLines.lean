import CodeStory.Lib.InclusiveSplit
import CodeStory.Lib.Text
import CodeStory.Lib.Utf8Bytes
import CodeStory.Structural.JsonKeys

/-!
# The lines of a source

`str::lines`: each line without the line feed that ends it, nor the carriage return before that.
What the line parsers share: `none` is a panic, and `some none` the answer that there is nothing.
-/

set_option autoImplicit false

namespace CodeStory.Structural

open Utf8Text InclusiveSplit

def stripLineEnd (piece : Text) : Text :=
  match Text.stripSuffix ['\n'] piece with
  | none => piece
  | some line => (Text.stripSuffix ['\r'] line).getD line

def sourceLines (source : Text) : List Text :=
  (splitInclusive (fun c => c == '\n') source).map stripLineEnd

theorem stripLineEnd_begins (piece : Text) : stripLineEnd piece <+: piece := by
  unfold stripLineEnd
  cases hfeed : Text.stripSuffix ['\n'] piece with
  | none => exact List.prefix_refl piece
  | some line =>
    have hpiece := Text.stripSuffix_eq_some hfeed
    rw [hpiece]
    apply List.IsPrefix.trans _ (List.prefix_append line ['\n'])
    change (Text.stripSuffix ['\r'] line).getD line <+: line
    cases hreturn : Text.stripSuffix ['\r'] line with
    | none => exact List.prefix_refl line
    | some front =>
      have hline := Text.stripSuffix_eq_some hreturn
      rw [Option.getD_some, hline]
      exact List.prefix_append front ['\r']

theorem byteLen_le_of_begins {a b : Text} (h : a <+: b) : byteLen a ≤ byteLen b := by
  obtain ⟨rest, rfl⟩ := h
  rw [byteLen_append]
  omega

theorem byteLen_le_of_mem_flatten {pieces : List Text} {piece : Text} (h : piece ∈ pieces) :
    byteLen piece ≤ byteLen pieces.flatten := by
  obtain ⟨a, b, rfl⟩ := List.append_of_mem h
  rw [List.flatten_append, List.flatten_cons, byteLen_append, byteLen_append]
  omega

theorem byteLen_le_of_mem_sourceLines {source line : Text} (h : line ∈ sourceLines source) :
    byteLen line ≤ byteLen source := by
  obtain ⟨piece, hpiece, rfl⟩ := List.mem_map.mp h
  have hle := byteLen_le_of_mem_flatten hpiece
  rw [flatten_splitInclusive] at hle
  exact (byteLen_le_of_begins (stripLineEnd_begins piece)).trans hle

/-- A line has a byte of its own, if only the one that ends it. -/
theorem length_sourceLines_le (source : Text) : (sourceLines source).length ≤ byteLen source := by
  have hpieces : ∀ pieces : List Text, (∀ piece ∈ pieces, piece ≠ []) →
      pieces.length ≤ byteLen pieces.flatten := by
    intro pieces
    induction pieces with
    | nil => exact fun _ => Nat.zero_le _
    | cons piece rest ih =>
      intro hne
      have hrest := ih fun q hq => hne q (List.mem_cons_of_mem _ hq)
      have hpos : byteLen piece ≠ 0 := fun h => hne piece List.mem_cons_self (byteLen_eq_zero.mp h)
      rw [List.flatten_cons, byteLen_append, List.length_cons]
      omega
  unfold sourceLines
  rw [List.length_map]
  have h := hpieces (splitInclusive (fun c => c == '\n') source)
    fun piece hpiece => ne_nil_of_mem_splitInclusive hpiece
  rw [flatten_splitInclusive] at h
  exact h

/-! ## Bounds -/

/-- The collectors are only called for sources of a bounded size. -/
structure Small (lines : List Text) : Prop where
  lineCount : lines.length ≤ maxStructuralSourceBytes
  lineBytes : ∀ line ∈ lines, byteLen line ≤ maxStructuralSourceBytes

theorem small_sourceLines {source : Text} (h : byteLen source ≤ maxStructuralSourceBytes) :
    Small (sourceLines source) where
  lineCount := (length_sourceLines_le source).trans h
  lineBytes := fun _ hline => (byteLen_le_of_mem_sourceLines hline).trans h

theorem clampU32_eq {n : Nat} (h : n ≤ maxStructuralSourceBytes) : clampU32 n = n := by
  unfold maxStructuralSourceBytes at h
  unfold clampU32
  omega

theorem getElem?_of_mem_zipIdx {lines : List Text} {entry : Text × Nat} (h : entry ∈ lines.zipIdx) :
    lines[entry.2]? = some entry.1 := List.mem_zipIdx_iff_getElem?.mp h

/-! ## Answers -/

/-- `?` in a function that may panic. -/
def whenSome {α β : Type} (x : Option α) (f : α → Option (Option β)) : Option (Option β) :=
  match x with
  | none => some none
  | some a => f a

section Answers

variable {α β : Type} {x : Option α} {f : α → Option (Option β)}

theorem whenSome_total (h : ∀ a, x = some a → ∃ answer, f a = some answer) :
    ∃ answer, whenSome x f = some answer := by
  cases x with
  | none => exact ⟨none, rfl⟩
  | some a => exact h a rfl

theorem whenSome_eq_some {b : β} (h : whenSome x f = some (some b)) :
    ∃ a, x = some a ∧ f a = some (some b) := by
  cases x with
  | none => cases h
  | some a => exact ⟨a, rfl, h⟩

end Answers

/-! ## Blanks -/

/-- `char::is_ascii_whitespace` -/
def isAsciiBlank (c : Char) : Bool :=
  c == ' ' || c == '\t' || c == '\n' || c == '\x0c' || c == '\r'

section Blanks

variable {c : Char}

theorem isAsciiWhitespace_of_blank (h : isAsciiBlank c = true) :
    ∃ byte, String.utf8EncodeChar c = [byte] ∧ isAsciiWhitespace byte = true := by
  unfold isAsciiBlank at h
  rw [Bool.or_eq_true, Bool.or_eq_true, Bool.or_eq_true, Bool.or_eq_true] at h
  simp only [beq_iff_eq] at h
  rcases h with (((rfl | rfl) | rfl) | rfl) | rfl
  · exact ⟨32, rfl, rfl⟩
  · exact ⟨9, rfl, rfl⟩
  · exact ⟨10, rfl, rfl⟩
  · exact ⟨12, rfl, rfl⟩
  · exact ⟨13, rfl, rfl⟩

theorem isAsciiBlank_of_mem {byte : UInt8} (hmem : byte ∈ String.utf8EncodeChar c)
    (h : isAsciiWhitespace byte = true) : isAsciiBlank c = true := by
  have hvalue : ∀ d : Char, d.toNat = byte.toNat → byte < 128 → c = d := by
    intro d hd hlt
    apply Char.toNat_inj.mp
    rw [toNat_of_mem_encodeChar hmem hlt, hd]
  unfold isAsciiWhitespace at h
  simp only [Bool.or_eq_true, decide_eq_true_eq] at h
  rcases h with (((rfl | rfl) | rfl) | rfl) | rfl
  · rw [hvalue ' ' rfl (by decide)]
    rfl
  · rw [hvalue '\t' rfl (by decide)]
    rfl
  · rw [hvalue '\n' rfl (by decide)]
    rfl
  · rw [hvalue '\x0c' rfl (by decide)]
    rfl
  · rw [hvalue '\r' rfl (by decide)]
    rfl

theorem sameTest_blank : SameTest isAsciiWhitespace isAsciiBlank where
  byte := fun _ hc => isAsciiWhitespace_of_blank hc
  char := fun _ _ hmem h => isAsciiBlank_of_mem hmem h

end Blanks

end CodeStory.Structural
