import Mathlib.Data.List.Forall2
import CodeStory.Structural.GenericLines

/-!
# Tokens of lines

What the anchors of a line-by-line collector are for, apart from how their offsets are found: each
line of code has at most one token, at a place. A collector whose steps answer to the tokens emits
one anchor for each, and its anchors delimit the tokens exactly if no token that is searched for
occurs earlier where the search passes.
-/

set_option autoImplicit false

namespace CodeStory.Structural

open Utf8Text
open CodeStory.Graph (NodeKind)

/-- A part of a line: the text before it, its own text, and what a search for it passes first. -/
structure LineToken where
  kind : NodeKind
  role : String
  label : Text
  front : Text
  text : Text
  searched : Text
  deriving DecidableEq, Repr

def LineToken.On (token : LineToken) (line : Text) : Prop :=
  token.text ≠ [] ∧ ∃ after, line = token.front ++ (token.text ++ after)

/-- The token's text occurs before the token is complete. -/
def LineToken.Shadowed (token : LineToken) : Prop := OccursBefore token.text token.searched

/-- What a parser finds is the token, at its place unless the token is shadowed. -/
structure Finds (line : Text) (found : Parsed) (token : LineToken) : Prop where
  kind : found.kind = token.kind
  role : found.role = token.role
  label : found.label = token.label
  len : found.len = byteLen token.text
  on : token.On line
  offset : found.offset = byteLen token.front ↔ ¬ token.Shadowed
  bound : found.offset + found.len ≤ byteLen line

inductive Agree (line : Text) : Option Parsed → Option LineToken → Prop where
  | nothing : Agree line none none
  | found {p : Parsed} {token : LineToken} (h : Finds line p token) :
      Agree line (some p) (some token)

section Collecting

variable {σ : Type} {step : σ → Text → Option (σ × Option Parsed)}
  {tokenOf : σ → Text → Option LineToken} {good : σ → Prop}

/-- The tokens of a source, with the indexes of their lines. -/
def tokensFrom (step : σ → Text → Option (σ × Option Parsed))
    (tokenOf : σ → Text → Option LineToken) : List (Text × Nat) → σ → List (Nat × LineToken)
  | [], _ => []
  | (line, index) :: lines, state =>
    (tokenOf state line).toList.map (fun token => (index, token)) ++
      match step state line with
      | none => []
      | some (next, _) => tokensFrom step tokenOf lines next

/-- From the states of an invariant no step fails, and each answers to the token of its line. -/
def AnswersTo (step : σ → Text → Option (σ × Option Parsed))
    (tokenOf : σ → Text → Option LineToken) (good : σ → Prop) : Prop :=
  ∀ state, good state → ∀ line, ∃ next parsed, step state line = some (next, parsed) ∧
    good next ∧ Agree line parsed (tokenOf state line)

/-- The anchor is on the token's line and spans the token. -/
def Delimits (lines : List Text) (entry : Nat × LineToken) (a : Anchor) : Prop :=
  ∃ line, lines[entry.1]? = some line ∧ entry.2.On line ∧
    a.kind = entry.2.kind ∧ a.name = entry.2.label ∧
    a.span = ⟨entry.1 + 1, byteLen entry.2.front + 1, entry.1 + 1,
      byteLen entry.2.front + byteLen entry.2.text⟩

theorem lineNumber_eq {lines : List Text} (hsmall : Small lines) {index : Nat} {line : Text}
    (hline : lines[index]? = some line) : lineNumber index = index + 1 := by
  have hlt : index < lines.length := (List.getElem?_eq_some_iff.mp hline).1
  have hcount := hsmall.lineCount
  exact clampU32_eq (by omega)

theorem delimits_iff {lines : List Text} (hsmall : Small lines) {path line : Text}
    {index ordinal : Nat} (hline : lines[index]? = some line) {p : Parsed} {token : LineToken}
    (h : Finds line p token) :
    Delimits lines (index, token) (anchor path p.kind p.role p.label ordinal (lineNumber index)
      p.offset p.len) ↔ ¬ token.Shadowed := by
  rw [← h.offset]
  have hbytes := hsmall.lineBytes line (List.mem_of_getElem? hline)
  have hbound := h.bound
  have hlen := h.len
  have hpos : byteLen token.text ≠ 0 := fun hzero => h.on.1 (byteLen_eq_zero.mp hzero)
  have hspan : (anchor path p.kind p.role p.label ordinal (lineNumber index) p.offset p.len).span =
      ⟨index + 1, p.offset + 1, index + 1, p.offset + byteLen token.text⟩ := by
    have hstart : clampU32 (p.offset + 1) = p.offset + 1 := clampU32_eq (by omega)
    have hstop : clampU32 (p.offset + max p.len 1) = p.offset + byteLen token.text := by
      rw [hlen, Nat.max_eq_left (by omega)]
      exact clampU32_eq (by omega)
    unfold anchor StructuralSourceSpan.token
    dsimp only
    rw [hstart, hstop, lineNumber_eq hsmall hline]
  unfold Delimits
  dsimp only
  rw [hspan]
  constructor
  · intro hdelimits
    obtain ⟨_, _, _, _, _, heq⟩ := hdelimits
    have hcol := congrArg StructuralSourceSpan.startCol heq
    dsimp only at hcol
    omega
  · intro heq
    refine ⟨line, hline, h.on, h.kind, h.label, ?_⟩
    rw [heq]

/-- One anchor for each token, and all of them in place exactly if no token is shadowed. -/
theorem collectLines_spec {all : List Text} (hsmall : Small all) (h : AnswersTo step tokenOf good)
    (path : Text) {lines : List (Text × Nat)}
    (hlines : ∀ entry ∈ lines, all[entry.2]? = some entry.1) (state : σ) (hgood : good state)
    (ordinal : Nat) (storage : List Anchor) :
    ∃ anchors, collectLines step path lines state ordinal storage = some (storage ++ anchors) ∧
      anchors.length = (tokensFrom step tokenOf lines state).length ∧
      (List.Forall₂ (Delimits all) (tokensFrom step tokenOf lines state) anchors ↔
        ∀ entry ∈ tokensFrom step tokenOf lines state, ¬ entry.2.Shadowed) := by
  induction lines generalizing state ordinal storage with
  | nil =>
    refine ⟨[], ?_, rfl, ?_⟩
    · rw [List.append_nil]
      rfl
    · exact iff_of_true List.Forall₂.nil fun _ hmem => absurd hmem List.not_mem_nil
  | cons entry lines ih =>
    obtain ⟨line, index⟩ := entry
    have hline := hlines (line, index) List.mem_cons_self
    have ih := ih fun entry hentry => hlines entry (List.mem_cons_of_mem _ hentry)
    obtain ⟨next, parsed, hstep, hnext, hagree⟩ := h state hgood line
    unfold collectLines tokensFrom
    rw [hstep, Option.bind_eq_bind, Option.bind_some]
    generalize tokenOf state line = token at hagree
    cases hagree with
    | nothing => exact ih next hnext ordinal storage
    | @found p token hfinds =>
      obtain ⟨anchors, hanchors, hcount, hiff⟩ := ih next hnext (ordinal + 1) (storage ++
        [anchor path p.kind p.role p.label (ordinal + 1) (lineNumber index) p.offset p.len])
      refine ⟨anchor path p.kind p.role p.label (ordinal + 1) (lineNumber index) p.offset p.len ::
        anchors, ?_, congrArg (· + 1) hcount, ?_⟩
      · dsimp only
        rw [hanchors, List.append_assoc, List.singleton_append]
      · change List.Forall₂ (Delimits all)
          ((index, token) :: tokensFrom step tokenOf lines next) _ ↔
          ∀ entry ∈ (index, token) :: tokensFrom step tokenOf lines next, _
        rw [List.forall₂_cons, List.forall_mem_cons, hiff, delimits_iff hsmall hline hfinds]

end Collecting

end CodeStory.Structural
