import CodeStory.Structural.ScriptTokens

/-!
# Anchors of generic structural sources

The four collectors that go line by line never fail. They emit one anchor for each token, and every
anchor is at its token exactly if no fence label, function name or import name occurs earlier in the
part of its line that the search for it passes.
-/

set_option autoImplicit false

namespace CodeStory.Structural

open Utf8Text ByteMask

inductive GenericFamily where
  | markdown
  | yaml
  | shell
  | powershell
  deriving DecidableEq, Repr

def collectGenericEntities : GenericFamily → Text → Text → List Anchor → Option (List Anchor)
  | .markdown => collectMarkdownEntities
  | .yaml => collectYamlEntities
  | .shell => collectShellEntities
  | .powershell => collectPowershellEntities

/-- The tokens of a source, line by line, with the state that the collector carries to the line. -/
def genericTokens (family : GenericFamily) (source : Text) : List (Nat × LineToken) :=
  let lines := (sourceLines source).zipIdx
  match family with
  | .markdown => tokensFrom markdownLine markdownToken lines none
  | .yaml => tokensFrom yamlLine yamlToken lines none
  | .shell => tokensFrom shellLine shellToken lines {}
  | .powershell => tokensFrom powershellLine powershellToken lines 0

/-- One anchor for each token, and all of them in place exactly if no token is shadowed. -/
theorem generic_anchors_are_at_their_tokens_iff (family : GenericFamily) (path source : Text)
    (storage : List Anchor) (hsize : byteLen source ≤ maxStructuralSourceBytes) :
    ∃ anchors, collectGenericEntities family path source storage = some (storage ++ anchors) ∧
      anchors.length = (genericTokens family source).length ∧
      (List.Forall₂ (Delimits (sourceLines source)) (genericTokens family source) anchors ↔
        ∀ entry ∈ genericTokens family source, ¬ entry.2.Shadowed) := by
  have hsmall := small_sourceLines hsize
  have hlines : ∀ entry ∈ (sourceLines source).zipIdx,
    (sourceLines source)[entry.2]? = some entry.1 :=
    fun _ => getElem?_of_mem_zipIdx
  cases family with
  | markdown =>
    have hnone : AsciiFence none := fun _ h => nomatch h
    exact collectLines_spec hsmall markdownLine_answers path hlines none hnone 0 storage
  | yaml => exact collectLines_spec hsmall yamlLine_answers path hlines none trivial 0 storage
  | shell => exact collectLines_spec hsmall shellLine_answers path hlines {} trivial 0 storage
  | powershell =>
    exact collectLines_spec hsmall powershellLine_answers path hlines 0 trivial 0 storage

def shellSource : Text := "build()\n  function f()\n".toList

theorem shell_source_anchors :
    ∃ anchors, collectGenericEntities .shell "run.sh".toList shellSource [] = some ([] ++ anchors) ∧
      anchors.length = (genericTokens .shell shellSource).length ∧
      (List.Forall₂ (Delimits (sourceLines shellSource)) (genericTokens .shell shellSource)
        anchors ↔
        ∀ entry ∈ genericTokens .shell shellSource, ¬ entry.2.Shadowed) :=
  generic_anchors_are_at_their_tokens_iff .shell "run.sh".toList shellSource [] (by decide)

/-- The name `f` is found in the keyword in front of it. -/
example : (collectGenericEntities .shell "run.sh".toList shellSource []).map (·.map (·.span)) =
    some [⟨1, 1, 1, 5⟩, ⟨2, 3, 2, 3⟩] := by decide

end CodeStory.Structural
