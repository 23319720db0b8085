import Mathlib.Data.List.DropRight
import CodeStory.Structural.SourceLines

/-!
# Markdown and YAML anchors

The collectors of `structural/generic.rs` that go line by line, with what they keep from one line to
the next. The offset of an anchor is found in the line again where the source searches for it.
-/

set_option autoImplicit false

namespace CodeStory.Structural

open Utf8Text
open CodeStory.Graph (NodeKind)

def trimEndChars (t : Text) : Text := t.rdropWhile Text.isWhiteSpace

def trimEndMatches (c : Char) (t : Text) : Text := t.rdropWhile fun d => d == c

/-- The arguments with which a collector calls `push_anchor`, but for the ordinal and the line. -/
structure Parsed where
  kind : NodeKind
  role : String
  label : Text
  offset : Nat
  len : Nat
  deriving DecidableEq, Repr

/-- A loop over the lines of a source; a step is what happens on a line. -/
def collectLines {σ : Type} (step : σ → Text → Option (σ × Option Parsed)) (path : Text) :
    List (Text × Nat) → σ → Nat → List Anchor → Option (List Anchor)
  | [], _, _, storage => some storage
  | (line, index) :: lines, state, ordinal, storage => do
    let (state, parsed) ← step state line
    match parsed with
    | none => collectLines step path lines state ordinal storage
    | some found =>
      collectLines step path lines state (ordinal + 1)
        (storage ++ [anchor path found.kind found.role
        found.label (ordinal + 1) (lineNumber index) found.offset found.len])

def unquoteWith (quote : Char) (value : Text) : Option Text :=
  (Text.stripPrefix [quote] value).bind (Text.stripSuffix [quote])

def unquoteLabel (value : Text) : Text :=
  ((unquoteWith '"' value).or (unquoteWith '\'' value)).getD value

/-! ## Markdown -/

def backtick : UInt8 := 96

def tilde : UInt8 := 126

def hash : UInt8 := 35

/-- `line.bytes().take_while(|byte| *byte == marker).count()` -/
def byteRun (marker : UInt8) (line : Text) : Nat :=
  ((encode line).takeWhile fun byte => byte == marker).length

def markdownFenceMarker (line : Text) : Option (UInt8 × Nat) :=
  match (encode line).head? with
  | none => none
  | some marker =>
    if marker = backtick ∨ marker = tilde then
      let markerLen := byteRun marker line
      if 3 ≤ markerLen then some (marker, markerLen) else none
    else none

def markdownFenceCloses (line : Text) (marker : UInt8) (openingLen : Nat) : Option Bool :=
  let markerLen := byteRun marker line
  if openingLen ≤ markerLen then
    (sliceFrom line markerLen).map fun rest => (Text.trimChars rest).isEmpty
  else some false

/-- Where the label of a fence ends. -/
def isLabelEnd (c : Char) : Bool := isAsciiBlank c || c == '{'

def markdownFenceLabel (line : Text) : Option (Option (Text × Nat × Nat)) :=
  let marker := if "```".toList <+: line then some '`'
    else if "~~~".toList <+: line then some '~' else none
  whenSome marker fun marker => do
    let markerLen := (line.takeWhile fun c => c == marker).length
    let rest := Text.trimStartChars (← sliceFrom line markerLen)
    let label := rest.takeWhile fun c => !isLabelEnd c
    if label = [] then return none
    else return (find label line).map fun offset => (label, offset, byteLen label)

def markdownHeading (line : Text) : Option (Option (Text × Nat × Nat)) :=
  let hashCount := byteRun hash line
  if ¬ (1 ≤ hashCount ∧ hashCount ≤ 6) ∨ ¬ (encode line)[hashCount]?.any isAsciiWhitespace then
    some none
  else do
    let rest ← sliceFrom line hashCount
    let contentStart := hashCount + (byteLen rest - byteLen (Text.trimStartChars rest))
    let raw := trimEndChars (← sliceFrom line contentStart)
    let raw := trimEndChars (trimEndMatches '#' raw)
    return if raw = [] then none else some (raw, contentStart, byteLen raw)

def markdownReference (line : Text) : Option (Text × Nat × Nat) := do
  let close ← find "]:".toList line
  let raw ← sliceTo (← Text.stripPrefix ['['] line) (close - 1)
  if raw = [] then none else some (raw, 1, byteLen raw)

abbrev Fence := Option (UInt8 × Nat)

def markdownLine (activeFence : Fence) (line : Text) : Option (Fence × Option Parsed) :=
  let trimmed := Text.trimStartChars line
  let indent := byteLen line - byteLen trimmed
  match activeFence with
  | some (marker, markerLen) => do
    return (if ← markdownFenceCloses trimmed marker markerLen then none else activeFence, none)
  | none =>
    match markdownFenceMarker trimmed with
    | some fence => do
      let found ← markdownFenceLabel trimmed
      return (some fence, found.map fun (label, offset, len) =>
        ⟨.annotationNode, "fence", label, indent + offset, len⟩)
    | none => do
      match ← markdownHeading trimmed with
      | some (label, offset, len) =>
        return (none, some ⟨.moduleNode, "heading", label, indent + offset, len⟩)
      | none =>
        return (none, (markdownReference trimmed).map fun (label, offset, len) =>
          ⟨.annotationNode, "reference", label, indent + offset, len⟩)

def collectMarkdownEntities (path source : Text) (storage : List Anchor) : Option (List Anchor) :=
  collectLines markdownLine path (sourceLines source).zipIdx none 0 storage

/-! ## YAML -/

/-- In the YAML scanners a position of the text is what is before it. -/
def yamlCommentStartsAt (before : Text) : Bool :=
  match before.getLast? with
  | none => true
  | some previous => Text.isWhiteSpace previous

def yamlQuoteCanOpenAt (before : Text) : Bool :=
  let front := trimEndChars before
  match front.getLast? with
  | none => true
  | some previous =>
    if previous = ':' ∨ previous = '[' ∨ previous = '{' ∨ previous = ',' then true
    else if ¬ (previous = '-' ∨ previous = '?') then false
    else
      match front.dropLast.getLast? with
      | none => true
      | some earlier => Text.isWhiteSpace earlier

def isQuoteMark (c : Char) : Bool := c == '\'' || c == '"'

/-- The second of two single quotes is passed over as an escaped character is. -/
def stripYamlCommentFrom (before : Text) (quote : Option Char) (escaped : Bool) : Text → Text
  | [] => before
  | c :: rest =>
    match quote with
    | some active =>
      if escaped then stripYamlCommentFrom (before ++ [c]) quote false rest
      else if active = '"' ∧ c = '\\' then stripYamlCommentFrom (before ++ [c]) quote true rest
      else if c = active then
        if active = '\'' ∧ rest.head? = some '\'' then
          stripYamlCommentFrom (before ++ [c]) quote true rest
        else stripYamlCommentFrom (before ++ [c]) none false rest
      else stripYamlCommentFrom (before ++ [c]) quote false rest
    | none =>
      if c = '#' ∧ yamlCommentStartsAt before then before
      else if isQuoteMark c ∧ yamlQuoteCanOpenAt before then
        stripYamlCommentFrom (before ++ [c]) (some c) false rest
      else stripYamlCommentFrom (before ++ [c]) none false rest

def stripYamlComment (line : Text) : Text := stripYamlCommentFrom [] none false line

def yamlMappingDelimiterFrom (before : Text) (quote : Option Char) (escaped : Bool) :
    Text → Option Nat
  | [] => none
  | c :: rest =>
    match quote with
    | some active =>
      if escaped then yamlMappingDelimiterFrom (before ++ [c]) quote false rest
      else if active = '"' ∧ c = '\\' then yamlMappingDelimiterFrom (before ++ [c]) quote true rest
      else if c = active then
        if active = '\'' ∧ rest.head? = some '\'' then
          yamlMappingDelimiterFrom (before ++ [c]) quote true rest
        else yamlMappingDelimiterFrom (before ++ [c]) none false rest
      else yamlMappingDelimiterFrom (before ++ [c]) quote false rest
    | none =>
      if isQuoteMark c ∧ yamlQuoteCanOpenAt before then
        yamlMappingDelimiterFrom (before ++ [c]) (some c) false rest
      else if c = ':' ∧ (encode rest).head?.all isAsciiWhitespace then some (byteLen before)
      else yamlMappingDelimiterFrom (before ++ [c]) none false rest

def yamlMappingDelimiter (value : Text) : Option Nat := yamlMappingDelimiterFrom [] none false value

def listMarker : Text := "- ".toList

def isScalarSuffixChar (c : Char) : Bool := c.isDigit || c == '+' || c == '-'

def yamlBlockScalarHeader (value : Text) : Option Bool := do
  let value := (Text.stripPrefix listMarker value).getD value
  let scalar ← match yamlMappingDelimiter value with
    | some delimiter => (sliceFrom value (delimiter + 1)).map Text.trimStartChars
    | none => some (Text.trimStartChars value)
  let scalar := Text.trimChars scalar
  return ((Text.stripPrefix ['|'] scalar).or (Text.stripPrefix ['>'] scalar)).any fun suffix =>
    suffix.all isScalarSuffixChar

/-- The lines that are over before a key is looked for. -/
def isYamlMarker (trimmed : Text) : Bool :=
  trimmed.isEmpty || "---".toList.isPrefixOf trimmed || "...".toList.isPrefixOf trimmed ||
    ['#'].isPrefixOf trimmed

def mergeKey : Text := "<<".toList

/-- The key of what is left of a line from an offset on. -/
def yamlKeyAt (candidate : Text) (candidateOffset : Nat) : Option (Option Parsed) :=
  whenSome (yamlMappingDelimiter candidate) fun colon => do
    let front ← sliceTo candidate colon
    let rawKey := Text.trimChars front
    if rawKey = [] ∨ rawKey = mergeKey then return none
    let keyOffset := (find rawKey front).getD 0
    let label := unquoteLabel rawKey
    if label = [] then return none
    return some ⟨.annotationNode, "mapping-key", label, candidateOffset + keyOffset, byteLen rawKey⟩

def yamlKey (trimmed : Text) (indent : Nat) : Option (Option Parsed) :=
  match Text.stripPrefix listMarker trimmed with
  | some rest => yamlKeyAt rest (indent + 2)
  | none => yamlKeyAt trimmed indent

def yamlLine (blockScalarParentIndent : Option Nat) (line : Text) :
    Option (Option Nat × Option Parsed) := do
  let code := stripYamlComment line
  let trimmed := Text.trimStartChars code
  let indent := byteLen code - byteLen trimmed
  if blockScalarParentIndent.any fun parentIndent => trimmed.isEmpty || parentIndent < indent then
    return (blockScalarParentIndent, none)
  if isYamlMarker trimmed then return (none, none)
  let header ← yamlBlockScalarHeader trimmed
  let found ← yamlKey trimmed indent
  return (if header then some indent else none, found)

def collectYamlEntities (path source : Text) (storage : List Anchor) : Option (List Anchor) :=
  collectLines yamlLine path (sourceLines source).zipIdx none 0 storage

end CodeStory.Structural
