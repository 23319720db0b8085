import Mathlib.Algebra.Ring.Nat
import CodeStory.Graph.Tables
import CodeStory.Lib.Text
import CodeStory.Lib.Utf8Text

/-!
# The graph query language

`query_language.rs`: pipelines of operations with named and positional arguments. Texts are lists of
characters, offsets count bytes, and a slice that would panic is an outcome of its own. The three
loops that pass over string literals share `topLevel`, which gives what each of them looks at.
-/

set_option autoImplicit false

namespace CodeStory.Query

open Utf8Text
open CodeStory.Graph (NodeKind)

inductive TrailDirection where
  | incoming
  | outgoing
  | both
  deriving DecidableEq, Repr

inductive GraphQueryOperation where
  | trail (symbol : Text) (depth : Option UInt32) (direction : Option TrailDirection)
  | symbol (query : Text)
  | search (query : Text)
  | filter (kind : Option NodeKind) (file : Option Text) (depth : Option UInt32)
  | limit (count : UInt32)
  deriving DecidableEq

structure GraphQueryAst where
  operations : List GraphQueryOperation
  deriving DecidableEq

structure GraphQueryParseError where
  message : String
  offset : Nat
  source : Text
  deriving DecidableEq

inductive Failure where
  | panicked
  | rejected (error : GraphQueryParseError)
  deriving DecidableEq

abbrev Parsed (α : Type) := Except Failure α

def parseError {α : Type} (source : Text) (offset : Nat) (message : String) : Parsed α :=
  .error (.rejected ⟨message, offset, source⟩)

/-- A slice, which panics where the text cannot be cut. -/
def cut (part : Option Text) : Parsed Text :=
  match part with
  | none => .error .panicked
  | some t => .ok t

def leadingWs (value : Text) : Nat := byteLen value - byteLen (Text.trimStartChars value)

/-! ## Passing over literals -/

structure Scan where
  quote : Option Char
  escaped : Bool
  deriving DecidableEq, Repr

def Scan.outside : Scan := ⟨none, false⟩

/-- The scan after a character of a literal or a quote that opens one; `none` for a character the
loops look at. -/
def Scan.pass (scan : Scan) (ch : Char) : Option Scan :=
  match scan.quote with
  | some active =>
    if scan.escaped then some { scan with escaped := false }
    else if ch = '\\' then some { scan with escaped := true }
    else if ch = active then some { scan with quote := none }
    else some scan
  | none => if ch = '\'' ∨ ch = '"' then some { scan with quote := some ch } else none

/-- The characters outside of literals with their offsets, and the scan at the end. -/
def topLevel (scan : Scan) (idx : Nat) : Text → List (Nat × Char) × Scan
  | [] => ([], scan)
  | ch :: rest =>
    match scan.pass ch with
    | some next => topLevel next (idx + ch.utf8Size) rest
    | none =>
      let (marks, last) := topLevel scan (idx + ch.utf8Size) rest
      ((idx, ch) :: marks, last)

/-- The slices between the separators at these offsets, with their own offsets. -/
def cutAt (source : Text) (start : Nat) : List Nat → Parsed (List (Text × Nat))
  | [] => do
    let part ← cut (sliceFrom source start)
    .ok [(part, start)]
  | idx :: later => do
    let part ← cut (slice source start idx)
    let parts ← cutAt source (idx + 1) later
    .ok ((part, start) :: parts)

/-- The bars outside of all brackets, and the depth at the end: an `i32` in the source, unbounded
here. -/
def pipelineBars (source : Text) (depth : Int) : List (Nat × Char) → Parsed (List Nat × Int)
  | [] => .ok ([], depth)
  | (idx, ch) :: marks =>
    if ch = '(' then pipelineBars source (depth + 1) marks
    else if ch = ')' then
      if depth - 1 < 0 then parseError source idx "Unexpected `)`"
      else pipelineBars source (depth - 1) marks
    else if ch = '|' ∧ depth = 0 then do
      let (bars, last) ← pipelineBars source depth marks
      .ok (idx :: bars, last)
    else pipelineBars source depth marks

def splitPipeline (source : Text) : Parsed (List (Text × Nat)) := do
  let (marks, scan) := topLevel .outside 0 source
  let (bars, depth) ← pipelineBars source 0 marks
  if scan.quote.isSome then parseError source (byteLen source) "Unterminated string literal"
  else if 0 < depth then parseError source (byteLen source) "Unclosed `(`"
  else cutAt source 0 bars

def splitArgs (source argsSource : Text) (argsOffset : Nat) : Parsed (List (Text × Nat)) := do
  let (marks, scan) := topLevel .outside 0 argsSource
  if scan.quote.isSome then
    parseError source (argsOffset + byteLen argsSource) "Unterminated string literal"
  else
    let parts ← cutAt argsSource 0 ((marks.filter (·.2 = ',')).map (·.1))
    .ok (parts.map fun (part, start) => (part, argsOffset + start))

def findTopLevelColon (value : Text) : Option Nat :=
  ((topLevel .outside 0 value).1.find? (·.2 = ':')).map (·.1)

/-! ## Values and arguments -/

/-- The three replacements one after the other. -/
def unescape (body : Text) : Text :=
  replace "\\\\".toList "\\".toList
    (replace "\\\"".toList "\"".toList (replace "\\'".toList "'".toList body))

/-- The first and last byte of the source are quotes exactly when these characters are. -/
def parseValue (source raw : Text) (offset : Nat) : Parsed Text :=
  let raw := Text.trimChars raw
  if 2 ≤ byteLen raw then
    let first := raw.head?
    let last := raw.getLast?
    if first = some '\'' ∧ last = some '\'' ∨ first = some '"' ∧ last = some '"' then do
      let body ← cut (slice raw 1 (byteLen raw - 1))
      .ok (unescape body)
    else if first = some '\'' ∨ first = some '"' then
      parseError source offset "Unterminated string literal"
    else .ok raw
  else .ok raw

structure ParsedArg where
  key : Option Text
  value : Text
  offset : Nat
  deriving DecidableEq

def asciiLower (t : Text) : Text := t.map Char.toLower

/-- One argument, trimmed. -/
def parseArg (source trimmed : Text) (itemOffset : Nat) : Parsed ParsedArg :=
  match findTopLevelColon trimmed with
  | some colon => do
    let key := Text.trimChars (← cut (sliceTo trimmed colon))
    if key = [] then parseError source itemOffset "Expected argument name"
    else
      let after ← cut (sliceFrom trimmed (colon + 1))
      let value := Text.trimChars after
      if value = [] then parseError source (itemOffset + colon + 1) "Expected argument value"
      else
        let parsed ← parseValue source value (itemOffset + colon + 1 + leadingWs after)
        .ok ⟨some (asciiLower key), parsed, itemOffset⟩
  | none => do
    let parsed ← parseValue source trimmed itemOffset
    .ok ⟨none, parsed, itemOffset⟩

def parseParts (source : Text) : List (Text × Nat) → Parsed (List ParsedArg)
  | [] => .ok []
  | (part, offset) :: later =>
    if Text.trimChars part = [] then parseParts source later
    else do
      let arg ← parseArg source (Text.trimChars part) (offset + leadingWs part)
      let args ← parseParts source later
      .ok (arg :: args)

def parseArgs (source argsSource : Text) (argsOffset : Nat) : Parsed (List ParsedArg) := do
  let parts ← splitArgs source argsSource argsOffset
  parseParts source parts

def optionalStringArg (args : List ParsedArg) (key : String) : Option Text :=
  (args.find? (·.key = some key.toList)).map (·.value)

def positionalArg (args : List ParsedArg) (index : Nat) : Option Text :=
  (args.filter (·.key.isNone))[index]?.map (·.value)

def argOffset (args : List ParsedArg) (key : String) : Option Nat :=
  (args.find? (·.key = some key.toList)).map (·.offset)

def requiredStringArg (source : Text) (args : List ParsedArg) (key : String)
    (positionalIndex fallbackOffset : Nat) : Parsed Text :=
  match ((optionalStringArg args key).or (positionalArg args positionalIndex)).filter
      (Text.trimChars · ≠ []) with
  | some value => .ok value
  | none => parseError source fallbackOffset ("Missing `" ++ key ++ "` argument")

/-- `str::parse::<u32>` -/
def parseU32 (raw : Text) : Option UInt32 :=
  let digits := if raw.head? = some '+' then raw.tail else raw
  if digits = [] ∨ !digits.all Char.isDigit then none
  else
    let n := Nat.ofDigitChars 10 digits 0
    if n < 2 ^ 32 then some (UInt32.ofNat n) else none

def notAnInteger {α : Type} (source raw : Text) (offset : Nat) : Parsed α :=
  parseError source offset ("Expected `" ++ String.ofList raw ++ "` to be an integer")

def requiredU32Arg (source : Text) (args : List ParsedArg) (key : String)
    (positionalIndex fallbackOffset : Nat) : Parsed UInt32 :=
  match (optionalStringArg args key).or (positionalArg args positionalIndex) with
  | none => parseError source fallbackOffset "Missing numeric argument"
  | some raw =>
    match parseU32 raw with
    | some n => .ok n
    | none => notAnInteger source raw ((argOffset args key).getD fallbackOffset)

def optionalU32Arg (source : Text) (args : List ParsedArg) (key : String) :
    Parsed (Option UInt32) :=
  match optionalStringArg args key with
  | none => .ok none
  | some raw =>
    match parseU32 raw with
    | some n => .ok (some n)
    | none => notAnInteger source raw ((argOffset args key).getD 0)

def directionOf (raw : Text) : Option TrailDirection :=
  let name := String.ofList (asciiLower (Text.trimChars raw))
  if name = "incoming" ∨ name = "in" then some .incoming
  else if name = "outgoing" ∨ name = "out" then some .outgoing
  else if name = "both" then some .both
  else none

def optionalDirectionArg (source : Text) (args : List ParsedArg) (key : String) :
    Parsed (Option TrailDirection) :=
  match optionalStringArg args key with
  | none => .ok none
  | some raw =>
    match directionOf raw with
    | some direction => .ok (some direction)
    | none => parseError source ((argOffset args key).getD 0)
        ("Unknown direction `" ++ String.ofList raw ++ "`")

def kindNames : List (String × NodeKind) :=
  [("MODULE", .moduleNode), ("NAMESPACE", .namespaceNode), ("PACKAGE", .packageNode),
    ("FILE", .fileNode), ("STRUCT", .structNode), ("CLASS", .classNode),
    ("INTERFACE", .interfaceNode), ("ANNOTATION", .annotationNode), ("UNION", .unionNode),
    ("ENUM", .enumNode), ("TYPEDEF", .typedefNode), ("TYPE_PARAMETER", .typeParameterNode),
    ("BUILTIN_TYPE", .builtinTypeNode), ("FUNCTION", .functionNode), ("METHOD", .methodNode),
    ("MACRO", .macroNode), ("GLOBAL_VARIABLE", .globalVariableNode), ("FIELD", .fieldNode),
    ("VARIABLE", .variableNode), ("CONSTANT", .constantNode),
    ("ENUM_CONSTANT", .enumConstantNode), ("UNKNOWN", .unknownNode)]

def parseNodeKind (raw : Text) : Option NodeKind :=
  let normalized := ((Text.trimChars raw).map fun c => if c = '-' then '_' else c).map Char.toUpper
  (kindNames.find? fun (name, _) => name.toList = normalized).map (·.2)

def optionalKindArg (source : Text) (args : List ParsedArg) (key : String) :
    Parsed (Option NodeKind) :=
  match optionalStringArg args key with
  | none => .ok none
  | some raw =>
    match parseNodeKind raw with
    | some kind => .ok (some kind)
    | none => parseError source ((argOffset args key).getD 0)
        ("Unknown node kind `" ++ String.ofList raw ++ "`")

def rejectUnknownArgs (source : Text) (allowed : List String) : List ParsedArg → Parsed Unit
  | [] => .ok ()
  | arg :: args =>
    match arg.key with
    | none => rejectUnknownArgs source allowed args
    | some key =>
      if (allowed.map String.toList).contains key then rejectUnknownArgs source allowed args
      else parseError source arg.offset ("Unknown `" ++ String.ofList key ++ "` argument")

/-! ## Operations and pipelines -/

/-- What `parse_operation` makes of a name and its arguments. -/
def buildOperation (source : Text) (segmentOffset : Nat) (name : Text) (args : List ParsedArg)
    (argsOffset : Nat) : Parsed GraphQueryOperation :=
  if name = "trail".toList then do
    rejectUnknownArgs source ["symbol", "depth", "direction"] args
    let symbol ← requiredStringArg source args "symbol" 0 argsOffset
    let depth ← optionalU32Arg source args "depth"
    let direction ← optionalDirectionArg source args "direction"
    .ok (.trail symbol depth direction)
  else if name = "symbol".toList then do
    rejectUnknownArgs source ["query"] args
    let query ← requiredStringArg source args "query" 0 argsOffset
    .ok (.symbol query)
  else if name = "search".toList then do
    rejectUnknownArgs source ["query"] args
    let query ← requiredStringArg source args "query" 0 argsOffset
    .ok (.search query)
  else if name = "filter".toList then do
    rejectUnknownArgs source ["kind", "file", "depth"] args
    let kind ← optionalKindArg source args "kind"
    let depth ← optionalU32Arg source args "depth"
    .ok (.filter kind (optionalStringArg args "file") depth)
  else if name = "limit".toList then do
    rejectUnknownArgs source ["n"] args
    let count ← requiredU32Arg source args "n" 0 argsOffset
    .ok (.limit count)
  else parseError source segmentOffset ("Unknown query operation `" ++ String.ofList name ++ "`")

def parseOperation (source segment : Text) (segmentOffset : Nat) : Parsed GraphQueryOperation :=
  match find ['('] segment with
  | none => parseError source (segmentOffset + byteLen segment) "Expected `(` after operation name"
  | some opening =>
    match findLast ')' segment with
    | none => parseError source (segmentOffset + byteLen segment) "Expected closing `)`"
    | some close =>
      if close < opening then
        parseError source (segmentOffset + close + 1) "Unexpected text after operation"
      else do
        let after ← cut (sliceFrom segment (close + 1))
        if Text.trimChars after ≠ [] then
          parseError source (segmentOffset + close + 1) "Unexpected text after operation"
        else
          let name ← cut (sliceTo segment opening)
          let argsSource ← cut (slice segment (opening + 1) close)
          let argsOffset := segmentOffset + opening + 1
          let args ← parseArgs source argsSource argsOffset
          buildOperation source segmentOffset (asciiLower (Text.trimChars name)) args argsOffset

def parseSegments (source : Text) : List (Text × Nat) → Parsed (List GraphQueryOperation)
  | [] => .ok []
  | (segment, offset) :: later => do
    if Text.trimChars segment = [] then
      parseError source offset "Expected query operation after `|`"
    else
      let operation ←
        parseOperation source (Text.trimChars segment) (offset + leadingWs segment)
      let operations ← parseSegments source later
      .ok (operation :: operations)

def parseGraphQuery (source : Text) : Parsed GraphQueryAst := do
  let segments ← splitPipeline source
  let operations ← parseSegments source segments
  if operations = [] then parseError source 0 "Expected at least one query operation"
  else .ok ⟨operations⟩

end CodeStory.Query
