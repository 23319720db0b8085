import CodeStory.Lib.ByteMask
import CodeStory.Structural.GenericLines

/-!
# Shell and PowerShell anchors

The maskers of `structural/generic.rs`, which overwrite what is not code byte by byte, the anchors
of a line and the loops over lines. Quotes, arithmetic, block comments and here-documents go on from
line to line.
-/

set_option autoImplicit false

namespace CodeStory.Structural

open Utf8Text ByteMask
open CodeStory.Graph (NodeKind)

/-- `String::from_utf8(masked).expect(..)` -/
def expectUtf8 {σ : Type} (masked : List UInt8 × σ) : Option (Text × σ) :=
  (decode masked.1).map fun text => (text, masked.2)

/-! ## Shell -/

def singleQuote : UInt8 := 39

def doubleQuote : UInt8 := 34

def backslashByte : UInt8 := 92

def openParen : UInt8 := 40

def closeParen : UInt8 := 41

inductive ShellQuote where
  | single
  | double
  deriving DecidableEq, Repr

structure ShellLexicalState where
  quote : Option ShellQuote := none
  arithmeticParenDepth : Nat := 0
  deriving DecidableEq, Repr

/-- A terminator, and whether tabs before it are stripped. -/
abbrev Heredoc := Text × Bool

/-- The end of what a backslash escapes. -/
def maskShellEscape (line : Text) (cursor : Nat) : Option Nat :=
  (sliceFrom line (cursor + 1)).map fun rest =>
    match rest with
    | [] => byteLen line
    | escaped :: _ => cursor + 1 + escaped.utf8Size

def isDelimiterQuote (byte : UInt8) : Bool := byte == singleQuote || byte == doubleQuote

/-- The ends of a delimiter without quotes: blanks and `;`, `|`, `&`, `<`, `>`. -/
def isDelimiterEnd (byte : UInt8) : Bool :=
  isAsciiWhitespace byte || byte == 59 || byte == 124 || byte == 38 || byte == 60 || byte == 62

def delimiterEnds : Option UInt8 → UInt8 → Bool
  | some quote, byte => byte == quote
  | none, byte => isDelimiterEnd byte

/-- The delimiter that begins at an offset: where the scan goes on, and the here-document. -/
def heredocTerminator (line : Text) (stripTabs : Bool) (delimiterQuote : Option UInt8)
    (start : Nat) : Option (Nat × List Heredoc) := do
  let bytes := encode line
  let stop := start +
    ((bytes.drop start).takeWhile fun byte => !delimiterEnds delimiterQuote byte).length
  let heredocs ← if start < stop then
      (slice line start stop).map fun terminator => [(terminator, stripTabs)]
    else some []
  let next := if delimiterQuote.isSome ∧ bytes[stop]? = delimiterQuote then stop + 1 else stop
  return (next, heredocs)

/-- What stands behind `<<`. -/
def shellHeredoc (line : Text) (cursor : Nat) : Option (Nat × List Heredoc) :=
  let bytes := encode line
  let stripTabs := bytes[cursor]? == some 45
  let cursor := if stripTabs then cursor + 1 else cursor
  let cursor := cursor + ((bytes.drop cursor).takeWhile isAsciiWhitespace).length
  let delimiterQuote := bytes[cursor]?.filter isDelimiterQuote
  let start := if delimiterQuote.isSome then cursor + 1 else cursor
  heredocTerminator line stripTabs delimiterQuote start

/-- What the loop over a line carries: the lexical state and the here-documents so far. -/
abbrev ShellScan := ShellLexicalState × List Heredoc

def quotedTurn (line : Text) (scan : ShellScan) (quote : ShellQuote) (cursor : Nat)
    (byte : UInt8) : Option (Turn ShellScan) :=
  match quote with
  | .single =>
    some ⟨cursor + 1, true,
      if byte = singleQuote then ({ scan.1 with quote := none }, scan.2) else scan⟩
  | .double =>
    if byte = backslashByte then
      (maskShellEscape line cursor).map fun next => ⟨next, true, scan⟩
    else
      some ⟨cursor + 1, true,
        if byte = doubleQuote then ({ scan.1 with quote := none }, scan.2) else scan⟩

def arithmeticTurn (line : Text) (scan : ShellScan) (cursor : Nat) (byte : UInt8) :
    Option (Turn ShellScan) :=
  if byte = backslashByte then (maskShellEscape line cursor).map fun next => ⟨next, true, scan⟩
  else
    let depth := scan.1.arithmeticParenDepth
    let state :=
      if byte = singleQuote then { scan.1 with quote := some .single }
      else if byte = doubleQuote then { scan.1 with quote := some .double }
      else if byte = openParen then { scan.1 with arithmeticParenDepth := depth + 1 }
      else if byte = closeParen then { scan.1 with arithmeticParenDepth := depth - 1 }
      else scan.1
    some ⟨cursor + 1, true, (state, scan.2)⟩

/-- The length of `$((` or `((`. -/
def arithmeticOpenerLen (rest : List UInt8) : Option Nat :=
  if [36, openParen, openParen] <+: rest then some 3
  else if [openParen, openParen] <+: rest then some 2 else none

def codeTurn (line : Text) (scan : ShellScan) (cursor : Nat) (byte : UInt8) :
    Option (Turn ShellScan) :=
  let rest := (encode line).drop cursor
  if byte = hash then some ⟨byteLen line, true, scan⟩
  else if byte = backslashByte then
    (maskShellEscape line cursor).map fun next => ⟨next, true, scan⟩
  else if byte = singleQuote then
    some ⟨cursor + 1, true, ({ scan.1 with quote := some .single }, scan.2)⟩
  else if byte = doubleQuote then
    some ⟨cursor + 1, true, ({ scan.1 with quote := some .double }, scan.2)⟩
  else
    match arithmeticOpenerLen rest with
    | some openerLen =>
      some ⟨cursor + openerLen, true, ({ scan.1 with arithmeticParenDepth := 2 }, scan.2)⟩
    | none =>
      if [60, 60, 60] <+: rest then some ⟨cursor + 3, false, scan⟩
      else if ¬ [60, 60] <+: rest then some ⟨cursor + 1, false, scan⟩
      else (shellHeredoc line (cursor + 2)).map fun (next, heredocs) =>
        ⟨next, false, (scan.1, scan.2 ++ heredocs)⟩

def shellTurn (line : Text) (scan : ShellScan) (cursor : Nat) : Option (Turn ShellScan) :=
  ((encode line)[cursor]?).bind fun byte =>
    match scan.1.quote with
    | some quote => quotedTurn line scan quote cursor byte
    | none =>
      if 0 < scan.1.arithmeticParenDepth then arithmeticTurn line scan cursor byte
      else codeTurn line scan cursor byte

/-- The masked line, the lexical state behind it and the here-documents it announces. -/
def analyzeShellLine (line : Text) (state : ShellLexicalState) :
    Option (Text × ShellLexicalState × List Heredoc) :=
  (maskLoop (shellTurn line) (byteLen line) (byteLen line) 0 (state, []) (encode line)).bind
    expectUtf8

/-! ## PowerShell -/

structure PowerShellScan where
  depth : Nat
  quote : Option UInt8 := none
  escaped : Bool := false
  deriving DecidableEq, Repr

def blockCommentTurn (line : Text) (scan : PowerShellScan) (cursor : Nat) : Turn PowerShellScan :=
  let rest := (encode line).drop cursor
  if [60, hash] <+: rest then ⟨cursor + 2, true, { scan with depth := scan.depth + 1 }⟩
  else if [hash, 62] <+: rest then ⟨cursor + 2, true, { scan with depth := scan.depth - 1 }⟩
  else ⟨cursor + 1, true, scan⟩

def powershellTurn (line : Text) (scan : PowerShellScan) (cursor : Nat) :
    Option (Turn PowerShellScan) :=
  ((encode line)[cursor]?).map fun byte =>
    if 0 < scan.depth then blockCommentTurn line scan cursor
    else
      match scan.quote with
      | some activeQuote =>
        ⟨cursor + 1, false,
          if scan.escaped then { scan with escaped := false }
          else if byte = backtick then { scan with escaped := true }
          else if byte = activeQuote then { scan with quote := none }
          else scan⟩
      | none =>
        if isDelimiterQuote byte then ⟨cursor + 1, false, { scan with quote := some byte }⟩
        else if [60, hash] <+: (encode line).drop cursor then
          ⟨cursor + 2, true, { scan with depth := 1 }⟩
        else ⟨cursor + 1, false, scan⟩

def maskPowershellBlockComments (line : Text) (depth : Nat) : Option (Text × Nat) :=
  ((maskLoop (powershellTurn line) (byteLen line) (byteLen line) 0 ⟨depth, none, false⟩
    (encode line)).bind expectUtf8).map fun (masked, scan) => (masked, scan.depth)

def stripCommentFrom (comment : Char) (before : Text) (quote : Option Char) (escaped : Bool) :
    Text → Text
  | [] => before
  | c :: rest =>
    match quote with
    | some active =>
      if escaped then stripCommentFrom comment (before ++ [c]) quote false rest
      else if c = '\\' then stripCommentFrom comment (before ++ [c]) quote true rest
      else if c = active then stripCommentFrom comment (before ++ [c]) none false rest
      else stripCommentFrom comment (before ++ [c]) quote false rest
    | none =>
      if isQuoteMark c then stripCommentFrom comment (before ++ [c]) (some c) false rest
      else if c = comment then before
      else stripCommentFrom comment (before ++ [c]) none false rest

def stripScriptComment (line : Text) : Text := stripCommentFrom '#' [] none false line

/-! ## Anchors of a line -/

def isScriptIdentifierChar (c : Char) : Bool :=
  c.isAlphanum || c == '_' || c == '-' || c == ':' || c == '.' || c == '/'

def isScriptIdentifier (value : Text) : Bool :=
  value.head?.any (fun c => c == '_' || c.isAlpha) && value.all isScriptIdentifierChar

def scriptIdentifier (value : Text) : Option Text :=
  let identifier := value.takeWhile isScriptIdentifierChar
  if isScriptIdentifier identifier then some identifier else none

/-- `split_ascii_whitespace().next()` -/
def firstWord (t : Text) : Option Text :=
  let word := (t.dropWhile isAsciiBlank).takeWhile fun c => !isAsciiBlank c
  if word = [] then none else some word

def shellFunctionKeyword : Text := "function ".toList

/-- A function name at an offset of the masked text, read from the original. -/
def shellFunction (masked original name : Text) : Option Parsed := do
  let offset ← find name masked
  let label ← slice original offset (offset + byteLen name)
  return ⟨.functionNode, "function", label, offset, byteLen name⟩

def shellImportKeywords : List Text := ["source ".toList, ". ".toList, "autoload ".toList]

def shellImport (original keyword : Text) : Option Parsed := do
  let raw ← firstWord (← sliceFrom original (byteLen keyword))
  let label := unquoteLabel raw
  if label = [] then none
  else
    let offset ← find raw original
    return ⟨.annotationNode, "import", label, offset, byteLen raw⟩

def shellImportAnchor (masked original : Text) : Option Parsed :=
  (shellImportKeywords.find? fun keyword => keyword.isPrefixOf masked).bind (shellImport original)

/-- The name in front of `()`. -/
def shellParenName (masked : Text) : Option (Option Text) :=
  match find "()".toList masked with
  | none => some none
  | some paren => (sliceTo masked paren).map fun front =>
    let raw := Text.trimChars front
    if isScriptIdentifier raw then some raw else none

def shellAnchor (masked original : Text) : Option (Option Parsed) :=
  match Text.stripPrefix shellFunctionKeyword masked with
  | some rest => some ((scriptIdentifier rest).bind (shellFunction masked original))
  | none => (shellParenName masked).map fun name =>
    match name with
    | some raw => shellFunction masked original raw
    | none => shellImportAnchor masked original

def powershellKeywords : List Text := ["function ".toList, "filter ".toList, "workflow ".toList]

def importModule : Text := "import-module ".toList

def dotKeyword : Text := ". ".toList

def powershellImport (line rest : Text) : Option Parsed := do
  let raw ← firstWord rest
  let offset ← find raw line
  return ⟨.annotationNode, "import", unquoteLabel raw, offset, byteLen raw⟩

def powershellAnchor (line : Text) : Option (Option Parsed) :=
  let lower := line.map Char.toLower
  match powershellKeywords.find? fun keyword => keyword.isPrefixOf lower with
  | some keyword => do
    let originalRest ← sliceFrom line (byteLen line - byteLen (lower.drop keyword.length))
    return (do
      let name ← scriptIdentifier originalRest
      let offset ← find name line
      return ⟨.functionNode, "function", name, offset, byteLen name⟩)
  | none =>
    if importModule.isPrefixOf lower then do
      let rest ← sliceFrom line (byteLen importModule)
      return powershellImport line rest
    else some ((Text.stripPrefix dotKeyword line).bind (powershellImport line))

/-! ## Lines -/

structure ShellState where
  heredocs : List Heredoc := []
  lexical : ShellLexicalState := {}
  deriving DecidableEq, Repr

def shellLine (state : ShellState) (line : Text) : Option (ShellState × Option Parsed) :=
  match state.heredocs with
  | (terminator, stripTabs) :: heredocs =>
    let candidate := if stripTabs then line.dropWhile fun c => c == '\t' else line
    some
      (if trimEndChars candidate = terminator then { state with heredocs := heredocs } else state,
        none)
  | [] => do
    let (masked, lexical, heredocs) ← analyzeShellLine line state.lexical
    let trimmed := Text.trimStartChars masked
    if trimmed = [] then return (⟨heredocs, lexical⟩, none)
    let indent := byteLen masked - byteLen trimmed
    let found ← shellAnchor trimmed (← sliceFrom line indent)
    return (⟨heredocs, lexical⟩, found.map fun p => { p with offset := indent + p.offset })

def powershellLine (depth : Nat) (line : Text) : Option (Nat × Option Parsed) := do
  let (masked, depth) ← maskPowershellBlockComments line depth
  let code := stripScriptComment masked
  let trimmed := Text.trimStartChars code
  if trimmed = [] then return (depth, none)
  let indent := byteLen code - byteLen trimmed
  let found ← powershellAnchor trimmed
  return (depth, found.map fun p => { p with offset := indent + p.offset })

def collectShellEntities (path source : Text) (storage : List Anchor) : Option (List Anchor) :=
  collectLines shellLine path (sourceLines source).zipIdx {} 0 storage

def collectPowershellEntities (path source : Text) (storage : List Anchor) :
    Option (List Anchor) :=
  collectLines powershellLine path (sourceLines source).zipIdx 0 0 storage

end CodeStory.Structural
