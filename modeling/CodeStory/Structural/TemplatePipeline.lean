import CodeStory.Lib.Intervals
import CodeStory.Lib.Text
import CodeStory.Structural.Blanking

/-!
# Templates as scripts

`template_pipeline.rs`: a Vue, Svelte or Astro component is read as a script of the same length. The
script blocks, the frontmatter of Astro and the braced expressions of Svelte are kept; all else is
overwritten by spaces, line breaks apart. A slice that would panic gives `none`.
-/

set_option autoImplicit false

namespace CodeStory.Structural

open Utf8Text Intervals

inductive TemplateKind where
  | vue
  | svelte
  | astro
  deriving DecidableEq, Repr

abbrev ByteRange := Intervals.Interval Nat

structure StyleBlockRange where
  range : ByteRange
  content : Text
  startLine : Nat
  startCol : Nat
  deriving DecidableEq, Repr

/-- Selects the rules that the script is parsed by. -/
inductive ScriptLanguage where
  | javascript
  | typescript
  deriving DecidableEq, Repr

structure TemplatePrepareResult where
  blanked : Text
  scriptLanguage : ScriptLanguage
  styleBlocks : List StyleBlockRange
  deriving DecidableEq, Repr

/-! ## Script and style blocks -/

/-- Where a block is: its tag, its content, and the end of its closing tag. -/
structure TagBlock where
  start : Nat
  openEnd : Nat
  closeStart : Nat
  closeEnd : Nat

/-- The loop of `collect_script_blocks` and of `collect_style_blocks` over the lowered source. -/
def collectBlocks (openTag closeTag lower : Text) : Nat → Nat → Option (List TagBlock)
  | 0, _ => none
  | fuel + 1, searchFrom => do
    match find openTag (← sliceFrom lower searchFrom) with
    | none => some []
    | some rel =>
      let start := searchFrom + rel
      match find ['>'] (← sliceFrom lower start) with
      | none => some []
      | some openRel =>
        let openEnd := start + openRel + 1
        match find closeTag (← sliceFrom lower openEnd) with
        | none => some []
        | some closeRel =>
          let closeStart := openEnd + closeRel
          let closeEnd := closeStart + byteLen closeTag
          let later ← collectBlocks openTag closeTag lower fuel closeEnd
          some (⟨start, openEnd, closeStart, closeEnd⟩ :: later)

def contains (pattern : String) (t : Text) : Bool := (find pattern.toList t).isSome

def scriptLangFromOpeningTag (openingTag : Text) : Option ScriptLanguage :=
  let lower := openingTag.map Char.toLower
  if contains "lang=\"ts\"" lower || contains "lang='ts'" lower || contains "lang=ts" lower ||
      contains "lang=\"typescript\"" lower || contains "lang='typescript'" lower ||
      contains "lang=typescript" lower then
    some .typescript
  else none

def scriptBlocks (source : Text) : Option (List TagBlock) :=
  let lower := source.map Char.toLower
  collectBlocks "<script".toList "</script>".toList lower (byteLen lower + 1) 0

def styleTags (source : Text) : Option (List TagBlock) :=
  let lower := source.map Char.toLower
  collectBlocks "<style".toList "</style>".toList lower (byteLen lower + 1) 0

/-- The language of the last script whose tag names one. -/
def taggedLanguage (source : Text) : List TagBlock → ScriptLanguage → Option ScriptLanguage
  | [], language => some language
  | block :: later, language => do
    let openingTag ← slice source block.start block.openEnd
    taggedLanguage source later ((scriptLangFromOpeningTag openingTag).getD language)

def collectScriptBlocks (source : Text) (language : ScriptLanguage) :
    Option (List ByteRange × ScriptLanguage) := do
  let blocks ← scriptBlocks source
  let language ← taggedLanguage source blocks language
  some (blocks.map fun block => ⟨block.openEnd, min block.closeStart (byteLen source)⟩, language)

def styleBlock (source : Text) (block : TagBlock) : Option StyleBlockRange := do
  let (startLine, startCol) := byteOffsetLineCol (encode source) block.openEnd
  let content ← slice source block.openEnd block.closeStart
  some ⟨⟨block.start, min block.closeEnd (byteLen source)⟩, content, startLine, startCol⟩

def collectStyleBlocks (source : Text) : Option (List StyleBlockRange) := do
  (← styleTags source).mapM (styleBlock source)

/-! ## Astro -/

def collectAstroFrontmatter (source : Text) (language : ScriptLanguage) :
    Option (List ByteRange × ScriptLanguage) := do
  let trimmed := Text.trimStartChars source
  if ¬ "---".toList <+: trimmed then some ([], language)
  else
    let leading := byteLen source - byteLen trimmed
    let afterOpen := leading + 3
    match find ['\n'] (← sliceFrom source afterOpen) with
    | none => some ([], language)
    | some firstNewline =>
      let contentStart := afterOpen + firstNewline + 1
      match find "\n---".toList (← sliceFrom source contentStart) with
      | none => some ([], language)
      | some closeRel =>
        let closeLineStart := contentStart + closeRel
        let content ← slice source contentStart closeLineStart
        some ([⟨contentStart, closeLineStart⟩],
          if contains "lang=\"ts\"" content || contains "lang='ts'" content then .typescript
          else language)

/-! ## Svelte -/

def openBrace : UInt8 := 123

def closeBrace : UInt8 := 125

def opensString (byte : UInt8) : Bool := byte == 39 || byte == 34 || byte == 96

def escapeByte : UInt8 := 92

/-- The loop of `find_brace_expression_end` from a byte on. Behind a backslash in a string a byte is
passed unread. The depth is a machine integer. -/
def braceScan : List UInt8 → Nat → Bool → Int32 → Option UInt8 → Option Nat
  | [], _, _, _, _ => none
  | _ :: rest, index, true, depth, inString => braceScan rest (index + 1) false depth inString
  | byte :: rest, index, false, depth, some quote =>
    if byte = escapeByte then braceScan rest (index + 1) true depth (some quote)
    else braceScan rest (index + 1) false depth (if byte = quote then none else some quote)
  | byte :: rest, index, false, depth, none =>
    if opensString byte then braceScan rest (index + 1) false depth (some byte)
    else if byte = openBrace then braceScan rest (index + 1) false (depth + 1) none
    else if byte = closeBrace then
      if depth - 1 = 0 then some (index + 1) else braceScan rest (index + 1) false (depth - 1) none
    else braceScan rest (index + 1) false depth none

def findBraceExpressionEnd (bytes : List UInt8) (openIndex : Nat) : Option Nat :=
  if bytes[openIndex]? ≠ some openBrace then none
  else braceScan (bytes.drop openIndex) openIndex false 0 none

def inAnyRange (index : Nat) (ranges : List ByteRange) : Bool := decide (Covers ranges index)

def collectSvelteInlineExpressions (bytes : List UInt8) (scriptRanges : List ByteRange) :
    Nat → Nat → Option (List ByteRange)
  | 0, _ => none
  | fuel + 1, index =>
    if index < bytes.length then
      if inAnyRange index scriptRanges then
        collectSvelteInlineExpressions bytes scriptRanges fuel (index + 1)
      else if bytes[index]? ≠ some openBrace then
        collectSvelteInlineExpressions bytes scriptRanges fuel (index + 1)
      else
        match findBraceExpressionEnd bytes index with
        | some stop =>
          (collectSvelteInlineExpressions bytes scriptRanges fuel stop).map (⟨index, stop⟩ :: ·)
        | none => collectSvelteInlineExpressions bytes scriptRanges fuel (index + 1)
    else some []

/-! ## The script in place -/

/-- One turn over the ranges to keep: `out[start..end].copy_from_slice(&bytes[start..end])` -/
def copyRange (bytes out : List UInt8) (range : ByteRange) : Option (List UInt8) :=
  let start := min range.start bytes.length
  let stop := min range.stop bytes.length
  if stop < start then none
  else some (out.mapIdx fun i byte => if start ≤ i ∧ i < stop then (bytes[i]?).getD byte else byte)

/-- The fallback takes the source where the bytes are no text. -/
def blankSource (source : Text) (keepRanges : List ByteRange) : Option Text := do
  let bytes := encode source
  let out ← keepRanges.foldlM (copyRange bytes) (bytes.map blankByte)
  some ((decode out).getD source)

/-- All that is to be kept, in the order in which it is found. -/
def collectKeepRanges (kind : TemplateKind) (source : Text) :
    Option (List ByteRange × ScriptLanguage) := do
  let (scripts, language) ← collectScriptBlocks source .javascript
  match kind with
  | .vue => some (scripts, language)
  | .astro =>
    let (frontmatter, language) ← collectAstroFrontmatter source language
    some (scripts ++ frontmatter, language)
  | .svelte =>
    let inline ← collectSvelteInlineExpressions (encode source) scripts (byteLen source + 1) 0
    some (scripts ++ inline, language)

def prepareTemplateSource (kind : TemplateKind) (source : Text) : Option TemplatePrepareResult := do
  let (keepRanges, language) ← collectKeepRanges kind source
  let styleBlocks ← collectStyleBlocks source
  let keepRanges := merge (keepRanges.insertionSort (Selection.RankLe Interval.start))
  let blanked ← blankSource source keepRanges
  some ⟨blanked, language, styleBlocks⟩

end CodeStory.Structural
