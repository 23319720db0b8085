import CodeStory.Lib.Fnv
import CodeStory.Structural.SourceLines

/-!
# Entities of SQL sources

`structural/sql.rs` with the pushes of `structural/common.rs`. A slice may fail, which ends the
whole call; so a parser answers `none` for a panic and `some none` where there is nothing. The path
and the map of views are not read by anything, and the component access, the occurrences and the
ids of edges repeat what nodes and edges say; they are left out.
-/

set_option autoImplicit false

namespace CodeStory.Structural

open Utf8Text
open CodeStory.Graph (NodeKind EdgeKind)

def toAsciiUppercase (t : Text) : Text := t.map Char.toUpper

def toAsciiLowercase (t : Text) : Text := t.map Char.toLower

/-! ## Identifiers -/

structure LocatedSqlIdentifier where
  value : Text
  start : Nat
  len : Nat
  deriving DecidableEq, Repr

structure LocatedQualifiedName where
  schema : Text
  name : Text
  start : Nat
  len : Nat
  deriving DecidableEq, Repr

def skipAsciiWhitespace (line : Text) (index : Nat) : Nat :=
  index + (((encode line).drop index).takeWhile isAsciiWhitespace).length

def isQuote (c : Char) : Bool := c == '"' || c == '\'' || c == '`'

def isSqlIdentifierChar (c : Char) : Bool := c.isAlphanum || c == '_' || c == '.'

def locatedSqlIdentifier (line : Text) (index : Nat) : Option (Option LocatedSqlIdentifier) :=
  let start := skipAsciiWhitespace line index
  whenSome (sliceFrom line start) fun rest =>
  whenSome rest.head? fun first =>
    if isQuote first then do
      let innerStart := start + first.utf8Size
      whenSome (find [first] (← sliceFrom line innerStart)) fun offset => do
        let stop := offset + innerStart
        if innerStart < stop then
          return some ⟨← slice line innerStart stop, innerStart, stop - innerStart⟩
        else return none
    else do
      let len := byteLen (rest.takeWhile isSqlIdentifierChar)
      if 0 < len then return some ⟨← sliceTo rest len, start, len⟩ else return none

def takeSqlIdent (text : Text) : Option (Option Text) :=
  (locatedSqlIdentifier text 0).map fun identifier => identifier.map (·.value)

def publicSchema : Text := "public".toList

def splitQualifiedIdent (text : Text) : Option (Option (Text × Text)) := do
  whenSome (← takeSqlIdent text) fun token =>
    match Text.splitOnce '.' token with
    | some (schema, name) => some (some (schema, name))
    | none => some (some (publicSchema, token))

def ifNotExists : Text := "IF NOT EXISTS".toList

def parseQualifiedNameAfterKeyword (line keyword : Text) : Option (Option LocatedQualifiedName) :=
  whenSome (find (toAsciiLowercase keyword) (toAsciiLowercase line)) fun index => do
    let start := skipAsciiWhitespace line (index + byteLen keyword)
    let start := if ifNotExists <+: toAsciiUppercase (← sliceFrom line start) then
        skipAsciiWhitespace line (start + byteLen ifNotExists)
      else start
    whenSome (← locatedSqlIdentifier line start) fun identifier => do
      let qualified ← splitQualifiedIdent identifier.value
      return qualified.map fun (schema, name) => ⟨schema, name, identifier.start, identifier.len⟩

def schemaKeywords : List Text :=
  ["CREATE SCHEMA".toList, "CREATE DATABASE".toList, "SET SEARCH_PATH TO".toList,
    "SET SEARCH_PATH".toList]

def nextIdent (line : Text) : Option (Option LocatedSqlIdentifier) :=
  let trimmedStart := Text.trimStartChars line
  let upper := toAsciiUppercase trimmedStart
  whenSome (schemaKeywords.find? fun keyword => decide (keyword <+: upper)) fun keyword =>
    locatedSqlIdentifier line (byteLen line - byteLen trimmedStart + byteLen keyword)

def nextTokenAfter (line keyword : Text) : Option (Option LocatedSqlIdentifier) :=
  whenSome (find (toAsciiUppercase keyword) (toAsciiUppercase line)) fun index =>
    locatedSqlIdentifier line (index + byteLen keyword)

def createKeyword : Text := "CREATE ".toList

def indexKeyword : Text := "INDEX".toList

def onKeyword : Text := " ON ".toList

def fromKeyword : Text := " FROM ".toList

def parseCreateIndex (line : Text) : Option (Option (Text × Text × LocatedSqlIdentifier)) :=
  let upper := toAsciiUppercase (Text.trimChars line)
  if ¬ createKeyword <+: upper ∨ find " INDEX ".toList upper = none then some none
  else do
    whenSome (← nextTokenAfter line indexKeyword) fun indexName =>
      whenSome (find onKeyword (toAsciiUppercase line)) fun onIndex => do
        let tableRef := Text.trimChars (← sliceFrom line (onIndex + 4))
        let qualified ← splitQualifiedIdent tableRef
        return qualified.map fun (schema, table) => (schema, table, indexName)

def qualifiedKey (schema name : Text) : Text := schema ++ '.' :: name

def parseViewBaseTable (line : Text) : Option (Option Text) :=
  whenSome (find fromKeyword (toAsciiUppercase line)) fun index => do
    let rest := Text.trimChars (← sliceFrom line (index + 6))
    let qualified ← splitQualifiedIdent rest
    return qualified.map fun (schema, name) => qualifiedKey schema name

/-- The `while let` of `referenced_tables` for one keyword, from an offset on. -/
def referencedFrom (line upper defaultSchema keyword : Text) : Nat → Nat → Option (List Text)
  | 0, _ => none
  | fuel + 1, search => do
    match find keyword (← sliceFrom upper search) with
    | none => return []
    | some offset =>
      let index := search + offset + byteLen keyword
      let rest := Text.trimChars (← sliceFrom line index)
      let found := (← splitQualifiedIdent rest).map fun (schema, name) =>
        qualifiedKey (if schema = publicSchema ∧ '.' ∉ rest then defaultSchema else schema) name
      return found.toList ++ (← referencedFrom line upper defaultSchema keyword fuel (index + 1))

def referenceKeywords : List Text :=
  [fromKeyword, " JOIN ".toList, " INTO ".toList, " UPDATE ".toList]

def referencedTables (line defaultSchema : Text) : Option (List Text) := do
  let upper := toAsciiUppercase line
  let tables ← referenceKeywords.mapM fun keyword =>
    referencedFrom line upper defaultSchema keyword (byteLen upper + 1) 0
  return tables.flatten

/-! ## Nodes and edges -/

structure StructuralNode where
  id : Int
  kind : NodeKind
  name : Text
  canonicalId : Text
  span : Option StructuralSourceSpan
  deriving DecidableEq, Repr

structure StructuralEdge where
  source : Int
  target : Int
  kind : EdgeKind
  line : Nat
  deriving DecidableEq, Repr

structure StructuralStorage where
  nodes : List StructuralNode := []
  edges : List StructuralEdge := []
  deriving DecidableEq, Repr

def generateId (name : Text) : Int := (Fnv.mixBytes Fnv.offsetBasis (encode name)).toInt64.toInt

def structuralNodeId (fileId : Int) (canonicalId : Text) (line col : Nat) : Int :=
  generateId ("structural:".toList ++ (toString fileId).toList ++ ':' :: (decimal line ++
    ':' :: (decimal col ++ ':' :: canonicalId)))

def pushStructuralNode (storage : StructuralStorage) (fileId : Int) (kind : NodeKind)
    (name canonicalId : Text) (span : StructuralSourceSpan) : StructuralStorage × Int :=
  let nodeId := structuralNodeId fileId canonicalId span.startLine span.startCol
  ({ storage with nodes := storage.nodes ++ [⟨nodeId, kind, name, canonicalId, some span⟩] },
    nodeId)

def pushSyntheticStructuralNode (storage : StructuralStorage) (fileId : Int) (kind : NodeKind)
    (name canonicalId : Text) : StructuralStorage × Int :=
  let nodeId := structuralNodeId fileId canonicalId 0 0
  ({ storage with nodes := storage.nodes ++ [⟨nodeId, kind, name, canonicalId, none⟩] }, nodeId)

def pushEdge (storage : StructuralStorage) (source target : Int) (kind : EdgeKind) (line : Nat) :
    StructuralStorage :=
  { storage with edges := storage.edges ++ [⟨source, target, kind, line⟩] }

/-! ## Schemas -/

def createSchema : Text := "CREATE SCHEMA ".toList

def createDatabase : Text := "CREATE DATABASE ".toList

def setSearchPath : Text := "SET SEARCH_PATH ".toList

def inferDefaultSchema : List Text → Option Text
  | [] => some publicSchema
  | line :: lines => do
    let upper := toAsciiUppercase (Text.trimChars line)
    if createSchema <+: upper ∨ setSearchPath <+: upper then
      match ← nextIdent line with
      | some name => return name.value
      | none => inferDefaultSchema lines
    else inferDefaultSchema lines

def schemaCanonicalId (schema : Text) : Text := "sql:schema:".toList ++ schema

def defaultSchemaNode (fileId : Int) (storage : StructuralStorage) (schema : Text) :
    StructuralStorage × Int :=
  pushSyntheticStructuralNode storage fileId .namespaceNode schema (schemaCanonicalId schema)

/-- A hash map that is only inserted into and read. -/
abbrev NodeNames := List (Text × Int)

/-- `line_idx as u32 + 1` -/
def lineNumberOf (index : Nat) : Nat := (index % 2 ^ 32 + 1) % 2 ^ 32

def schemaLine (fileId : Int) (state : StructuralStorage × NodeNames) (line : Text × Nat) :
    Option (StructuralStorage × NodeNames) := do
  let lineNumber := lineNumberOf line.2
  if createSchema <+: toAsciiUppercase (Text.trimChars line.1) then
    match ← nextIdent line.1 with
    | some name =>
      let (storage, nodeId) := pushStructuralNode state.1 fileId .namespaceNode name.value
        (schemaCanonicalId name.value) (.token lineNumber name.start name.len)
      return (pushEdge storage fileId nodeId .memberEdge lineNumber,
        (name.value, nodeId) :: state.2)
    | none => return state
  else return state

def collectSchemas (lines : List Text) (fileId : Int) (storage : StructuralStorage)
    (defaultSchema : Text) : Option (StructuralStorage × NodeNames) :=
  let (storage, nodeId) := defaultSchemaNode fileId storage defaultSchema
  lines.zipIdx.foldlM (schemaLine fileId) (storage, [(defaultSchema, nodeId)])

/-! ## Tables, views, indexes and routines -/

def columnCanonicalId (schema table column : Text) : Text :=
  "sql:column:".toList ++ (schema ++ '.' :: (table ++ '.' :: column))

def inlineColumn (line : Text) (fileId : Int) (schema table : Text) (tableId : Int)
    (lineNumber bodyStart : Nat) (state : StructuralStorage × Nat) (rawPart : Text) :
    Option (StructuralStorage × Nat) := do
  let (storage, partStart) := state
  let nextStart := partStart + byteLen rawPart + 1
  match ← locatedSqlIdentifier line (bodyStart + partStart) with
  | none => return (storage, nextStart)
  | some identifier =>
    if toAsciiLowercase identifier.value = "constraint".toList then return (storage, nextStart)
    else
      let (storage, nodeId) := pushStructuralNode storage fileId .fieldNode identifier.value
        (columnCanonicalId schema table identifier.value)
        (.token lineNumber identifier.start identifier.len)
      return (pushEdge storage tableId nodeId .memberEdge lineNumber, nextStart)

def collectInlineColumns (line : Text) (fileId : Int) (storage : StructuralStorage)
    (schema table : Text) (tableId : Int) (lineNumber : Nat) : Option StructuralStorage :=
  match find ['('] line, findLast ')' line with
  | some start, some stop => do
    let bodyStart := start + 1
    let body ← slice line bodyStart stop
    let (storage, _) ← (body.splitOn ',').foldlM
      (inlineColumn line fileId schema table tableId lineNumber bodyStart) (storage, 0)
    return storage
  | _, _ => some storage

structure SqlState where
  storage : StructuralStorage
  tables : NodeNames
  deriving DecidableEq, Repr

/-- The node of a table, a view or a routine, below the node of its schema. -/
def pushQualified (fileId : Int) (schemaNodes : NodeNames) (storage : StructuralStorage)
    (kind : NodeKind) (role : Text) (object : LocatedQualifiedName) (lineNumber : Nat) :
    StructuralStorage × Int :=
  let (storage, schemaId) := match schemaNodes.lookup object.schema with
    | some schemaId => (storage, schemaId)
    | none => defaultSchemaNode fileId storage object.schema
  let key := qualifiedKey object.schema object.name
  let (storage, nodeId) := pushStructuralNode storage fileId kind key (role ++ key)
    (.token lineNumber object.start object.len)
  (pushEdge storage schemaId nodeId .memberEdge lineNumber, nodeId)

def tableLine (fileId : Int) (schemaNodes : NodeNames) (state : SqlState)
    (object : LocatedQualifiedName) (lineNumber : Nat) (line : Text) : Option SqlState := do
  let (storage, nodeId) := pushQualified fileId schemaNodes state.storage .classNode
    "sql:table:".toList object lineNumber
  let storage ← collectInlineColumns line fileId storage object.schema object.name nodeId lineNumber
  return ⟨storage, (qualifiedKey object.schema object.name, nodeId) :: state.tables⟩

def viewLine (fileId : Int) (schemaNodes : NodeNames) (state : SqlState)
    (object : LocatedQualifiedName) (lineNumber : Nat) (line : Text) : Option SqlState := do
  let (storage, nodeId) := pushQualified fileId schemaNodes state.storage .classNode
    "sql:view:".toList object lineNumber
  match (← parseViewBaseTable line).bind (state.tables.lookup ·) with
  | some baseId =>
    return { state with storage := pushEdge storage nodeId baseId .typeUsageEdge lineNumber }
  | none => return { state with storage := storage }

def indexLine (fileId : Int) (state : SqlState) (schema table : Text)
    (indexName : LocatedSqlIdentifier) (lineNumber : Nat) : SqlState :=
  match state.tables.lookup (qualifiedKey schema table) with
  | none => state
  | some tableId =>
    let (storage, nodeId) := pushStructuralNode state.storage fileId .annotationNode indexName.value
      ("sql:index:".toList ++ (qualifiedKey schema table ++ '.' :: indexName.value))
      (.token lineNumber indexName.start indexName.len)
    { state with storage := pushEdge storage nodeId tableId .annotationUsageEdge lineNumber }

def pushUsages (state : SqlState) (nodeId : Int) (lineNumber : Nat) (storage : StructuralStorage)
    (keys : List Text) : StructuralStorage :=
  keys.foldl (fun storage key =>
    match state.tables.lookup key with
    | some tableId => pushEdge storage nodeId tableId .usageEdge lineNumber
    | none => storage) storage

def routineLine (fileId : Int) (schemaNodes : NodeNames) (state : SqlState)
    (object : LocatedQualifiedName) (lineNumber : Nat) (line : Text) : Option SqlState := do
  let (storage, nodeId) := pushQualified fileId schemaNodes state.storage .functionNode
    "sql:func:".toList object lineNumber
  let keys ← referencedTables line object.schema
  return { state with storage := pushUsages state nodeId lineNumber storage keys }

def createTable : Text := "CREATE TABLE".toList

def createView : Text := "CREATE VIEW".toList

def createFunction : Text := "CREATE FUNCTION".toList

def createProcedure : Text := "CREATE PROCEDURE".toList

def parseRoutine (line : Text) : Option (Option LocatedQualifiedName) := do
  match ← parseQualifiedNameAfterKeyword line createFunction with
  | some object => return some object
  | none => parseQualifiedNameAfterKeyword line createProcedure

def sqlLine (fileId : Int) (schemaNodes : NodeNames) (state : SqlState) (line : Text × Nat) :
    Option SqlState := do
  let (lineText, index) := line
  let lineNumber := lineNumberOf index
  let upper := toAsciiUppercase (Text.trimChars lineText)
  if createSchema <+: upper ∨ createDatabase <+: upper then return state
  match ← parseQualifiedNameAfterKeyword lineText createTable with
  | some object => tableLine fileId schemaNodes state object lineNumber lineText
  | none =>
  match ← parseQualifiedNameAfterKeyword lineText createView with
  | some object => viewLine fileId schemaNodes state object lineNumber lineText
  | none =>
  match ← parseCreateIndex lineText with
  | some (schema, table, indexName) =>
    return indexLine fileId state schema table indexName lineNumber
  | none =>
  match ← parseRoutine lineText with
  | some object => routineLine fileId schemaNodes state object lineNumber lineText
  | none => return state

def collectSqlEntities (source : Text) (fileId : Int) (storage : StructuralStorage) :
    Option StructuralStorage := do
  let lines := sourceLines source
  let defaultSchema ← inferDefaultSchema lines
  let (storage, schemaNodes) ← collectSchemas lines fileId storage defaultSchema
  let state ← lines.zipIdx.foldlM (sqlLine fileId schemaNodes) ⟨storage, []⟩
  return state.storage

end CodeStory.Structural
