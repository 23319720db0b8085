import CodeStory.Structural.SqlSpans

/-!
# Spans of SQL entities

The collector goes through a source unless a line of it gets it stuck: a table whose last `)` is
before its first `(`, or a routine in which the search for references meets an edge. Then the span
of every node is the place of the identifier the node is named from.
-/

set_option autoImplicit false

namespace CodeStory.Structural

open Utf8Text
open CodeStory.Graph (NodeKind EdgeKind)

/-! ## Folds that may fail -/

section Folds

variable {α β : Type} {f : β → α → Option β} {l : List α} {s s' : β}

theorem foldlM_eq_none (stuck : α → Prop) (h : ∀ x ∈ l, ∀ s, f s x = none ↔ stuck x) :
    l.foldlM f s = none ↔ ∃ x ∈ l, stuck x := by
  induction l generalizing s with
  | nil => exact iff_of_false (fun h => nomatch h) (by simp)
  | cons x l ih =>
    have ih := fun s => ih (s := s) fun y hy => h y (List.mem_cons_of_mem _ hy)
    have hx := h x List.mem_cons_self s
    simp only [List.mem_cons, exists_eq_or_imp]
    rw [List.foldlM_cons, ← hx]
    cases hstep : f s x with
    | none => exact iff_of_true rfl (Or.inl rfl)
    | some next =>
      rw [Option.bind_eq_bind, Option.bind_some, ih]
      simp

theorem foldlM_related {R : β → β → Prop} (hrefl : ∀ s, R s s)
    (htrans : ∀ a b c, R a b → R b c → R a c)
    (h : ∀ x ∈ l, ∀ s s', f s x = some s' → R s s') (hfold : l.foldlM f s = some s') :
    R s s' := by
  induction l generalizing s with
  | nil =>
    cases hfold
    exact hrefl _
  | cons x l ih =>
    rw [List.foldlM_cons] at hfold
    obtain ⟨next, hstep, hrest⟩ := Option.bind_eq_some_iff.mp hfold
    have hfirst := h x List.mem_cons_self s next hstep
    exact htrans s next s' hfirst (ih (fun y hy => h y (List.mem_cons_of_mem _ hy)) hrest)

end Folds

/-! ## Exact nodes -/

/-- How a node is named from the identifier it covers. -/
def NamedFrom (kind : NodeKind) (value name : Text) : Prop :=
  if kind = .classNode ∨ kind = .functionNode then
    ∃ part, FirstIdentifier value part ∧ name = withSchema part
  else name = value

/-- The span is on one line, inside of it, and covers the identifier the node is named from. -/
def ExactSpan (lines : List Text) (node : StructuralNode) (span : StructuralSourceSpan) : Prop :=
  ∃ index line value, lines[index]? = some line ∧
    span.startLine = index + 1 ∧ span.endLine = index + 1 ∧
    0 < span.startCol ∧ span.startCol ≤ span.endCol ∧ span.endCol ≤ byteLen line ∧
    slice line (span.startCol - 1) span.endCol = some value ∧
    Locates line value (span.startCol - 1) ∧ NamedFrom node.kind value node.name

def ExactNode (lines : List Text) (node : StructuralNode) : Prop :=
  ∀ span, node.span = some span → ExactSpan lines node span

/-- New nodes stand behind the earlier ones, and each is exact. -/
def Extends (lines : List Text) (storage storage' : StructuralStorage) : Prop :=
  ∃ new, storage'.nodes = storage.nodes ++ new ∧ ∀ node ∈ new, ExactNode lines node

section Storage

variable {lines : List Text} {storage storage' storage'' : StructuralStorage} {line value : Text}
  {index start : Nat} {kind : NodeKind} {name canonicalId : Text} {fileId : Int}

theorem Extends.refl (storage : StructuralStorage) : Extends lines storage storage :=
  ⟨[], (List.append_nil _).symm, fun _ h => absurd h List.not_mem_nil⟩

theorem Extends.trans (h : Extends lines storage storage') (h' : Extends lines storage' storage'') :
    Extends lines storage storage'' := by
  obtain ⟨new, hnodes, hnew⟩ := h
  obtain ⟨new', hnodes', hnew'⟩ := h'
  refine ⟨new ++ new', ?_, ?_⟩
  · rw [hnodes', hnodes, List.append_assoc]
  · intro node hnode
    rcases List.mem_append.mp hnode with hnode | hnode
    · exact hnew node hnode
    · exact hnew' node hnode

theorem Extends.pushEdge (h : Extends lines storage storage') (source target : Int)
    (kind : EdgeKind) (line : Nat) :
    Extends lines storage (pushEdge storage' source target kind line) := h

theorem extends_synthetic (fileId : Int) (storage : StructuralStorage) (schema : Text) :
    Extends lines storage (defaultSchemaNode fileId storage schema).1 := by
  refine ⟨_, rfl, ?_⟩
  intro node hnode span hspan
  rw [List.mem_singleton] at hnode
  rw [hnode] at hspan
  cases hspan

theorem lineNumberOf_eq (hsmall : Small lines) (hline : lines[index]? = some line) :
    lineNumberOf index = index + 1 := by
  have hlt : index < lines.length := (List.getElem?_eq_some_iff.mp hline).1
  have hcount := hsmall.lineCount
  unfold maxStructuralSourceBytes at hcount
  unfold lineNumberOf
  omega

/-- A node with the span of the identifier that it is named from. -/
theorem extends_node (hsmall : Small lines) (hline : lines[index]? = some line)
    (hlocates : Locates line value start) (hname : NamedFrom kind value name) :
    Extends lines storage (pushStructuralNode storage fileId kind name canonicalId
      (.token (lineNumberOf index) start (byteLen value))).1 := by
  have hbytes := hsmall.lineBytes line (List.mem_of_getElem? hline)
  have hle := hlocates.le
  have hpos : byteLen value ≠ 0 := fun h => hlocates.ne_nil (byteLen_eq_zero.mp h)
  have hstart : clampU32 (start + 1) = start + 1 := clampU32_eq (by omega)
  have hstop : clampU32 (start + byteLen value) = start + byteLen value := clampU32_eq (by omega)
  refine ⟨_, rfl, ?_⟩
  intro node hnode span hspan
  rw [List.mem_singleton] at hnode
  rw [hnode] at hspan
  cases hspan
  refine ⟨index, line, value, hline, ?_⟩
  rw [hnode]
  unfold StructuralSourceSpan.token
  dsimp only
  rw [hstart, hstop, Nat.add_sub_cancel, lineNumberOf_eq hsmall hline]
  exact ⟨rfl, rfl, by omega, by omega, by omega, hlocates.slice, hlocates, hname⟩

end Storage

/-! ## Columns -/

/-- The last `)` is before the first `(`. -/
def ReversedParens (line : Text) : Prop :=
  ∃ a b c, line = a ++ ')' :: (b ++ '(' :: c) ∧ '(' ∉ a ∧ '(' ∉ b ∧ ')' ∉ b ∧ ')' ∉ c

section Columns

variable {lines : List Text} {line schema table : Text} {index lineNumber bodyStart : Nat}
  {fileId tableId : Int} {storage storage' : StructuralStorage}

theorem reversedParens_iff :
    ReversedParens line ↔ ∃ start stop, find ['('] line = some start ∧
      findLast ')' line = some stop ∧ stop < start := by
  constructor
  · intro h
    obtain ⟨a, b, c, rfl, ha, hb, hclose, hc⟩ := h
    refine ⟨byteLen (a ++ ')' :: b), byteLen a, ?_, ?_, ?_⟩
    · have hwhole : a ++ ')' :: (b ++ '(' :: c) = (a ++ ')' :: b) ++ '(' :: c := by simp
      rw [hwhole]
      apply find_append
      intro hmem
      rcases List.mem_append.mp hmem with hmem | hmem
      · exact ha hmem
      · rcases List.mem_cons.mp hmem with heq | hmem
        · cases heq
        · exact hb hmem
    · apply findLast_append
      intro hmem
      rcases List.mem_append.mp hmem with hmem | hmem
      · exact hclose hmem
      · rcases List.mem_cons.mp hmem with heq | hmem
        · cases heq
        · exact hc hmem
    · have hpos := (')' : Char).utf8Size_pos
      rw [byteLen_append, byteLen_cons]
      omega
  · intro h
    obtain ⟨start, stop, hfind, hlast, hlt⟩ := h
    obtain ⟨before, behind, hline, rfl, hleast⟩ := find_eq_some hfind
    obtain ⟨front, back, hline', rfl, hback⟩ := findLast_eq_some hlast
    have hbefore : '(' ∉ before := by
      intro hmem
      obtain ⟨a, b, rfl⟩ := List.append_of_mem hmem
      have hle := hleast a (b ++ (['('] ++ behind)) (by rw [hline]; simp)
      have hpos := ('(' : Char).utf8Size_pos
      rw [byteLen_append, byteLen_cons] at hle
      omega
    rcases List.append_eq_append_iff.mp (hline.symm.trans hline') with
      ⟨middle, rfl, _⟩ | ⟨middle, rfl, hmiddle⟩
    · rw [byteLen_append] at hlt
      omega
    · cases middle with
      | nil => cases hmiddle
      | cons c middle =>
        obtain ⟨rfl, rfl⟩ := List.cons.inj hmiddle
        refine ⟨front, middle, behind, hline', ?_, ?_, ?_, ?_⟩
        · exact fun h => hbefore (List.mem_append_left _ h)
        · exact fun h => hbefore (List.mem_append_right _ (List.mem_cons_of_mem _ h))
        · exact fun h => hback (List.mem_append_left _ h)
        · exact fun h => hback (List.mem_append_right _ (List.mem_cons_of_mem _ h))

theorem inlineColumn_ne_none (state : StructuralStorage × Nat) (rawPart : Text) :
    inlineColumn line fileId schema table tableId lineNumber bodyStart state rawPart ≠ none := by
  obtain ⟨answer, hanswer⟩ := locatedSqlIdentifier_total line (bodyStart + state.2)
  unfold inlineColumn
  dsimp only
  rw [hanswer, Option.bind_eq_bind, Option.bind_some]
  cases answer with
  | none => exact Option.some_ne_none _
  | some identifier =>
    dsimp only
    split
    · exact Option.some_ne_none _
    · exact Option.some_ne_none _

theorem inlineColumn_extends (hsmall : Small lines) (hline : lines[index]? = some line)
    {state state' : StructuralStorage × Nat} {rawPart : Text}
    (h : inlineColumn line fileId schema table tableId (lineNumberOf index) bodyStart state
      rawPart =
      some state') : Extends lines state.1 state'.1 := by
  obtain ⟨answer, hanswer⟩ := locatedSqlIdentifier_total line (bodyStart + state.2)
  unfold inlineColumn at h
  dsimp only at h
  rw [hanswer, Option.bind_eq_bind, Option.bind_some] at h
  cases answer with
  | none =>
    cases h
    exact Extends.refl _
  | some identifier =>
    dsimp only at h
    split at h
    · cases h
      exact Extends.refl _
    · cases h
      obtain ⟨hlocates, hlen⟩ := locatedSqlIdentifier_sound hanswer
      apply Extends.pushEdge
      rw [hlen]
      exact extends_node hsmall hline hlocates rfl

theorem collectInlineColumns_eq_none :
    collectInlineColumns line fileId storage schema table tableId lineNumber = none ↔
      ReversedParens line := by
  rw [reversedParens_iff]
  unfold collectInlineColumns
  cases hfind : find ['('] line with
  | none => simp
  | some start =>
    cases hlast : findLast ')' line with
    | none => simp
    | some stop =>
      have hbound : IsBoundary line (start + 1) := isBoundary_of_find hfind
      obtain ⟨front, back, hwhole, hfront, -⟩ := findLast_eq_some hlast
      have hstop : IsBoundary line stop := ⟨front, _, hwhole, hfront⟩
      have hne : start ≠ stop := by
        rintro rfl
        obtain ⟨before, behind, hline, hbefore, -⟩ := find_eq_some hfind
        have hsame := (append_inj (hline.symm.trans hwhole) (hbefore.trans hfront.symm)).2
        cases hsame
      dsimp only
      by_cases hlt : stop < start
      · refine iff_of_true ?_ ⟨start, stop, rfl, rfl, hlt⟩
        have hslice : slice line (start + 1) stop = none := if_pos (by omega)
        rw [hslice]
        rfl
      · refine iff_of_false ?_ ?_
        · obtain ⟨body, hbody⟩ :=
            Option.isSome_iff_exists.mp (slice_isSome hbound hstop (by omega))
          rw [hbody, Option.bind_eq_bind, Option.bind_some]
          intro hnone
          have hfold : (body.splitOn ',').foldlM (inlineColumn line fileId schema table tableId
              lineNumber (start + 1)) (storage, 0) = none := by
            cases hfold : (body.splitOn ',').foldlM (inlineColumn line fileId schema table tableId
              lineNumber (start + 1)) (storage, 0) with
            | none => rfl
            | some state =>
              rw [hfold] at hnone
              cases hnone
          obtain ⟨part, _, hpart⟩ := (foldlM_eq_none (fun _ => False) fun part _ state =>
            iff_of_false (inlineColumn_ne_none state part) id).mp hfold
          exact hpart
        · intro h
          obtain ⟨start', stop', hstart', hstop', hlt'⟩ := h
          cases hstart'
          cases hstop'
          exact hlt hlt'

theorem collectInlineColumns_extends (hsmall : Small lines) (hline : lines[index]? = some line)
    (h : collectInlineColumns line fileId storage schema table tableId (lineNumberOf index) =
      some storage') : Extends lines storage storage' := by
  unfold collectInlineColumns at h
  split at h
  · obtain ⟨body, _, hbody⟩ := Option.bind_eq_some_iff.mp h
    obtain ⟨state, hfold, hstate⟩ := Option.bind_eq_some_iff.mp hbody
    cases hstate
    exact foldlM_related (R := fun a b => Extends lines a.1 b.1) (fun _ => Extends.refl _)
      (fun _ _ _ => Extends.trans) (fun part _ _ _ => inlineColumn_extends hsmall hline) hfold
  · cases h
    exact Extends.refl _

end Columns

/-! ## Lines -/

def IsSchemaLine (line : Text) : Prop :=
  createSchema <+: toAsciiUppercase (Text.trimChars line) ∨
    createDatabase <+: toAsciiUppercase (Text.trimChars line)

def IsTableLine (line : Text) : Prop :=
  ∃ object, parseQualifiedNameAfterKeyword line createTable = some (some object)

def IsViewLine (line : Text) : Prop :=
  ∃ object, parseQualifiedNameAfterKeyword line createView = some (some object)

def IsIndexLine (line : Text) : Prop := ∃ object, parseCreateIndex line = some (some object)

def IsRoutineLine (line : Text) : Prop := ∃ object, parseRoutine line = some (some object)

/-- The lines on which a slice is out of range or inside a character. -/
inductive StuckLine (line : Text) : Prop where
  | table (hschema : ¬ IsSchemaLine line) (htable : IsTableLine line)
      (hparens : ReversedParens line)
  | routine (hschema : ¬ IsSchemaLine line) (htable : ¬ IsTableLine line)
      (hview : ¬ IsViewLine line) (hindex : ¬ IsIndexLine line) (hroutine : IsRoutineLine line)
      {keyword : Text} (hkeyword : keyword ∈ referenceKeywords)
      (hmeets : MeetsEdge keyword (toAsciiUppercase line))

section Lines

variable {lines : List Text} {line role : Text} {index lineNumber : Nat} {fileId : Int}
  {storage : StructuralStorage} {schemaNodes : NodeNames} {state state' : SqlState}
  {object : LocatedQualifiedName} {kind : NodeKind}

theorem pushQualified_extends (hsmall : Small lines) (hline : lines[index]? = some line)
    (hobject : NamesObject line object) (hkind : kind = .classNode ∨ kind = .functionNode) :
    Extends lines storage
      (pushQualified fileId schemaNodes storage kind role object (lineNumberOf index)).1 := by
  obtain ⟨value, part, hlocates, hlen, hfirst, hkey⟩ := hobject
  have hname : NamedFrom kind value (qualifiedKey object.schema object.name) := by
    unfold NamedFrom
    rw [if_pos hkind]
    exact ⟨part, hfirst, hkey⟩
  unfold pushQualified
  rw [hlen]
  cases schemaNodes.lookup object.schema with
  | none =>
    apply Extends.pushEdge
    exact (extends_synthetic fileId storage object.schema).trans
      (extends_node hsmall hline hlocates hname)
  | some schemaId =>
    apply Extends.pushEdge
    exact extends_node hsmall hline hlocates hname

theorem tableLine_eq_none :
    tableLine fileId schemaNodes state object lineNumber line = none ↔ ReversedParens line := by
  unfold tableLine
  dsimp only
  generalize (pushQualified fileId schemaNodes state.storage .classNode "sql:table:".toList object
    lineNumber) = pushed
  obtain ⟨storage, nodeId⟩ := pushed
  have hparens : collectInlineColumns line fileId storage object.schema object.name nodeId
      lineNumber = none ↔ ReversedParens line := collectInlineColumns_eq_none
  rw [← hparens]
  dsimp only
  cases collectInlineColumns line fileId storage object.schema object.name nodeId lineNumber with
  | none => exact iff_of_true rfl rfl
  | some storage' => exact iff_of_false (Option.some_ne_none _) (Option.some_ne_none _)

theorem tableLine_extends (hsmall : Small lines) (hline : lines[index]? = some line)
    (hobject : NamesObject line object)
    (h : tableLine fileId schemaNodes state object (lineNumberOf index) line = some state') :
    Extends lines state.storage state'.storage := by
  unfold tableLine at h
  obtain ⟨storage, hcolumns, hstate⟩ := Option.bind_eq_some_iff.mp h
  cases hstate
  exact (pushQualified_extends hsmall hline hobject (Or.inl rfl)).trans
    (collectInlineColumns_extends hsmall hline hcolumns)

theorem viewLine_spec (hsmall : Small lines) (hline : lines[index]? = some line)
    (hobject : NamesObject line object) :
    ∃ state', viewLine fileId schemaNodes state object (lineNumberOf index) line = some state' ∧
      Extends lines state.storage state'.storage := by
  obtain ⟨base, hbase⟩ := parseViewBaseTable_total line
  have hpushed : Extends lines state.storage (pushQualified fileId schemaNodes state.storage
      .classNode "sql:view:".toList object (lineNumberOf index)).1 :=
    pushQualified_extends hsmall hline hobject (Or.inl rfl)
  unfold viewLine
  dsimp only
  rw [hbase, Option.bind_eq_bind, Option.bind_some]
  cases base.bind (state.tables.lookup ·) with
  | none => exact ⟨_, rfl, hpushed⟩
  | some baseId => exact ⟨_, rfl, hpushed.pushEdge _ _ _ _⟩

theorem indexLine_extends {schema table : Text} {indexName : LocatedSqlIdentifier}
    (hsmall : Small lines) (hline : lines[index]? = some line)
    (hlocates : Locates line indexName.value indexName.start)
    (hlen : indexName.len = byteLen indexName.value) :
    Extends lines state.storage
      (indexLine fileId state schema table indexName (lineNumberOf index)).storage := by
  unfold indexLine
  cases state.tables.lookup (qualifiedKey schema table) with
  | none => exact Extends.refl _
  | some tableId =>
    apply Extends.pushEdge
    rw [hlen]
    exact extends_node hsmall hline hlocates rfl

theorem pushUsages_extends (keys : List Text) (nodeId : Int) :
    Extends lines storage (pushUsages state nodeId lineNumber storage keys) := by
  unfold pushUsages
  induction keys generalizing storage with
  | nil => exact Extends.refl _
  | cons key keys ih =>
    rw [List.foldl_cons]
    cases state.tables.lookup key with
    | none => exact ih
    | some tableId => exact Extends.trans ((Extends.refl storage).pushEdge _ _ _ _) ih

theorem routineLine_eq_none :
    routineLine fileId schemaNodes state object lineNumber line = none ↔
      ∃ keyword ∈ referenceKeywords, MeetsEdge keyword (toAsciiUppercase line) := by
  have hmeets : referencedTables line object.schema = none ↔
      ∃ keyword ∈ referenceKeywords, MeetsEdge keyword (toAsciiUppercase line) :=
    referencedTables_eq_none
  rw [← hmeets]
  unfold routineLine
  dsimp only
  cases referencedTables line object.schema with
  | none => exact iff_of_true rfl rfl
  | some keys => exact iff_of_false (Option.some_ne_none _) (Option.some_ne_none _)

theorem routineLine_extends (hsmall : Small lines) (hline : lines[index]? = some line)
    (hobject : NamesObject line object)
    (h : routineLine fileId schemaNodes state object (lineNumberOf index) line = some state') :
    Extends lines state.storage state'.storage := by
  unfold routineLine at h
  obtain ⟨keys, _, hstate⟩ := Option.bind_eq_some_iff.mp h
  cases hstate
  exact (pushQualified_extends hsmall hline hobject (Or.inr rfl)).trans
    (pushUsages_extends keys _)

/-- What the collector does with a line, by the first parser that finds something. -/
inductive SqlLineCase (fileId : Int) (schemaNodes : NodeNames) (state : SqlState) (line : Text)
    (lineNumber : Nat) : Option SqlState → Prop where
  | schema (hschema : IsSchemaLine line) :
      SqlLineCase fileId schemaNodes state line lineNumber (some state)
  | table {object : LocatedQualifiedName} (hschema : ¬ IsSchemaLine line)
      (htable : parseQualifiedNameAfterKeyword line createTable = some (some object)) :
      SqlLineCase fileId schemaNodes state line lineNumber
        (tableLine fileId schemaNodes state object lineNumber line)
  | view {object : LocatedQualifiedName} (htable : ¬ IsTableLine line)
      (hview : parseQualifiedNameAfterKeyword line createView = some (some object)) :
      SqlLineCase fileId schemaNodes state line lineNumber
        (viewLine fileId schemaNodes state object lineNumber line)
  | index {schema table : Text} {indexName : LocatedSqlIdentifier} (htable : ¬ IsTableLine line)
      (hindex : parseCreateIndex line = some (some (schema, table, indexName))) :
      SqlLineCase fileId schemaNodes state line lineNumber
        (some (indexLine fileId state schema table indexName lineNumber))
  | routine {object : LocatedQualifiedName} (hschema : ¬ IsSchemaLine line)
      (htable : ¬ IsTableLine line) (hview : ¬ IsViewLine line) (hindex : ¬ IsIndexLine line)
      (hroutine : parseRoutine line = some (some object)) :
      SqlLineCase fileId schemaNodes state line lineNumber
        (routineLine fileId schemaNodes state object lineNumber line)
  | other (htable : ¬ IsTableLine line) (hroutine : ¬ IsRoutineLine line) :
      SqlLineCase fileId schemaNodes state line lineNumber (some state)

theorem not_exists_of_none {α : Type} {x : Option (Option α)} (h : x = some none) :
    ¬ ∃ a, x = some (some a) := by
  intro hsome
  obtain ⟨a, ha⟩ := hsome
  rw [h] at ha
  cases ha

theorem sqlLine_case (fileId : Int) (schemaNodes : NodeNames) (state : SqlState) (line : Text)
    (index : Nat) :
    SqlLineCase fileId schemaNodes state line (lineNumberOf index)
      (sqlLine fileId schemaNodes state (line, index)) := by
  obtain ⟨table, htable⟩ := parseQualifiedName_total line createTable
  obtain ⟨view, hview⟩ := parseQualifiedName_total line createView
  obtain ⟨found, hindex⟩ := parseCreateIndex_total line
  obtain ⟨routine, hroutine⟩ := parseRoutine_total line
  unfold sqlLine
  dsimp only
  by_cases hschema : IsSchemaLine line
  · have hskip := hschema
    unfold IsSchemaLine at hskip
    rw [if_pos hskip]
    exact SqlLineCase.schema hschema
  · have hskip := hschema
    unfold IsSchemaLine at hskip
    rw [if_neg hskip, htable, hview, hindex, hroutine]
    cases table with
    | some object => exact SqlLineCase.table hschema htable
    | none =>
      have htable := not_exists_of_none htable
      cases view with
      | some object => exact SqlLineCase.view htable hview
      | none =>
        have hview := not_exists_of_none hview
        cases found with
        | some found =>
          obtain ⟨schema, table, indexName⟩ := found
          exact SqlLineCase.index htable hindex
        | none =>
          have hindex := not_exists_of_none hindex
          cases routine with
          | some object => exact SqlLineCase.routine hschema htable hview hindex hroutine
          | none => exact SqlLineCase.other htable (not_exists_of_none hroutine)

theorem sqlLine_eq_none (hsmall : Small lines) (hline : lines[index]? = some line) :
    sqlLine fileId schemaNodes state (line, index) = none ↔ StuckLine line := by
  have hcase := sqlLine_case fileId schemaNodes state line index
  generalize sqlLine fileId schemaNodes state (line, index) = answer at hcase ⊢
  cases hcase with
  | schema hschema =>
    refine iff_of_false (Option.some_ne_none _) ?_
    intro hstuck
    cases hstuck with
    | table hno _ _ => exact hno hschema
    | routine hno _ _ _ _ _ _ => exact hno hschema
  | @table object hschema htable =>
    rw [tableLine_eq_none]
    constructor
    · exact StuckLine.table hschema ⟨object, htable⟩
    · intro hstuck
      cases hstuck with
      | table _ _ hparens => exact hparens
      | routine _ hno _ _ _ _ _ => exact absurd ⟨object, htable⟩ hno
  | @view object htable hview =>
    refine iff_of_false ?_ ?_
    · obtain ⟨state', hstate, -⟩ := @viewLine_spec lines line index fileId schemaNodes state object
        hsmall hline (parseQualifiedName_sound hview)
      rw [hstate]
      exact Option.some_ne_none _
    · intro hstuck
      cases hstuck with
      | table _ hyes _ => exact htable hyes
      | routine _ _ hno _ _ _ _ => exact hno ⟨object, hview⟩
  | index htable hindex =>
    refine iff_of_false (Option.some_ne_none _) ?_
    intro hstuck
    cases hstuck with
    | table _ hyes _ => exact htable hyes
    | routine _ _ _ hno _ _ _ => exact hno ⟨_, hindex⟩
  | @routine object hschema htable hview hindex hroutine =>
    rw [routineLine_eq_none]
    constructor
    · intro hmeets
      obtain ⟨keyword, hkeyword, hmeets⟩ := hmeets
      exact StuckLine.routine hschema htable hview hindex ⟨object, hroutine⟩ hkeyword hmeets
    · intro hstuck
      cases hstuck with
      | table _ hyes _ => exact absurd hyes htable
      | routine _ _ _ _ _ hkeyword hmeets => exact ⟨_, hkeyword, hmeets⟩
  | other htable hroutine =>
    refine iff_of_false (Option.some_ne_none _) ?_
    intro hstuck
    cases hstuck with
    | table _ hyes _ => exact htable hyes
    | routine _ _ _ _ hyes _ _ => exact hroutine hyes

theorem sqlLine_extends (hsmall : Small lines) (hline : lines[index]? = some line)
    (hstep : sqlLine fileId schemaNodes state (line, index) = some state') :
    Extends lines state.storage state'.storage := by
  have hcase := sqlLine_case fileId schemaNodes state line index
  rw [hstep] at hcase
  generalize hanswer : some state' = answer at hcase
  cases hcase with
  | schema hschema =>
    cases hanswer
    exact Extends.refl _
  | table hschema htable =>
    exact tableLine_extends hsmall hline (parseQualifiedName_sound htable) hanswer.symm
  | @view object htable hview =>
    obtain ⟨next, hnext, hextends⟩ :=
      @viewLine_spec lines line index fileId schemaNodes state object
      hsmall hline (parseQualifiedName_sound hview)
    rw [hnext] at hanswer
    cases hanswer
    exact hextends
  | index htable hindex =>
    cases hanswer
    obtain ⟨hlocates, hlen⟩ := parseCreateIndex_sound hindex
    exact indexLine_extends hsmall hline hlocates hlen
  | routine hschema htable hview hindex hroutine =>
    exact routineLine_extends hsmall hline (parseRoutine_sound hroutine) hanswer.symm
  | other htable hroutine =>
    cases hanswer
    exact Extends.refl _

end Lines

/-! ## Sources -/

section Sources

variable {lines : List Text} {line defaultSchema : Text} {index : Nat} {fileId : Int}
  {storage : StructuralStorage}

theorem inferDefaultSchema_total (lines : List Text) :
    ∃ schema, inferDefaultSchema lines = some schema := by
  induction lines with
  | nil => exact ⟨_, rfl⟩
  | cons line lines ih =>
    obtain ⟨answer, hanswer⟩ := nextIdent_total line
    unfold inferDefaultSchema
    dsimp only
    split
    · rw [hanswer, Option.bind_eq_bind, Option.bind_some]
      cases answer with
      | none => exact ih
      | some name => exact ⟨_, rfl⟩
    · exact ih

theorem schemaLine_spec (hsmall : Small lines) (hline : lines[index]? = some line)
    (state : StructuralStorage × NodeNames) :
    ∃ state', schemaLine fileId state (line, index) = some state' ∧
      Extends lines state.1 state'.1 := by
  obtain ⟨answer, hanswer⟩ := nextIdent_total line
  unfold schemaLine
  dsimp only
  split
  · rw [hanswer, Option.bind_eq_bind, Option.bind_some]
    cases answer with
    | none => exact ⟨_, rfl, Extends.refl _⟩
    | some name =>
      obtain ⟨hlocates, hlen⟩ := nextIdent_sound hanswer
      refine ⟨_, rfl, ?_⟩
      apply Extends.pushEdge
      rw [hlen]
      exact extends_node hsmall hline hlocates rfl
  · exact ⟨_, rfl, Extends.refl _⟩

theorem collectSchemas_spec (hsmall : Small lines) (storage : StructuralStorage) :
    ∃ answer, collectSchemas lines fileId storage defaultSchema = some answer ∧
      Extends lines storage answer.1 := by
  unfold collectSchemas
  generalize hinit : ((defaultSchemaNode fileId storage defaultSchema).1,
    [(defaultSchema, (defaultSchemaNode fileId storage defaultSchema).2)]) = init
  have hstart : Extends lines storage init.1 := by
    rw [← hinit]
    exact extends_synthetic fileId storage defaultSchema
  change ∃ answer, lines.zipIdx.foldlM (schemaLine fileId)
    ((defaultSchemaNode fileId storage defaultSchema).1,
      [(defaultSchema, (defaultSchemaNode fileId storage defaultSchema).2)]) = some answer ∧ _
  rw [hinit]
  cases hfold : lines.zipIdx.foldlM (schemaLine fileId) init with
  | none =>
    obtain ⟨entry, _, hfalse⟩ := (foldlM_eq_none (fun _ => False) fun entry hentry state => by
      obtain ⟨state', hstate, -⟩ :=
        @schemaLine_spec lines entry.1 entry.2 fileId hsmall (getElem?_of_mem_zipIdx hentry) state
      rw [hstate]
      exact iff_of_false (Option.some_ne_none _) id).mp hfold
    exact absurd hfalse id
  | some answer =>
    refine ⟨answer, rfl, hstart.trans ?_⟩
    apply foldlM_related (R := fun a b => Extends lines a.1 b.1) (fun _ => Extends.refl _)
      (fun _ _ _ => Extends.trans) _ hfold
    intro entry hentry state state' hstep
    obtain ⟨next, hnext, hextends⟩ :=
      @schemaLine_spec lines entry.1 entry.2 fileId hsmall (getElem?_of_mem_zipIdx hentry) state
    rw [hnext] at hstep
    cases hstep
    exact hextends

end Sources

/-- The collector goes through the source, and the nodes it adds are exact. -/
def SqlSpansAreExact (source : Text) (fileId : Int) (storage : StructuralStorage) : Prop :=
  ∃ storage', collectSqlEntities source fileId storage = some storage' ∧
    Extends (sourceLines source) storage storage'

/-- Whatever is collected is exact; only stuck lines keep the collector from the end. -/
theorem sql_spans_are_exact_iff (source : Text) (fileId : Int) (storage : StructuralStorage)
    (hsize : byteLen source ≤ maxStructuralSourceBytes) :
    SqlSpansAreExact source fileId storage ↔ ∀ line ∈ sourceLines source, ¬ StuckLine line := by
  have hsmall := small_sourceLines hsize
  obtain ⟨defaultSchema, hschema⟩ := inferDefaultSchema_total (sourceLines source)
  obtain ⟨⟨schemaStorage, schemaNodes⟩, hschemas, hextends⟩ :=
    @collectSchemas_spec (sourceLines source) defaultSchema fileId hsmall storage
  have hcollect : collectSqlEntities source fileId storage =
      ((sourceLines source).zipIdx.foldlM (sqlLine fileId schemaNodes) ⟨schemaStorage, []⟩).map
        SqlState.storage := by
    unfold collectSqlEntities
    dsimp only
    rw [hschema, Option.bind_eq_bind, Option.bind_some, hschemas, Option.bind_eq_bind,
      Option.bind_some]
    cases (sourceLines source).zipIdx.foldlM (sqlLine fileId schemaNodes) ⟨schemaStorage, []⟩ with
    | none => rfl
    | some state => rfl
  have hnone : (sourceLines source).zipIdx.foldlM (sqlLine fileId schemaNodes)
      ⟨schemaStorage, []⟩ = none ↔ ∃ entry ∈ (sourceLines source).zipIdx, StuckLine entry.1 := by
    apply foldlM_eq_none fun entry : Text × Nat => StuckLine entry.1
    intro entry hentry state
    exact sqlLine_eq_none hsmall (getElem?_of_mem_zipIdx hentry)
  constructor
  · intro hexact line hline hstuck
    obtain ⟨storage', hstorage, -⟩ := hexact
    obtain ⟨index, hindex⟩ := List.getElem?_of_mem hline
    have hmem : (line, index) ∈ (sourceLines source).zipIdx :=
      List.mem_zipIdx_iff_getElem?.mpr hindex
    rw [hcollect, hnone.mpr ⟨_, hmem, hstuck⟩] at hstorage
    cases hstorage
  · intro hfree
    cases hfold : (sourceLines source).zipIdx.foldlM (sqlLine fileId schemaNodes)
      ⟨schemaStorage, []⟩ with
    | none =>
      obtain ⟨entry, hentry, hstuck⟩ := hnone.mp hfold
      have hmem := List.mem_of_getElem? (getElem?_of_mem_zipIdx hentry)
      exact absurd hstuck (hfree entry.1 hmem)
    | some state =>
      refine ⟨state.storage, ?_, hextends.trans ?_⟩
      · rw [hcollect, hfold]
        rfl
      · apply foldlM_related (R := fun a b : SqlState => Extends (sourceLines source) a.storage
          b.storage) (fun _ => Extends.refl _) (fun _ _ _ => Extends.trans) _ hfold
        intro entry hentry state state' hstep
        exact sqlLine_extends hsmall (getElem?_of_mem_zipIdx hentry) hstep

def tableSource : Text := "CREATE TABLE app.users (id INT);\n".toList

theorem table_source_is_collected : SqlSpansAreExact tableSource 7 {} := by
  have hlines : sourceLines tableSource = ["CREATE TABLE app.users (id INT);".toList] := by decide
  have htable : IsTableLine "CREATE TABLE app.users (id INT);".toList := ⟨_, rfl⟩
  apply (sql_spans_are_exact_iff tableSource 7 {} (by decide)).mpr
  intro line hline hstuck
  rw [hlines, List.mem_singleton] at hline
  rw [hline] at hstuck
  cases hstuck with
  | table _ _ hparens =>
    obtain ⟨start, stop, hstart, hstop, hlt⟩ := reversedParens_iff.mp hparens
    have hfind : find ['('] "CREATE TABLE app.users (id INT);".toList = some 23 := by decide
    have hlast : findLast ')' "CREATE TABLE app.users (id INT);".toList = some 30 := by decide
    rw [hfind] at hstart
    rw [hlast] at hstop
    cases hstart
    cases hstop
    omega
  | routine _ hno _ _ _ _ _ => exact hno htable

/-- A table between swapped parentheses, and a routine that goes on on the next line. -/
theorem stuck_sources_are_not_collected :
    ¬ SqlSpansAreExact "CREATE TABLE t ) (".toList 7 {} ∧
    ¬ SqlSpansAreExact "CREATE FUNCTION f() AS SELECT 1 FROM ".toList 7 {} := by
  have htable : collectSqlEntities "CREATE TABLE t ) (".toList 7 {} = none := rfl
  have hroutine : collectSqlEntities "CREATE FUNCTION f() AS SELECT 1 FROM ".toList 7 {} = none :=
    rfl
  constructor
  · intro h
    obtain ⟨storage, hstorage, -⟩ := h
    rw [htable] at hstorage
    cases hstorage
  · intro h
    obtain ⟨storage, hstorage, -⟩ := h
    rw [hroutine] at hstorage
    cases hstorage

end CodeStory.Structural
