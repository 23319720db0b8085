import CodeStory.Query.RoundTrip

/-!
# Positional and named strings

The operations whose first argument is a string. An argument is positional when no colon outside of
its literals is found, so the two forms agree on bare values without a colon, and on no others.
-/

set_option autoImplicit false

namespace CodeStory.Query

open Utf8Text

/-- The operations that take a string first. -/
inductive StringOperation where
  | trail
  | symbol
  | search

namespace StringOperation

def name : StringOperation → String
  | .trail => "trail"
  | .symbol => "symbol"
  | .search => "search"

/-- The argument the first position stands for. -/
def argument : StringOperation → String
  | .trail => "symbol"
  | .symbol => "query"
  | .search => "query"

def operation : StringOperation → Text → GraphQueryOperation
  | .trail, s => .trail s none none
  | .symbol, s => .symbol s
  | .search, s => .search s

def positional (op : StringOperation) (v : Text) : Text :=
  op.name.toList ++ '(' :: (v ++ [')'])

def named (op : StringOperation) (v : Text) : Text :=
  op.name.toList ++ '(' :: (op.argument.toList ++ (':' :: ' ' :: v) ++ [')'])

theorem name_operation (op : StringOperation) (s : Text) :
    (op.operation s).name = op.name.toList := by
  cases op with
  | trail => rfl
  | symbol => rfl
  | search => rfl

theorem complete_operation (op : StringOperation) {s : Text} (hs : ¬ Text.Blank s) :
    (op.operation s).Complete := by
  cases op with
  | trail => exact hs
  | symbol => exact hs
  | search => exact hs

theorem fine_argument (op : StringOperation) {value : Value} (h : value.Fine) :
    FineArg (op.argument, value) := by
  have hkey : op.argument ∈ ["symbol", "depth", "direction", "query", "kind", "file", "n"] := by
    cases op with
    | trail => decide
    | symbol => decide
    | search => decide
  exact ⟨(fine_key _ hkey).1, (fine_key _ hkey).2, h⟩

end StringOperation

/-- One operation without white space around its name. -/
theorem parseGraphQuery_call {name inner : Text} (hname : Bare name)
    (hinner : Quiet NoBrackets inner) :
    ∃ segmentOffset argsOffset, parseGraphQuery (name ++ '(' :: (inner ++ [')'])) =
      (do
        let args ← parseArgs (name ++ '(' :: (inner ++ [')'])) inner argsOffset
        let operation ← buildOperation (name ++ '(' :: (inner ++ [')'])) segmentOffset
          (asciiLower name) args argsOffset
        (Except.ok ⟨[operation]⟩ : Parsed GraphQueryAst)) := by
  have hclosed : Closed (name ++ '(' :: (inner ++ [')'])) :=
    closed_call ((Quiet.bare hname).mono fun c hc => hc.1) hinner .nil
  have hparts : ∀ part ∈ [name ++ '(' :: (inner ++ [')'])], Closed part := by
    intro part hmem
    obtain rfl := List.mem_singleton.mp hmem
    exact hclosed
  obtain ⟨cuts, hcuts, hmap⟩ := splitPipeline_joined (List.cons_ne_nil _ _) hparts
  obtain ⟨⟨piece, start⟩, rfl, hpiece⟩ := List.map_eq_singleton_iff.mp hmap
  obtain rfl : piece = _ := hpiece
  have htight : Text.Tight (name ++ '(' :: (inner ++ [')'])) := by
    have hlast : Text.Tight [')'] := tight_of_forall fun c hc => by
      obtain rfl := List.mem_singleton.mp hc
      rfl
    exact (tight_bare hname).append (m := '(' :: inner) hname.1 hlast (List.cons_ne_nil _ _)
  have hne : name ++ '(' :: (inner ++ [')']) ≠ [] :=
    List.append_ne_nil_of_right_ne_nil _ (List.cons_ne_nil _ _)
  have hcall : ∀ source segmentOffset,
      parseOperation source (name ++ [] ++ '(' :: (inner ++ [')'])) segmentOffset = _ :=
    fun source segmentOffset => parseOperation_call source segmentOffset hname .nil
  rw [List.append_nil] at hcall
  refine ⟨start + leadingWs (name ++ '(' :: (inner ++ [')'])),
    start + leadingWs (name ++ '(' :: (inner ++ [')'])) + byteLen name + 1, ?_⟩
  change (do
    let segments ← splitPipeline (joined '|' [name ++ '(' :: (inner ++ [')'])])
    let operations ← parseSegments (name ++ '(' :: (inner ++ [')'])) segments
    if operations = [] then
      parseError (name ++ '(' :: (inner ++ [')'])) 0 "Expected at least one query operation"
    else (Except.ok ⟨operations⟩ : Parsed GraphQueryAst)) = _
  rw [hcuts]
  simp only [bind, Except.bind]
  unfold parseSegments
  rw [htight.trimChars, if_neg hne, hcall]
  simp only [bind, Except.bind]
  cases parseArgs (name ++ '(' :: (inner ++ [')'])) inner
      (start + leadingWs (name ++ '(' :: (inner ++ [')'])) + byteLen name + 1) with
  | error e => rfl
  | ok args =>
    dsimp only
    cases buildOperation (name ++ '(' :: (inner ++ [')']))
        (start + leadingWs (name ++ '(' :: (inner ++ [')']))) (asciiLower name) args
        (start + leadingWs (name ++ '(' :: (inner ++ [')'])) + byteLen name + 1) with
    | error e => rfl
    | ok operation => rfl

section Forms

variable (op : StringOperation) {value : Value} {v : Text}

theorem parse_named (hfine : value.Fine) (hv : value.Written v) (hblank : ¬ Text.Blank value.text) :
    parseGraphQuery (op.named v) = .ok ⟨[op.operation value.text]⟩ := by
  obtain ⟨hname, hlower⟩ := bare_name (op.operation value.text)
  rw [op.name_operation] at hname hlower
  have hfines : ∀ arg ∈ [(op.argument, value)], FineArg arg := by
    intro arg hmem
    obtain rfl := List.mem_singleton.mp hmem
    exact op.fine_argument hfine
  have hwritten : ArgsWritten [(op.argument, value)] (op.argument.toList ++ (':' :: ' ' :: v)) := by
    refine .inr ⟨List.cons_ne_nil _ _, [op.argument.toList ++ (':' :: ' ' :: v)], ?_, rfl⟩
    refine .cons ⟨[], [], [' '], [], v, .nil, .nil, blank_space, .nil, hv, ?_⟩ .nil
    rw [List.append_nil]
    rfl
  obtain ⟨segmentOffset, argsOffset, hparse⟩ :=
    parseGraphQuery_call hname (quiet_args hfines hwritten)
  obtain ⟨args, hargs, hview⟩ := parseArgs_written hfines hwritten (op.named v) argsOffset
  have hview' : view args = expected (op.operation value.text).arguments := by
    rw [hview]
    cases op with
    | trail => rfl
    | symbol => rfl
    | search => rfl
  have hbuild := buildOperation_written (op.named v) segmentOffset argsOffset
    (op.complete_operation hblank) hview'
  rw [op.name_operation] at hbuild
  unfold StringOperation.named at hargs hbuild ⊢
  rw [hparse]
  simp only [bind, Except.bind]
  rw [hargs, hlower]
  dsimp only
  rw [hbuild]

theorem findTopLevelColon_quiet (h : Quiet (· ≠ ':') v) : findTopLevelColon v = none := by
  unfold findTopLevelColon
  rw [Option.map_eq_none_iff, List.find?_eq_none]
  intro mark hmem heq
  exact (h 0).2 mark hmem (of_decide_eq_true heq)

/-- A text without a comma outside of its literals is one argument. -/
theorem parseArgs_one (hne : v ≠ []) (htight : Text.Tight v) (hquiet : Quiet (· ≠ ',') v)
    (source : Text) (argsOffset : Nat) :
    ∃ offset, parseArgs source v argsOffset = (do
      let arg ← parseArg source v offset
      (Except.ok [arg] : Parsed (List ParsedArg))) := by
  have hparts : ∀ part ∈ [v], Quiet (· ≠ ',') part := by
    intro part hmem
    obtain rfl := List.mem_singleton.mp hmem
    exact hquiet
  obtain ⟨cuts, hcuts, hmap⟩ := splitArgs_joined (List.cons_ne_nil _ _) hparts source argsOffset
  obtain ⟨⟨piece, start⟩, rfl, hpiece⟩ := List.map_eq_singleton_iff.mp hmap
  obtain rfl : piece = v := hpiece
  refine ⟨start + leadingWs piece, ?_⟩
  have hsplit : splitArgs source piece argsOffset = .ok [(piece, start)] := hcuts
  unfold parseArgs
  rw [hsplit]
  simp only [bind, Except.bind]
  unfold parseParts
  rw [htight.trimChars, if_neg hne]
  rfl

/-- A text without a colon outside of its literals is one positional argument. -/
theorem parseArgs_positional (hfine : value.Fine) (hv : value.Written v)
    (hcolon : Quiet (· ≠ ':') v) (source : Text) (argsOffset : Nat) :
    ∃ offset, parseArgs source v argsOffset = .ok [⟨none, value.text, offset⟩] := by
  obtain ⟨hne, htight, hquiet, hvalue⟩ := written_spec hfine hv
  obtain ⟨offset, hargs⟩ :=
    parseArgs_one hne htight (hquiet.mono fun c hc => hc.2) source argsOffset
  refine ⟨offset, ?_⟩
  rw [hargs]
  unfold parseArg
  rw [findTopLevelColon_quiet hcolon]
  simp only [bind, Except.bind]
  rw [hvalue]

theorem buildOperation_positional {s : Text} (hs : ¬ Text.Blank s) (source : Text)
    (segmentOffset offset argsOffset : Nat) :
    buildOperation source segmentOffset op.name.toList [⟨none, s, offset⟩] argsOffset =
      .ok (op.operation s) := by
  have hrequired : ∀ key,
    requiredStringArg source [⟨none, s, offset⟩] key 0 argsOffset = .ok s := by
    intro key
    have hnone : optionalStringArg [⟨none, s, offset⟩] key = none := rfl
    have hfirst : positionalArg [⟨none, s, offset⟩] 0 = some s := rfl
    unfold requiredStringArg
    rw [hnone, hfirst, Option.none_or, Option.filter_some,
      if_pos (decide_eq_true (trim_ne_nil hs))]
  cases op with
  | trail =>
    change buildOperation source segmentOffset "trail".toList _ argsOffset = _
    unfold buildOperation
    rw [if_pos rfl, hrequired]
    rfl
  | symbol =>
    change buildOperation source segmentOffset "symbol".toList _ argsOffset = _
    unfold buildOperation
    rw [if_neg (by decide), if_pos rfl, hrequired]
    rfl
  | search =>
    change buildOperation source segmentOffset "search".toList _ argsOffset = _
    unfold buildOperation
    rw [if_neg (by decide), if_neg (by decide), if_pos rfl, hrequired]
    rfl

theorem parse_positional (hfine : value.Fine) (hv : value.Written v)
    (hblank : ¬ Text.Blank value.text) (hcolon : Quiet (· ≠ ':') v) :
    parseGraphQuery (op.positional v) = .ok ⟨[op.operation value.text]⟩ := by
  obtain ⟨hname, hlower⟩ := bare_name (op.operation value.text)
  rw [op.name_operation] at hname hlower
  obtain ⟨-, -, hquiet, -⟩ := written_spec hfine hv
  obtain ⟨segmentOffset, argsOffset, hparse⟩ :=
    parseGraphQuery_call hname (hquiet.mono fun c hc => hc.1)
  obtain ⟨offset, hargs⟩ := parseArgs_positional hfine hv hcolon (op.positional v) argsOffset
  have hbuild := buildOperation_positional op hblank (op.positional v) segmentOffset offset
    argsOffset
  unfold StringOperation.positional at hargs hbuild ⊢
  rw [hparse]
  simp only [bind, Except.bind]
  rw [hargs, hlower]
  dsimp only
  rw [hbuild]

end Forms

theorem Plain.not_blank {v : Text} (h : Plain v) : ¬ Text.Blank v := by
  obtain ⟨hne, htight, -⟩ := h
  intro hblank
  have htrim := htight.trimChars
  rw [Text.trimChars_blank hblank] at htrim
  exact hne htrim.symm

/-- Literals agree in both forms, colons included. -/
theorem literals_agree (op : StringOperation) {q : Char} {s : Text} (hq : IsQuote q)
    (hblank : ¬ Text.Blank s) :
    parseGraphQuery (op.positional (literal q s)) = parseGraphQuery (op.named (literal q s)) ∧
      parseGraphQuery (op.named (literal q s)) = .ok ⟨[op.operation s]⟩ := by
  have hfine : (Value.quoted s).Fine := trivial
  have hwritten : (Value.quoted s).Written (literal q s) := ⟨q, hq, rfl⟩
  have hnamed := parse_named op hfine hwritten hblank
  have hpositional := parse_positional op hfine hwritten hblank (.literal hq s)
  exact ⟨hpositional.trans hnamed.symm, hnamed⟩

/-! ## A bare value with a colon -/

theorem bind_ok {α β : Type} {p : Parsed α} {f : α → Parsed β} {b : β} (h : p >>= f = .ok b) :
    ∃ a, p = .ok a ∧ f a = .ok b := by
  cases p with
  | error e => cases h
  | ok a => exact ⟨a, rfl, h⟩

/-- The first colon ends a name, and the value is what follows it. -/
theorem parseArg_colon {front back : Text} (hfront : Quiet (· ≠ ':') front)
    (hback : ∀ c ∈ back, ¬ (c = '\'' ∨ c = '"')) {source : Text} {itemOffset : Nat}
    {arg : ParsedArg} (h : parseArg source (front ++ ':' :: back) itemOffset = .ok arg) :
    ∃ key, arg = ⟨some key, Text.trimChars back, itemOffset⟩ := by
  have hto : sliceTo (front ++ ':' :: back) (byteLen front) = some front := sliceTo_append _ _
  have hfrom : sliceFrom (front ++ ':' :: back) (byteLen front + 1) = some back := by
    have h := sliceFrom_append (front ++ [':']) back
    rw [byteLen_append, List.append_assoc] at h
    exact h
  obtain ⟨w, w', hsplit, -, -, htight⟩ := Text.trimChars_spec back
  have hvalue : ∀ offset, parseValue source (Text.trimChars back) offset =
      .ok (Text.trimChars back) := by
    refine parseValue_plain htight (fun c hc => hback c ?_) source
    rw [hsplit]
    exact List.mem_append_right _ (List.mem_append_left _ (List.mem_of_mem_head? hc))
  unfold parseArg at h
  rw [findTopLevelColon_append hfront] at h
  dsimp only at h
  rw [hto, hfrom] at h
  obtain ⟨name, hname, h⟩ := bind_ok h
  cases hname
  by_cases hkey : Text.trimChars front = []
  · rw [if_pos hkey] at h
    cases h
  · rw [if_neg hkey] at h
    obtain ⟨after, hafter, h⟩ := bind_ok h
    cases hafter
    by_cases hempty : Text.trimChars back = []
    · rw [if_pos hempty] at h
      cases h
    · rw [if_neg hempty, hvalue] at h
      cases h
      exact ⟨_, rfl⟩

/-- Under any name, only the value of that argument can be the string of the operation. -/
theorem requiredStringArg_named {source key s t : Text} {offset argsOffset : Nat}
    {wanted : String}
    (h : requiredStringArg source [⟨some key, s, offset⟩] wanted 0 argsOffset = .ok t) : t = s := by
  have hnone : positionalArg [⟨some key, s, offset⟩] 0 = none := rfl
  unfold requiredStringArg at h
  rw [hnone, Option.or_none] at h
  cases hfilter : (optionalStringArg [⟨some key, s, offset⟩] wanted).filter
      (Text.trimChars · ≠ []) with
  | none =>
    rw [hfilter] at h
    cases h
  | some value =>
    rw [hfilter] at h
    cases h
    have hvalue := (Option.filter_eq_some_iff.mp hfilter).1
    obtain ⟨arg, harg, rfl⟩ := Option.map_eq_some_iff.mp hvalue
    obtain rfl := List.mem_singleton.mp (List.mem_of_find?_eq_some harg)
    rfl

theorem buildOperation_named (op : StringOperation) {source key s v : Text}
    {segmentOffset offset argsOffset : Nat}
    (h : buildOperation source segmentOffset op.name.toList [⟨some key, s, offset⟩] argsOffset =
      .ok (op.operation v)) : v = s := by
  cases op with
  | trail =>
    change buildOperation source segmentOffset "trail".toList _ argsOffset = _ at h
    unfold buildOperation at h
    rw [if_pos rfl] at h
    obtain ⟨-, -, h⟩ := bind_ok h
    obtain ⟨symbol, hsymbol, h⟩ := bind_ok h
    obtain ⟨depth, -, h⟩ := bind_ok h
    obtain ⟨direction, -, h⟩ := bind_ok h
    cases h
    exact requiredStringArg_named hsymbol
  | symbol =>
    change buildOperation source segmentOffset "symbol".toList _ argsOffset = _ at h
    unfold buildOperation at h
    rw [if_neg (by decide), if_pos rfl] at h
    obtain ⟨-, -, h⟩ := bind_ok h
    obtain ⟨query, hquery, h⟩ := bind_ok h
    cases h
    exact requiredStringArg_named hquery
  | search =>
    change buildOperation source segmentOffset "search".toList _ argsOffset = _ at h
    unfold buildOperation at h
    rw [if_neg (by decide), if_neg (by decide), if_pos rfl] at h
    obtain ⟨-, -, h⟩ := bind_ok h
    obtain ⟨query, hquery, h⟩ := bind_ok h
    cases h
    exact requiredStringArg_named hquery

/-- With a colon the string of the operation is at most a part of the value. -/
theorem positional_loses_prefix (op : StringOperation) {v : Text} (h : Plain v) (hcolon : ':' ∈ v) :
    parseGraphQuery (op.positional v) ≠ .ok ⟨[op.operation v]⟩ := by
  intro hparse
  obtain ⟨hne, htight, hchars⟩ := h
  obtain ⟨hname, hlower⟩ := bare_name (op.operation v)
  rw [op.name_operation] at hname hlower
  obtain ⟨segmentOffset, argsOffset, hcall⟩ :=
    parseGraphQuery_call hname ((Quiet.of_plain hchars).mono fun c hc => hc.1)
  unfold StringOperation.positional at hparse
  rw [hcall] at hparse
  obtain ⟨args, hargs, hparse⟩ := bind_ok hparse
  obtain ⟨operation, hoperation, hparse⟩ := bind_ok hparse
  cases hparse
  obtain ⟨offset, hone⟩ := parseArgs_one hne htight ((Quiet.of_plain hchars).mono fun c hc => hc.2)
    (op.name.toList ++ '(' :: (v ++ [')'])) argsOffset
  rw [hone] at hargs
  obtain ⟨arg, harg, hargs⟩ := bind_ok hargs
  cases hargs
  obtain ⟨front, back, rfl, hfront⟩ := List.eq_append_cons_of_mem hcolon
  have hquiet : Quiet (· ≠ ':') front := by
    apply Quiet.of_plain
    intro c hc
    refine ⟨(hchars c (List.mem_append_left _ hc)).1, ?_⟩
    rintro rfl
    exact hfront hc
  obtain ⟨key, rfl⟩ := parseArg_colon hquiet
    (fun c hc => (hchars c (List.mem_append_right _ (List.mem_cons_of_mem _ hc))).1) harg
  rw [hlower] at hoperation
  have hlength := congrArg List.length (buildOperation_named op hoperation)
  obtain ⟨w, w', hsplit, -, -, -⟩ := Text.trimChars_spec back
  have hback := congrArg List.length hsplit
  rw [List.length_append, List.length_cons] at hlength
  rw [List.length_append, List.length_append] at hback
  omega

/-- A bare value is always accepted under its name, and without it exactly when no
colon is in it. -/
theorem positional_agrees_iff (op : StringOperation) (v : Text) (h : Plain v) :
    parseGraphQuery (op.named v) = .ok ⟨[op.operation v]⟩ ∧
      (parseGraphQuery (op.positional v) = parseGraphQuery (op.named v) ↔ ':' ∉ v) := by
  have hfine : (Value.bare v).Fine := h
  have hwritten : (Value.bare v).Written v := rfl
  have hnamed := parse_named op hfine hwritten h.not_blank
  refine ⟨hnamed, fun hsame hcolon => ?_, fun hcolon => ?_⟩
  · exact positional_loses_prefix op h hcolon (hsame.trans hnamed)
  · have hquiet : Quiet (· ≠ ':') v := by
      apply Quiet.of_plain
      intro c hc
      refine ⟨(h.2.2 c hc).1, ?_⟩
      rintro rfl
      exact hcolon hc
    exact (parse_positional op hfine hwritten h.not_blank hquiet).trans hnamed.symm

attribute [local instance] Text.decidableAllChars Text.decidableMaybeChar

instance (v : Text) : Decidable (Plain v) :=
  inferInstanceAs (Decidable (v ≠ [] ∧
    ((∀ c ∈ v.head?, Text.isWhiteSpace c = false) ∧
      ∀ c ∈ v.getLast?, Text.isWhiteSpace c = false) ∧
    ∀ c ∈ v, ¬ (c = '\'' ∨ c = '"') ∧ (c ≠ '(' ∧ c ≠ ')' ∧ c ≠ '|') ∧ c ≠ ','))

theorem agreement_on_texts :
    parseGraphQuery "trail(AppController.run)".toList =
        parseGraphQuery "trail(symbol: AppController.run)".toList ∧
      parseGraphQuery "search(query: query::Foo)".toList =
        .ok ⟨[.search "query::Foo".toList]⟩ ∧
      parseGraphQuery "search(query::Foo)".toList ≠
        parseGraphQuery "search(query: query::Foo)".toList :=
  ⟨(positional_agrees_iff .trail "AppController.run".toList (by decide)).2.mpr
      (by decide),
    (positional_agrees_iff .search "query::Foo".toList (by decide)).1,
    fun h => (positional_agrees_iff .search "query::Foo".toList (by decide)).2.mp h
      (by decide)⟩

/-- The first colon of a bare qualified name ends the name of an argument. -/
theorem qualified_names_disagree :
    ¬ ∀ (op : StringOperation) v, Plain v →
      parseGraphQuery (op.positional v) = parseGraphQuery (op.named v) := by
  intro h
  exact absurd (h .symbol "std::Vec".toList (by decide)) (by decide)

end CodeStory.Query
