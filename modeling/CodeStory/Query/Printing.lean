import CodeStory.Query.Literals

/-!
# Written queries

The ways to write a query: named arguments, each string between quotes of either kind, white space
around every token. A text is quiet for a scanner that passes over it, and a text joined from quiet
parts is cut where it was put together.
-/

set_option autoImplicit false

namespace CodeStory.Query

open Utf8Text
open CodeStory.Graph (NodeKind)

/-! ## Ways to write a query -/

inductive Value where
  | quoted (s : Text)
  | bare (t : Text)

/-- The text a value stands for. -/
def Value.text : Value → Text
  | .quoted s => s
  | .bare t => t

def Value.Written : Value → Text → Prop
  | .quoted s, t => ∃ q, IsQuote q ∧ t = literal q s
  | .bare b, t => t = b

def number (n : UInt32) : Text := Nat.toDigits 10 n.toNat

def TrailDirection.name : TrailDirection → Text
  | .incoming => "incoming".toList
  | .outgoing => "outgoing".toList
  | .both => "both".toList

def kindName (kind : NodeKind) : Text :=
  match kindNames.find? (·.2 = kind) with
  | some (name, _) => name.toList
  | none => []

namespace GraphQueryOperation

def name : GraphQueryOperation → Text
  | .trail .. => "trail".toList
  | .symbol _ => "symbol".toList
  | .search _ => "search".toList
  | .filter .. => "filter".toList
  | .limit _ => "limit".toList

def arguments : GraphQueryOperation → List (String × Value)
  | .trail sym depth direction =>
    [("symbol", .quoted sym)] ++ depth.toList.map (fun n => ("depth", .bare (number n))) ++
      direction.toList.map fun d => ("direction", .bare d.name)
  | .symbol query => [("query", .quoted query)]
  | .search query => [("query", .quoted query)]
  | .filter kind file depth =>
    kind.toList.map (fun k => ("kind", .bare (kindName k))) ++
      file.toList.map (fun f => ("file", .quoted f)) ++
      depth.toList.map fun n => ("depth", .bare (number n))
  | .limit count => [("n", .bare (number count))]

/-- The strings that must not be blank are not. -/
def Complete : GraphQueryOperation → Prop
  | .trail sym _ _ => ¬ Text.Blank sym
  | .symbol query => ¬ Text.Blank query
  | .search query => ¬ Text.Blank query
  | _ => True

end GraphQueryOperation

/-- The parts with a separator between them. -/
def joined (separator : Char) : List Text → Text
  | [] => []
  | [part] => part
  | part :: later => part ++ separator :: joined separator later

def ArgWritten (arg : String × Value) (t : Text) : Prop :=
  ∃ w₁ w₂ w₃ w₄ v, Text.Blank w₁ ∧ Text.Blank w₂ ∧ Text.Blank w₃ ∧ Text.Blank w₄ ∧
    arg.2.Written v ∧ t = w₁ ++ ((arg.1.toList ++ (w₂ ++ ':' :: (w₃ ++ v))) ++ w₄)

/-- Arguments with commas between them, or white space where there are none. -/
def ArgsWritten (args : List (String × Value)) (t : Text) : Prop :=
  (args = [] ∧ Text.Blank t) ∨
    args ≠ [] ∧ ∃ parts, List.Forall₂ ArgWritten args parts ∧ t = joined ',' parts

def OperationWritten (operation : GraphQueryOperation) (t : Text) : Prop :=
  ∃ w₁ w₂ w₃ inner, Text.Blank w₁ ∧ Text.Blank w₂ ∧ Text.Blank w₃ ∧
    ArgsWritten operation.arguments inner ∧
    t = w₁ ++ ((operation.name ++ w₂ ++ '(' :: (inner ++ [')'])) ++ w₃)

def AstWritten (ast : GraphQueryAst) (t : Text) : Prop :=
  ∃ parts, List.Forall₂ OperationWritten ast.operations parts ∧ t = joined '|' parts

/-! ## Quiet texts -/

/-- A scan passes over the text and looks at characters with the property only. -/
def Quiet (P : Char → Prop) (t : Text) : Prop :=
  ∀ idx, (topLevel .outside idx t).2 = .outside ∧
    ∀ mark ∈ (topLevel .outside idx t).1, P mark.2

variable {P : Char → Prop} {a b t : Text}

theorem topLevel_pass {scan next : Scan} {c : Char} (h : scan.pass c = some next) (idx : Nat)
    (t : Text) : topLevel scan idx (c :: t) = topLevel next (idx + c.utf8Size) t := by
  conv_lhs => unfold topLevel
  rw [h]

theorem topLevel_look {scan : Scan} {c : Char} (h : scan.pass c = none) (idx : Nat) (t : Text) :
    topLevel scan idx (c :: t) =
      ((idx, c) :: (topLevel scan (idx + c.utf8Size) t).1,
        (topLevel scan (idx + c.utf8Size) t).2) := by
  conv_lhs => unfold topLevel
  rw [h]

theorem topLevel_append (scan : Scan) (idx : Nat) (a b : Text) :
    topLevel scan idx (a ++ b) =
      ((topLevel scan idx a).1 ++ (topLevel (topLevel scan idx a).2 (idx + byteLen a) b).1,
        (topLevel (topLevel scan idx a).2 (idx + byteLen a) b).2) := by
  induction a generalizing scan idx with
  | nil => rfl
  | cons c a ih =>
    have hidx : idx + c.utf8Size + byteLen a = idx + byteLen (c :: a) := by
      rw [byteLen_cons]
      omega
    rw [List.cons_append]
    cases hpass : scan.pass c with
    | some next => rw [topLevel_pass hpass, topLevel_pass hpass, ih, hidx]
    | none =>
      rw [topLevel_look hpass, topLevel_look hpass, ih, hidx]
      rfl

theorem Quiet.nil : Quiet P [] := fun _ => ⟨rfl, fun _ h => absurd h List.not_mem_nil⟩

theorem Quiet.append (ha : Quiet P a) (hb : Quiet P b) : Quiet P (a ++ b) := by
  intro idx
  rw [topLevel_append, (ha idx).1]
  refine ⟨(hb _).1, fun mark hmem => ?_⟩
  rcases List.mem_append.mp hmem with hmem | hmem
  · exact (ha idx).2 mark hmem
  · exact (hb _).2 mark hmem

theorem Quiet.mono {Q : Char → Prop} (h : Quiet P t) (himp : ∀ c, P c → Q c) : Quiet Q t :=
  fun idx => ⟨(h idx).1, fun mark hmem => himp _ ((h idx).2 mark hmem)⟩

/-- A character that is no quote is looked at. -/
theorem pass_plain {c : Char} (h : ¬ (c = '\'' ∨ c = '"')) : Scan.outside.pass c = none := if_neg h

theorem Quiet.cons {c : Char} (hc : ¬ (c = '\'' ∨ c = '"')) (hp : P c) (h : Quiet P t) :
    Quiet P (c :: t) := by
  intro idx
  rw [topLevel_look (pass_plain hc)]
  refine ⟨(h _).1, fun mark hmem => ?_⟩
  rcases List.mem_cons.mp hmem with rfl | hmem
  · exact hp
  · exact (h _).2 mark hmem

theorem Quiet.of_plain (h : ∀ c ∈ t, ¬ (c = '\'' ∨ c = '"') ∧ P c) : Quiet P t := by
  induction t with
  | nil => exact .nil
  | cons c t ih =>
    obtain ⟨hc, hp⟩ := h c List.mem_cons_self
    exact .cons hc hp (ih fun d hd => h d (List.mem_cons_of_mem _ hd))

/-- Inside a literal nothing is looked at. -/
theorem topLevel_escape {q : Char} (idx : Nat) (s : Text) :
    topLevel ⟨some q, false⟩ idx (escape q s) = ([], ⟨some q, false⟩) := by
  induction s generalizing idx with
  | nil => rfl
  | cons c s ih =>
    rw [escape_cons]
    by_cases hc : c = '\\' ∨ c = q
    · rw [if_pos hc]
      have hback : (Scan.mk (some q) false).pass '\\' = some ⟨some q, true⟩ := rfl
      have hnext : (Scan.mk (some q) true).pass c = some ⟨some q, false⟩ := rfl
      exact (topLevel_pass hback _ _).trans ((topLevel_pass hnext _ _).trans (ih _))
    · rw [if_neg hc]
      have hpass : (Scan.mk (some q) false).pass c = some ⟨some q, false⟩ := by
        change (if c = '\\' then _ else if c = q then _ else _) = _
        rw [if_neg fun h => hc (.inl h), if_neg fun h => hc (.inr h)]
      exact (topLevel_pass hpass _ _).trans (ih _)

theorem IsQuote.ne_backslash {q : Char} (h : IsQuote q) : q ≠ '\\' := by
  cases h with
  | single => decide
  | double => decide

theorem Quiet.literal {q : Char} (hq : IsQuote q) (s : Text) :
    Quiet P (CodeStory.Query.literal q s) := by
  intro idx
  have hopen : Scan.outside.pass q = some ⟨some q, false⟩ := by
    cases hq with
    | single => rfl
    | double => rfl
  have hclose : (Scan.mk (some q) false).pass q = some .outside := by
    change (if q = '\\' then _ else if q = q then _ else _) = _
    rw [if_neg hq.ne_backslash, if_pos rfl]
    rfl
  have hall : topLevel .outside idx (CodeStory.Query.literal q s) = ([], .outside) := by
    unfold CodeStory.Query.literal
    rw [topLevel_pass hopen, topLevel_append, topLevel_escape]
    dsimp only
    rw [topLevel_pass hclose]
    rfl
  rw [hall]
  exact ⟨rfl, fun _ h => absurd h List.not_mem_nil⟩

theorem Quiet.blank (h : Text.Blank t) (hp : ∀ c, Text.isWhiteSpace c = true → P c) :
    Quiet P t := by
  apply Quiet.of_plain
  intro c hc
  refine ⟨?_, hp c (h c hc)⟩
  rintro (rfl | rfl)
  · exact absurd (h _ hc) (by decide)
  · exact absurd (h _ hc) (by decide)

/-! ## Cutting where the parts were joined -/

/-- The offsets of the separators. -/
def separators (start : Nat) : List Text → List Nat
  | [] => []
  | [_] => []
  | part :: later => (start + byteLen part) :: separators (start + byteLen part + 1) later

theorem cutAt_joined (separator : Char) (hsize : separator.utf8Size = 1) (front : Text)
    {parts : List Text} (hne : parts ≠ []) :
    ∃ cuts, cutAt (front ++ joined separator parts) (byteLen front)
        (separators (byteLen front) parts) = .ok cuts ∧ cuts.map (·.1) = parts := by
  induction parts generalizing front with
  | nil => exact absurd rfl hne
  | cons part later ih =>
    cases later with
    | nil =>
      refine ⟨[(part, byteLen front)], ?_, rfl⟩
      change (do
        let part ← cut (sliceFrom (front ++ part) (byteLen front))
        Except.ok [(part, byteLen front)]) = _
      rw [sliceFrom_append]
      rfl
    | cons next later =>
      have hwhole : front ++ joined separator (part :: next :: later) =
          (front ++ part ++ [separator]) ++ joined separator (next :: later) := by
        change front ++ (part ++ separator :: joined separator (next :: later)) = _
        rw [List.append_assoc, List.append_assoc]
        rfl
      have hlen : byteLen (front ++ part ++ [separator]) = byteLen front + byteLen part + 1 := by
        rw [byteLen_append, byteLen_append, byteLen_cons, byteLen_nil, hsize]
      obtain ⟨cuts, hcuts, hparts⟩ := ih (front ++ part ++ [separator]) (List.cons_ne_nil _ _)
      rw [← hwhole, hlen] at hcuts
      refine ⟨(part, byteLen front) :: cuts, ?_, by rw [List.map_cons, hparts]⟩
      change (do
        let first ← cut (slice (front ++ joined separator (part :: next :: later)) (byteLen front)
          (byteLen front + byteLen part))
        let rest ← cutAt (front ++ joined separator (part :: next :: later))
          (byteLen front + byteLen part + 1)
          (separators (byteLen front + byteLen part + 1) (next :: later))
        Except.ok ((first, byteLen front) :: rest)) = _
      rw [hcuts]
      have hslice : slice (front ++ joined separator (part :: next :: later)) (byteLen front)
          (byteLen front + byteLen part) = some part := slice_append front part _
      rw [hslice]
      rfl

/-- The bars of a pipeline are the separators if the brackets of every part are closed in it. -/
def Closed (t : Text) : Prop :=
  ∀ source idx marks, (topLevel .outside idx t).2 = .outside ∧
    pipelineBars source 0 ((topLevel .outside idx t).1 ++ marks) = pipelineBars source 0 marks

theorem pipelineBars_skip {depth : Int} {marks : List (Nat × Char)}
    (h : ∀ mark ∈ marks, mark.2 ≠ '(' ∧ mark.2 ≠ ')' ∧ mark.2 ≠ '|') (source : Text)
    (later : List (Nat × Char)) :
    pipelineBars source depth (marks ++ later) = pipelineBars source depth later := by
  induction marks with
  | nil => rfl
  | cons mark marks ih =>
    obtain ⟨hopen, hclose, hbar⟩ := h mark List.mem_cons_self
    rw [List.cons_append]
    conv_lhs => unfold pipelineBars
    rw [if_neg hopen, if_neg hclose, if_neg fun hb => hbar hb.1]
    exact ih fun mark' hmem => h mark' (List.mem_cons_of_mem _ hmem)

/-- What the scanner of pipelines passes over at any depth. -/
def NoBrackets (c : Char) : Prop := c ≠ '(' ∧ c ≠ ')' ∧ c ≠ '|'

theorem closed_call {front inner back : Text} (hfront : Quiet NoBrackets front)
    (hinner : Quiet NoBrackets inner) (hback : Quiet NoBrackets back) :
    Closed (front ++ '(' :: (inner ++ ')' :: back)) := by
  intro source idx marks
  have hopen : Scan.outside.pass '(' = none := rfl
  have hclose : Scan.outside.pass ')' = none := rfl
  rw [topLevel_append, (hfront idx).1, topLevel_look hopen, topLevel_append, (hinner _).1,
    topLevel_look hclose]
  refine ⟨(hback _).1, ?_⟩
  dsimp only
  rw [List.append_assoc, pipelineBars_skip (hfront idx).2, List.cons_append, List.append_assoc]
  conv_lhs => unfold pipelineBars
  rw [if_pos rfl, pipelineBars_skip (hinner _).2, List.cons_append]
  conv_lhs => unfold pipelineBars
  rw [if_neg (by decide), if_pos rfl, if_neg (by decide), pipelineBars_skip (hback _).2]
  rfl

theorem pipelineBars_joined {parts : List Text} (h : ∀ part ∈ parts, Closed part) (source : Text)
    (idx : Nat) :
    (topLevel .outside idx (joined '|' parts)).2 = .outside ∧
      pipelineBars source 0 (topLevel .outside idx (joined '|' parts)).1 =
        .ok (separators idx parts, 0) := by
  induction parts generalizing idx with
  | nil => exact ⟨rfl, rfl⟩
  | cons part later ih =>
    have hpart := h part List.mem_cons_self
    cases later with
    | nil =>
      change (topLevel .outside idx part).2 = _ ∧
        pipelineBars source 0 (topLevel .outside idx part).1 = _
      have hend := (hpart source idx []).2
      rw [List.append_nil] at hend
      exact ⟨(hpart source idx []).1, hend⟩
    | cons next later =>
      obtain ⟨hlast, hbars⟩ := ih (fun part' hmem => h part' (List.mem_cons_of_mem _ hmem))
        (idx + byteLen part + 1)
      have hbar : Scan.outside.pass '|' = none := rfl
      have hsize : ('|' : Char).utf8Size = 1 := rfl
      change (topLevel .outside idx (part ++ '|' :: joined '|' (next :: later))).2 = _ ∧
        pipelineBars source 0
          (topLevel .outside idx (part ++ '|' :: joined '|' (next :: later))).1 = _
      rw [topLevel_append, (hpart source idx []).1, topLevel_look hbar, hsize]
      refine ⟨hlast, ?_⟩
      rw [(hpart source idx _).2]
      conv_lhs => unfold pipelineBars
      rw [if_neg (by decide), if_neg (by decide), if_pos ⟨rfl, rfl⟩, hbars]
      rfl

theorem splitPipeline_joined {parts : List Text} (hne : parts ≠ [])
    (h : ∀ part ∈ parts, Closed part) :
    ∃ cuts, splitPipeline (joined '|' parts) = .ok cuts ∧ cuts.map (·.1) = parts := by
  obtain ⟨hlast, hbars⟩ := pipelineBars_joined h (joined '|' parts) 0
  obtain ⟨cuts, hcuts, hparts⟩ := cutAt_joined '|' rfl [] hne
  refine ⟨cuts, ?_, hparts⟩
  unfold splitPipeline
  dsimp only
  rw [hbars, hlast]
  exact hcuts

theorem filter_commas {marks : List (Nat × Char)} (h : ∀ mark ∈ marks, mark.2 ≠ ',') :
    marks.filter (·.2 = ',') = [] :=
  List.filter_eq_nil_iff.mpr fun mark hmem heq => h mark hmem (of_decide_eq_true heq)

theorem commas_joined {parts : List Text} (h : ∀ part ∈ parts, Quiet (· ≠ ',') part)
    (idx : Nat) :
    (topLevel .outside idx (joined ',' parts)).2 = .outside ∧
      ((topLevel .outside idx (joined ',' parts)).1.filter (·.2 = ',')).map (·.1) =
        separators idx parts := by
  induction parts generalizing idx with
  | nil => exact ⟨rfl, rfl⟩
  | cons part later ih =>
    have hpart := h part List.mem_cons_self idx
    cases later with
    | nil =>
      refine ⟨hpart.1, ?_⟩
      change ((topLevel .outside idx part).1.filter (·.2 = ',')).map (·.1) = []
      rw [filter_commas hpart.2]
      rfl
    | cons next later =>
      obtain ⟨hlast, hcommas⟩ := ih (fun part' hmem => h part' (List.mem_cons_of_mem _ hmem))
        (idx + byteLen part + 1)
      have hcomma : Scan.outside.pass ',' = none := rfl
      have hsize : (',' : Char).utf8Size = 1 := rfl
      change (topLevel .outside idx (part ++ ',' :: joined ',' (next :: later))).2 = _ ∧
        ((topLevel .outside idx (part ++ ',' :: joined ',' (next :: later))).1.filter
          (·.2 = ',')).map (·.1) = _
      rw [topLevel_append, hpart.1, topLevel_look hcomma, hsize]
      refine ⟨hlast, ?_⟩
      have hkeep : ∀ (i : Nat) (l : List (Nat × Char)),
          ((i, ',') :: l).filter (·.2 = ',') = (i, ',') :: l.filter (·.2 = ',') := fun _ _ => rfl
      dsimp only
      rw [List.filter_append, filter_commas hpart.2, List.nil_append, hkeep, List.map_cons, hcommas]
      rfl

theorem splitArgs_joined {parts : List Text} (hne : parts ≠ [])
    (h : ∀ part ∈ parts, Quiet (· ≠ ',') part) (source : Text) (argsOffset : Nat) :
    ∃ cuts, splitArgs source (joined ',' parts) argsOffset = .ok cuts ∧
      cuts.map (·.1) = parts := by
  obtain ⟨hlast, hcommas⟩ := commas_joined h 0
  obtain ⟨cuts, hcuts, hparts⟩ := cutAt_joined ',' rfl [] hne
  refine ⟨cuts.map fun piece : Text × Nat => (piece.1, argsOffset + piece.2), ?_, ?_⟩
  · unfold splitArgs
    dsimp only
    rw [hlast, hcommas]
    have hcuts' : cutAt (joined ',' parts) 0 (separators 0 parts) = .ok cuts := hcuts
    rw [hcuts']
    rfl
  · rw [List.map_map]
    exact hparts

end CodeStory.Query
