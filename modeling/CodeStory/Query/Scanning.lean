import CodeStory.Query.Language

/-!
# Every slice of the query parser is in order

The offsets the scanners give lie between characters, so no input makes the parser panic. The
parser is a total function, so it also ends on every input.
-/

set_option autoImplicit false

namespace CodeStory.Query

open Utf8Text

variable {t source : Text} {α β : Type}

/-! ## Computations that do not panic -/

def Calm (p : Parsed α) : Prop := p ≠ .error .panicked

theorem Calm.ok (a : α) : Calm (.ok a : Parsed α) := by
  intro h
  cases h

theorem Calm.parseError (source : Text) (offset : Nat) (message : String) :
    Calm (parseError source offset message : Parsed α) := by
  intro h
  cases h

theorem Calm.bind {p : Parsed α} {f : α → Parsed β} (hp : Calm p)
    (hf : ∀ a, p = .ok a → Calm (f a)) : Calm (p >>= f) := by
  cases p with
  | error failure =>
    intro h
    exact hp (by cases h; rfl)
  | ok a => exact hf a rfl

theorem Calm.ite {c : Prop} [Decidable c] {p q : Parsed α} (hp : c → Calm p) (hq : ¬ c → Calm q) :
    Calm (if c then p else q) := by
  split
  · exact hp ‹_›
  · exact hq ‹_›

theorem calm_cut {part : Option Text} (h : part.isSome) : Calm (cut part) := by
  obtain ⟨piece, rfl⟩ := Option.isSome_iff_exists.mp h
  exact .ok piece

theorem sliceFrom_isSome {n : Nat} (h : IsBoundary t n) : (sliceFrom t n).isSome := by
  obtain ⟨a, b, rfl, rfl⟩ := h
  rw [sliceFrom_append]
  rfl

theorem sliceTo_isSome {n : Nat} (h : IsBoundary t n) : (sliceTo t n).isSome := by
  obtain ⟨a, b, rfl, rfl⟩ := h
  rw [sliceTo_append]
  rfl

/-! ## What the scan looks at -/

/-- A character of the text at an offset. -/
def At (t : Text) (idx : Nat) (ch : Char) : Prop := ∃ a b, t = a ++ ch :: b ∧ byteLen a = idx

theorem At.boundary {idx : Nat} {ch : Char} (h : At t idx ch) : IsBoundary t idx := by
  obtain ⟨a, b, rfl, rfl⟩ := h
  exact .of_append a _

theorem At.after {idx : Nat} {ch : Char} (h : At t idx ch) (hsize : ch.utf8Size = 1) :
    IsBoundary t (idx + 1) := by
  obtain ⟨a, b, rfl, rfl⟩ := h
  refine ⟨a ++ [ch], b, ?_, ?_⟩
  · rw [List.append_assoc]
    rfl
  · rw [byteLen_append, byteLen_cons, byteLen_nil, hsize]

theorem At.unique {idx : Nat} {c d : Char} (hc : At t idx c) (hd : At t idx d) : c = d := by
  obtain ⟨a, b, rfl, rfl⟩ := hc
  obtain ⟨a', b', heq, hlen⟩ := hd
  exact (List.cons.inj (append_inj heq hlen.symm).2).1

/-- The marks stand in the text, one behind the other. -/
theorem topLevel_marks (scan : Scan) (front t : Text) :
    (∀ mark ∈ (topLevel scan (byteLen front) t).1, At (front ++ t) mark.1 mark.2) ∧
      (topLevel scan (byteLen front) t).1.Pairwise fun mark later =>
        mark.1 + mark.2.utf8Size ≤ later.1 := by
  have hlow : ∀ (t : Text) (scan : Scan) (idx : Nat), ∀ mark ∈ (topLevel scan idx t).1,
      idx ≤ mark.1 := by
    intro t
    induction t with
    | nil => exact fun _ _ _ h => absurd h List.not_mem_nil
    | cons ch t ih =>
      intro scan idx mark hmem
      unfold topLevel at hmem
      split at hmem
      · have := ih _ _ mark hmem
        omega
      · rcases List.mem_cons.mp hmem with rfl | hmem
        · exact Nat.le_refl _
        · have := ih _ _ mark hmem
          omega
  induction t generalizing scan front with
  | nil => exact ⟨fun _ h => absurd h List.not_mem_nil, List.Pairwise.nil⟩
  | cons ch t ih =>
    have hsplit : front ++ ch :: t = (front ++ [ch]) ++ t := by
      rw [List.append_assoc]
      rfl
    have hlen : byteLen (front ++ [ch]) = byteLen front + ch.utf8Size := by
      rw [byteLen_append]
      rfl
    unfold topLevel
    split
    · rename_i next _
      have h := ih next (front ++ [ch])
      rw [hlen, ← hsplit] at h
      exact h
    · have h := ih scan (front ++ [ch])
      rw [hlen, ← hsplit] at h
      constructor
      · intro mark hmem
        rcases List.mem_cons.mp hmem with rfl | hmem
        · exact ⟨front, t, rfl, rfl⟩
        · exact h.1 mark hmem
      · refine List.pairwise_cons.mpr ⟨fun later hmem => ?_, h.2⟩
        exact hlow t scan _ later hmem

/-- Offsets at which the text can be cut, with one byte between the pieces. -/
def Cuttable (t : Text) (start : Nat) : List Nat → Prop
  | [] => IsBoundary t start
  | idx :: later =>
    IsBoundary t start ∧ start ≤ idx ∧ IsBoundary t idx ∧ Cuttable t (idx + 1) later

theorem calm_cutAt {start : Nat} {idxs : List Nat} (h : Cuttable t start idxs) :
    Calm (cutAt t start idxs) := by
  induction idxs generalizing start with
  | nil => exact (calm_cut (sliceFrom_isSome h)).bind fun part _ => .ok _
  | cons idx later ih =>
    obtain ⟨hstart, hle, hidx, hlater⟩ := h
    apply (calm_cut (slice_isSome hstart hidx hle)).bind
    intro part _
    exact (ih hlater).bind fun parts _ => .ok _

theorem cuttable_of_marks {marks : List (Nat × Char)} {start : Nat} (hstart : IsBoundary t start)
    (hmarks : ∀ mark ∈ marks, At t mark.1 mark.2 ∧ mark.2.utf8Size = 1 ∧ start ≤ mark.1)
    (hpairwise : marks.Pairwise fun mark later => mark.1 + mark.2.utf8Size ≤ later.1) :
    Cuttable t start (marks.map (·.1)) := by
  induction marks generalizing start with
  | nil => exact hstart
  | cons mark marks ih =>
    obtain ⟨hat, hsize, hle⟩ := hmarks mark List.mem_cons_self
    obtain ⟨hahead, hpairwise⟩ := List.pairwise_cons.mp hpairwise
    refine ⟨hstart, hle, hat.boundary, ih (hat.after hsize) ?_ hpairwise⟩
    intro later hmem
    obtain ⟨hat', hsize', -⟩ := hmarks later (List.mem_cons_of_mem _ hmem)
    have := hahead later hmem
    rw [hsize] at this
    exact ⟨hat', hsize', this⟩

/-- Any selection of the one-byte characters a scan looks at cuts the text. -/
theorem cuttable_of_sublist {marks : List (Nat × Char)}
    (h : marks.Sublist (topLevel .outside 0 t).1) (hsize : ∀ mark ∈ marks, mark.2.utf8Size = 1) :
    Cuttable t 0 (marks.map (·.1)) := by
  have hmarks := topLevel_marks .outside [] t
  rw [byteLen_nil, List.nil_append] at hmarks
  apply cuttable_of_marks .zero
  · intro mark hmem
    exact ⟨hmarks.1 mark (h.subset hmem), hsize mark hmem, Nat.zero_le _⟩
  · exact hmarks.2.sublist h

/-! ## The splitters -/

theorem pipelineBars_spec (source : Text) (depth : Int) (marks : List (Nat × Char)) :
    Calm (pipelineBars source depth marks) ∧
      ∀ bars last, pipelineBars source depth marks = .ok (bars, last) →
        ∃ chosen : List (Nat × Char), chosen.Sublist marks ∧ (∀ mark ∈ chosen, mark.2 = '|') ∧
          bars = chosen.map (·.1) := by
  induction marks generalizing depth with
  | nil =>
    refine ⟨.ok _, ?_⟩
    rintro bars last ⟨⟩
    exact ⟨[], List.Sublist.refl _, fun _ h => absurd h List.not_mem_nil, rfl⟩
  | cons mark marks ih =>
    obtain ⟨idx, ch⟩ := mark
    have hskip : ∀ depth' bars last, pipelineBars source depth' marks = .ok (bars, last) →
        ∃ chosen : List (Nat × Char), chosen.Sublist ((idx, ch) :: marks) ∧
          (∀ mark ∈ chosen, mark.2 = '|') ∧
          bars = chosen.map (·.1) := by
      intro depth' bars last h
      obtain ⟨chosen, hsub, hbar, hbars⟩ := (ih depth').2 bars last h
      exact ⟨chosen, hsub.cons _, hbar, hbars⟩
    unfold pipelineBars
    split
    · exact ⟨(ih _).1, hskip _⟩
    · split
      · split
        · exact ⟨.parseError _ _ _, fun _ _ h => by cases h⟩
        · exact ⟨(ih _).1, hskip _⟩
      · split
        · rename_i hbar
          refine ⟨(ih depth).1.bind fun _ _ => .ok _, ?_⟩
          intro bars last h
          cases hrest : pipelineBars source depth marks with
          | error failure =>
            rw [hrest] at h
            cases h
          | ok result =>
            rw [hrest] at h
            obtain ⟨chosen, hsub, hchosen, hbars⟩ := (ih depth).2 result.1 result.2 hrest
            cases h
            refine ⟨(idx, ch) :: chosen, hsub.cons_cons _, ?_, ?_⟩
            · intro mark hmem
              rcases List.mem_cons.mp hmem with rfl | hmem
              · exact hbar.1
              · exact hchosen mark hmem
            · rw [hbars]
              rfl
        · exact ⟨(ih _).1, hskip _⟩

theorem calm_splitPipeline (source : Text) : Calm (splitPipeline source) := by
  unfold splitPipeline
  dsimp only
  obtain ⟨hcalm, hbars⟩ := pipelineBars_spec source 0 (topLevel .outside 0 source).1
  apply hcalm.bind
  rintro ⟨bars, depth⟩ hok
  apply Calm.ite
  · exact fun _ => .parseError _ _ _
  · intro _
    apply Calm.ite
    · exact fun _ => .parseError _ _ _
    · intro _
      obtain ⟨chosen, hsub, hbar, rfl⟩ := hbars bars depth hok
      apply calm_cutAt
      apply cuttable_of_sublist hsub
      intro mark hmem
      rw [hbar mark hmem]
      rfl

theorem calm_splitArgs (source argsSource : Text) (argsOffset : Nat) :
    Calm (splitArgs source argsSource argsOffset) := by
  unfold splitArgs
  dsimp only
  apply Calm.ite
  · exact fun _ => .parseError _ _ _
  · intro _
    apply Calm.bind
    · apply calm_cutAt
      apply cuttable_of_sublist List.filter_sublist
      intro mark hmem
      rw [of_decide_eq_true (List.mem_filter.mp hmem).2]
      rfl
    · exact fun _ _ => .ok _

theorem findTopLevelColon_at {value : Text} {colon : Nat}
    (h : findTopLevelColon value = some colon) : At value colon ':' := by
  obtain ⟨⟨idx, ch⟩, hfind, rfl⟩ := Option.map_eq_some_iff.mp h
  have hmarks := topLevel_marks .outside [] value
  rw [byteLen_nil, List.nil_append] at hmarks
  have hat := hmarks.1 _ (List.mem_of_find?_eq_some hfind)
  have hfound := List.find?_some hfind
  have hch : ch = ':' := of_decide_eq_true hfound
  rw [hch] at hat
  exact hat

/-! ## The parser -/

/-- A text of two bytes or more with one quote at both ends. -/
theorem quoted_of_ends {raw : Text} {q : Char} (hq : q.utf8Size = 1) (hlen : 2 ≤ byteLen raw)
    (hfirst : raw.head? = some q) (hlast : raw.getLast? = some q) :
    ∃ body, raw = q :: (body ++ [q]) := by
  cases raw with
  | nil => cases hfirst
  | cons c rest =>
    obtain rfl := Option.some.inj hfirst
    rcases List.eq_nil_or_concat rest with rfl | ⟨body, d, rfl⟩
    · rw [byteLen_cons, byteLen_nil, hq] at hlen
      omega
    · rw [List.concat_eq_append] at hlast ⊢
      rw [← List.cons_append, List.getLast?_append] at hlast
      obtain rfl := Option.some.inj hlast
      exact ⟨body, rfl⟩

theorem slice_quoted {q : Char} (hq : q.utf8Size = 1) (body : Text) :
    slice (q :: (body ++ [q])) 1 (byteLen (q :: (body ++ [q])) - 1) = some body := by
  have hslice := slice_append [q] body [q]
  have hone : byteLen [q] = 1 := hq
  have hstop : byteLen (q :: (body ++ [q])) - 1 = 1 + byteLen body := by
    rw [byteLen_cons, byteLen_append, hq, hone]
    omega
  rw [hstop]
  rw [hone] at hslice
  exact hslice

theorem calm_parseValue (source raw : Text) (offset : Nat) :
    Calm (parseValue source raw offset) := by
  unfold parseValue
  dsimp only
  apply Calm.ite
  · intro hlen
    apply Calm.ite
    · intro hquotes
      apply Calm.bind
      · apply calm_cut
        have hquoted : ∃ q body, q.utf8Size = 1 ∧ Text.trimChars raw = q :: (body ++ [q]) := by
          rcases hquotes with ⟨hfirst, hlast⟩ | ⟨hfirst, hlast⟩
          · obtain ⟨body, hbody⟩ := quoted_of_ends (q := '\'') rfl hlen hfirst hlast
            exact ⟨_, body, rfl, hbody⟩
          · obtain ⟨body, hbody⟩ := quoted_of_ends (q := '"') rfl hlen hfirst hlast
            exact ⟨_, body, rfl, hbody⟩
        obtain ⟨q, body, hq, hbody⟩ := hquoted
        rw [hbody, slice_quoted hq]
        rfl
      · exact fun _ _ => .ok _
    · intro _
      exact .ite (fun _ => .parseError _ _ _) fun _ => .ok _
  · exact fun _ => .ok _

theorem calm_parseArg (source trimmed : Text) (itemOffset : Nat) :
    Calm (parseArg source trimmed itemOffset) := by
  unfold parseArg
  split
  · rename_i colon hcolon
    have hat := findTopLevelColon_at hcolon
    apply (calm_cut (sliceTo_isSome hat.boundary)).bind
    intro before _
    dsimp only
    apply Calm.ite
    · exact fun _ => .parseError _ _ _
    · intro _
      apply (calm_cut (sliceFrom_isSome (hat.after rfl))).bind
      intro after _
      apply Calm.ite
      · exact fun _ => .parseError _ _ _
      · exact fun _ => (calm_parseValue _ _ _).bind fun _ _ => .ok _
  · exact (calm_parseValue _ _ _).bind fun _ _ => .ok _

theorem calm_parseParts (source : Text) (parts : List (Text × Nat)) :
    Calm (parseParts source parts) := by
  induction parts with
  | nil => exact .ok _
  | cons part parts ih =>
    unfold parseParts
    apply Calm.ite
    · exact fun _ => ih
    · exact fun _ => (calm_parseArg _ _ _).bind fun _ _ => ih.bind fun _ _ => .ok _

theorem calm_parseArgs (source argsSource : Text) (argsOffset : Nat) :
    Calm (parseArgs source argsSource argsOffset) :=
  (calm_splitArgs _ _ _).bind fun _ _ => calm_parseParts _ _

theorem calm_rejectUnknownArgs (source : Text) (allowed : List String) (args : List ParsedArg) :
    Calm (rejectUnknownArgs source allowed args) := by
  induction args with
  | nil => exact .ok _
  | cons arg args ih =>
    unfold rejectUnknownArgs
    split
    · exact ih
    · exact .ite (fun _ => ih) fun _ => .parseError _ _ _

section Readers

variable (args : List ParsedArg) (key : String)

theorem calm_requiredStringArg (index offset : Nat) :
    Calm (requiredStringArg source args key index offset) := by
  unfold requiredStringArg
  split
  · exact .ok _
  · exact .parseError _ _ _

theorem calm_requiredU32Arg (index offset : Nat) :
    Calm (requiredU32Arg source args key index offset) := by
  unfold requiredU32Arg
  split
  · exact .parseError _ _ _
  · split
    · exact .ok _
    · exact .parseError _ _ _

theorem calm_optionalU32Arg : Calm (optionalU32Arg source args key) := by
  unfold optionalU32Arg
  split
  · exact .ok _
  · split
    · exact .ok _
    · exact .parseError _ _ _

theorem calm_optionalDirectionArg : Calm (optionalDirectionArg source args key) := by
  unfold optionalDirectionArg
  split
  · exact .ok _
  · split
    · exact .ok _
    · exact .parseError _ _ _

theorem calm_optionalKindArg : Calm (optionalKindArg source args key) := by
  unfold optionalKindArg
  split
  · exact .ok _
  · split
    · exact .ok _
    · exact .parseError _ _ _

end Readers

theorem calm_buildOperation (source : Text) (segmentOffset : Nat) (name : Text)
    (args : List ParsedArg) (argsOffset : Nat) :
    Calm (buildOperation source segmentOffset name args argsOffset) := by
  have hreject := fun allowed => calm_rejectUnknownArgs source allowed args
  have hrequired : ∀ key, Calm (requiredStringArg source args key 0 argsOffset) :=
    fun key => calm_requiredStringArg args key 0 argsOffset
  unfold buildOperation
  apply Calm.ite
  · intro _
    refine (hreject _).bind fun _ _ => (hrequired _).bind fun _ _ => ?_
    exact (calm_optionalU32Arg _ _).bind fun _ _ =>
      (calm_optionalDirectionArg _ _).bind fun _ _ => .ok _
  · intro _
    apply Calm.ite
    · exact fun _ => (hreject _).bind fun _ _ => (hrequired _).bind fun _ _ => .ok _
    · intro _
      apply Calm.ite
      · exact fun _ => (hreject _).bind fun _ _ => (hrequired _).bind fun _ _ => .ok _
      · intro _
        apply Calm.ite
        · intro _
          refine (hreject _).bind fun _ _ => (calm_optionalKindArg _ _).bind fun _ _ => ?_
          exact (calm_optionalU32Arg _ _).bind fun _ _ => .ok _
        · intro _
          apply Calm.ite
          · exact fun _ => (hreject _).bind fun _ _ =>
              (calm_requiredU32Arg _ _ _ _).bind fun _ _ => .ok _
          · exact fun _ => .parseError _ _ _

theorem calm_parseOperation (source segment : Text) (segmentOffset : Nat) :
    Calm (parseOperation source segment segmentOffset) := by
  unfold parseOperation
  split
  · exact .parseError _ _ _
  · rename_i opening hopen
    split
    · exact .parseError _ _ _
    · rename_i close hclose
      obtain ⟨a, b, hsegment, ha, -⟩ := find_eq_some hopen
      obtain ⟨a', b', hsegment', ha', -⟩ := findLast_eq_some hclose
      have hopenAt : At segment opening '(' := ⟨a, b, hsegment, ha⟩
      have hcloseAt : At segment close ')' := ⟨a', b', hsegment', ha'⟩
      apply Calm.ite
      · exact fun _ => .parseError _ _ _
      · intro hle
        have hne : opening ≠ close := by
          intro heq
          rw [heq] at hopenAt
          exact absurd (hopenAt.unique hcloseAt) (by decide)
        apply (calm_cut (sliceFrom_isSome (hcloseAt.after rfl))).bind
        intro after _
        apply Calm.ite
        · exact fun _ => .parseError _ _ _
        · intro _
          apply (calm_cut (sliceTo_isSome hopenAt.boundary)).bind
          intro name _
          apply (calm_cut (slice_isSome (hopenAt.after rfl) hcloseAt.boundary (by omega))).bind
          intro argsSource _
          exact (calm_parseArgs _ _ _).bind fun _ _ => calm_buildOperation _ _ _ _ _

theorem calm_parseSegments (source : Text) (segments : List (Text × Nat)) :
    Calm (parseSegments source segments) := by
  induction segments with
  | nil => exact .ok _
  | cons segment segments ih =>
    unfold parseSegments
    apply Calm.ite
    · exact fun _ => .parseError _ _ _
    · exact fun _ => (calm_parseOperation _ _ _).bind fun _ _ => ih.bind fun _ _ => .ok _

/-- No text makes the parser panic. -/
theorem calm_parseGraphQuery (source : Text) : Calm (parseGraphQuery source) := by
  apply (calm_splitPipeline source).bind
  intro segments _
  apply (calm_parseSegments source segments).bind
  intro operations _
  exact .ite (fun _ => .parseError _ _ _) fun _ => .ok _

end CodeStory.Query
