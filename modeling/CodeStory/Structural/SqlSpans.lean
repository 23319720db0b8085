import CodeStory.Structural.SqlEntities

/-!
# Identifiers of SQL lines

The parsers of a line never get stuck, and what they find is the identifier at the offset they
give. Only the search for references gets stuck, where going on one byte behind a keyword leads
behind the line or into a character.
-/

set_option autoImplicit false

namespace CodeStory.Structural

open Utf8Text
open CodeStory.Graph (NodeKind)

/-! ## Positions -/

section Blanks

variable {line t a b : Text} {c : Char} {n : Nat}

/-- From a boundary the blanks lead to a boundary. -/
theorem skipAsciiWhitespace_append (a b : Text) :
    skipAsciiWhitespace (a ++ b) (byteLen a) = byteLen (a ++ b.takeWhile isAsciiBlank) := by
  unfold skipAsciiWhitespace
  rw [encode_append, ← length_encode (t := a), List.drop_left, sameTest_blank.takeWhile,
    length_encode,
    length_encode, byteLen_append]

theorem isBoundary_skip (h : IsBoundary line n) : IsBoundary line (skipAsciiWhitespace line n) := by
  obtain ⟨a, b, rfl, rfl⟩ := h
  rw [skipAsciiWhitespace_append]
  refine ⟨a ++ b.takeWhile isAsciiBlank, b.dropWhile isAsciiBlank, ?_, rfl⟩
  rw [List.append_assoc, List.takeWhile_append_dropWhile]

theorem exists_sliceFrom (h : IsBoundary line n) :
    ∃ rest, sliceFrom line n = some rest := by
  obtain ⟨a, b, rfl, rfl⟩ := h
  exact ⟨b, sliceFrom_append a b⟩

theorem isBoundary_of_upper (h : IsBoundary (toAsciiUppercase line) n) : IsBoundary line n :=
  Utf8Text.IsBoundary.of_map utf8Size_toUpper h

theorem isBoundary_of_lower (h : IsBoundary (toAsciiLowercase line) n) : IsBoundary line n :=
  Utf8Text.IsBoundary.of_map utf8Size_toLower h

theorem byteLen_toAsciiLowercase (t : Text) : byteLen (toAsciiLowercase t) = byteLen t :=
  byteLen_map utf8Size_toLower t

/-- Behind an occurrence there is a boundary. -/
theorem isBoundary_of_find {pattern : Text} (h : find pattern t = some n) :
    IsBoundary t (n + byteLen pattern) := by
  obtain ⟨a, b, rfl, rfl, -⟩ := find_eq_some h
  refine ⟨a ++ pattern, b, (List.append_assoc _ _ _).symm, ?_⟩
  rw [byteLen_append]

end Blanks

/-! ## Identifiers -/

/-- A text begins with an identifier: what opens it and its own characters. -/
inductive BeginsIdentifier : Text → Text → Text → Prop where
  | quoted {quote : Char} {value : Text} (after : Text) (hquote : isQuote quote = true)
      (hne : value ≠ []) (hnot : quote ∉ value) :
      BeginsIdentifier (quote :: (value ++ quote :: after)) [quote] value
  | bare {value after : Text} (hne : value ≠ [])
      (hchars : ∀ c ∈ value, isSqlIdentifierChar c = true)
      (hend : ∀ c ∈ after.head?, isSqlIdentifierChar c = false) :
      BeginsIdentifier (value ++ after) [] value

/-- At an offset of a line there are the characters of an identifier. -/
def Locates (line value : Text) (start : Nat) : Prop :=
  ∃ front opening rest, line = front ++ rest ∧ BeginsIdentifier rest opening value ∧
    byteLen (front ++ opening) = start

/-- The identifier behind the blanks at the beginning of a text. -/
def FirstIdentifier (text value : Text) : Prop :=
  ∃ blanks opening rest, text = blanks ++ rest ∧ (∀ c ∈ blanks, isAsciiBlank c = true) ∧
    BeginsIdentifier rest opening value

section Identifiers

variable {line text value rest opening : Text} {index start : Nat}
  {identifier : LocatedSqlIdentifier}

theorem BeginsIdentifier.ne_nil (h : BeginsIdentifier rest opening value) : value ≠ [] := by
  cases h with
  | quoted after hquote hne hnot => exact hne
  | bare hne hchars hend => exact hne

theorem BeginsIdentifier.exists_after (h : BeginsIdentifier rest opening value) :
    ∃ after, rest = opening ++ (value ++ after) := by
  cases h with
  | @quoted quote value after hquote hne hnot => exact ⟨quote :: after, rfl⟩
  | @bare value after hne hchars hend => exact ⟨after, rfl⟩

theorem Locates.slice (h : Locates line value start) :
    Utf8Text.slice line start (start + byteLen value) = some value := by
  obtain ⟨front, opening, rest, rfl, hbegins, rfl⟩ := h
  obtain ⟨after, rfl⟩ := hbegins.exists_after
  rw [← List.append_assoc]
  exact slice_append (front ++ opening) value after

theorem Locates.ne_nil (h : Locates line value start) : value ≠ [] := by
  obtain ⟨front, opening, rest, -, hbegins, -⟩ := h
  exact hbegins.ne_nil

theorem Locates.le (h : Locates line value start) : start + byteLen value ≤ byteLen line := by
  obtain ⟨a, b, rfl, rfl, -⟩ := slice_eq_some.mp h.slice
  rw [byteLen_append, byteLen_append]
  omega

/-- Nothing, or an identifier with which the text behind the blanks begins. -/
def IdentifierAnswer (front rest : Text) (answer : Option (Option LocatedSqlIdentifier)) : Prop :=
  answer = some none ∨ ∃ opening value, BeginsIdentifier rest opening value ∧
    answer = some (some ⟨value, byteLen (front ++ opening), byteLen value⟩)

theorem locatedSqlIdentifier_quoted {first : Char} (front rest : Text)
    (hquote : isQuote first = true)
    (hstart : skipAsciiWhitespace (front ++ first :: rest) index = byteLen front) :
    IdentifierAnswer front (first :: rest)
      (locatedSqlIdentifier (front ++ first :: rest) index) := by
  have hinner : byteLen front + first.utf8Size = byteLen (front ++ [first]) := by
    rw [byteLen_append, byteLen_cons, byteLen_nil, Nat.add_zero]
  have hwhole : front ++ first :: rest = (front ++ [first]) ++ rest := by
    rw [List.append_assoc, List.singleton_append]
  unfold locatedSqlIdentifier
  dsimp only
  rw [hstart, sliceFrom_append]
  change IdentifierAnswer _ _ (if isQuote first = true then _ else _)
  rw [if_pos hquote, hinner, hwhole, sliceFrom_append, Option.bind_eq_bind, Option.bind_some]
  cases hfind : find [first] rest with
  | none =>
    left
    rfl
  | some offset =>
    obtain ⟨value, after, rfl, rfl, hleast⟩ := find_eq_some hfind
    have hnot : first ∉ value := by
      intro hmem
      obtain ⟨a, b, rfl⟩ := List.append_of_mem hmem
      have hle := hleast a (b ++ ([first] ++ after)) (by simp)
      have hpos := first.utf8Size_pos
      rw [byteLen_append, byteLen_cons] at hle
      omega
    change IdentifierAnswer _ _
      (if byteLen (front ++ [first]) < byteLen value + byteLen (front ++ [first]) then _ else _)
    by_cases hpos : byteLen (front ++ [first]) < byteLen value + byteLen (front ++ [first])
    · right
      have hne : value ≠ [] := by
        intro hnil
        rw [hnil, byteLen_nil] at hpos
        omega
      refine ⟨[first], value, BeginsIdentifier.quoted after hquote hne hnot, ?_⟩
      rw [if_pos hpos, Nat.add_comm (byteLen value), slice_append, Nat.add_sub_cancel_left]
      rfl
    · left
      rw [if_neg hpos]
      rfl

theorem locatedSqlIdentifier_bare {first : Char} (front rest : Text)
    (hquote : ¬ isQuote first = true)
    (hstart : skipAsciiWhitespace (front ++ first :: rest) index = byteLen front) :
    IdentifierAnswer front (first :: rest)
      (locatedSqlIdentifier (front ++ first :: rest) index) := by
  unfold locatedSqlIdentifier
  dsimp only
  rw [hstart, sliceFrom_append]
  change IdentifierAnswer _ _ (if isQuote first = true then _ else _)
  rw [if_neg hquote]
  generalize first :: rest = text
  have hsplit := List.takeWhile_append_dropWhile (p := isSqlIdentifierChar) (l := text)
  have hchars : ∀ c ∈ text.takeWhile isSqlIdentifierChar, isSqlIdentifierChar c = true :=
    fun c hc => List.mem_takeWhile_imp hc
  have hend : ∀ c ∈ (text.dropWhile isSqlIdentifierChar).head?, isSqlIdentifierChar c = false := by
    intro c hc
    have h := List.head?_dropWhile_not isSqlIdentifierChar text
    rw [Option.mem_def] at hc
    rw [hc] at h
    exact h
  rw [← hsplit]
  generalize text.takeWhile isSqlIdentifierChar = value at *
  generalize text.dropWhile isSqlIdentifierChar = after at *
  have hword : (value ++ after).takeWhile isSqlIdentifierChar = value := by
    rw [List.takeWhile_append_of_pos hchars]
    cases after with
    | nil => exact List.append_nil value
    | cons c after =>
      rw [List.takeWhile_cons_of_neg (by rw [hend c rfl]; exact Bool.false_ne_true),
        List.append_nil]
  rw [hword]
  change IdentifierAnswer _ _ (if 0 < byteLen value then _ else _)
  by_cases hpos : 0 < byteLen value
  · right
    have hne : value ≠ [] := by
      intro hnil
      rw [hnil, byteLen_nil] at hpos
      omega
    refine ⟨[], value, BeginsIdentifier.bare hne hchars hend, ?_⟩
    rw [if_pos hpos, sliceTo_append, List.append_nil]
    rfl
  · left
    rw [if_neg hpos]
    rfl

/-- What the parser does at a boundary, by the text behind it. -/
theorem locatedSqlIdentifier_cases (front rest : Text)
    (hstart : skipAsciiWhitespace line index = byteLen front) (hline : line = front ++ rest) :
    IdentifierAnswer front rest (locatedSqlIdentifier line index) := by
  subst hline
  cases rest with
  | nil =>
    left
    unfold locatedSqlIdentifier
    dsimp only
    rw [hstart, sliceFrom_append]
    rfl
  | cons first rest =>
    by_cases hquote : isQuote first = true
    · exact locatedSqlIdentifier_quoted front rest hquote hstart
    · exact locatedSqlIdentifier_bare front rest hquote hstart

theorem locatedSqlIdentifier_total (line : Text) (index : Nat) :
    ∃ answer, locatedSqlIdentifier line index = some answer := by
  cases hslice : sliceFrom line (skipAsciiWhitespace line index) with
  | none =>
    refine ⟨none, ?_⟩
    unfold locatedSqlIdentifier
    dsimp only
    rw [hslice]
    rfl
  | some rest =>
    obtain ⟨front, hline, hfront⟩ := sliceFrom_eq_some.mp hslice
    rcases locatedSqlIdentifier_cases front rest hfront.symm hline with h | ⟨_, _, _, h⟩
    · exact ⟨_, h⟩
    · exact ⟨_, h⟩

theorem locatedSqlIdentifier_sound (h : locatedSqlIdentifier line index = some (some identifier)) :
    Locates line identifier.value identifier.start ∧ identifier.len = byteLen identifier.value := by
  cases hslice : sliceFrom line (skipAsciiWhitespace line index) with
  | none =>
    unfold locatedSqlIdentifier at h
    dsimp only at h
    rw [hslice] at h
    cases h
  | some rest =>
    obtain ⟨front, hline, hfront⟩ := sliceFrom_eq_some.mp hslice
    rcases locatedSqlIdentifier_cases front rest hfront.symm hline with
      hnone | ⟨opening, value, hbegins, hsome⟩
    · rw [hnone] at h
      cases h
    · rw [hsome] at h
      cases h
      exact ⟨⟨front, opening, rest, hline, hbegins, rfl⟩, rfl⟩

theorem takeSqlIdent_total (text : Text) : ∃ answer, takeSqlIdent text = some answer := by
  obtain ⟨answer, h⟩ := locatedSqlIdentifier_total text 0
  unfold takeSqlIdent
  rw [h]
  exact ⟨_, rfl⟩

theorem takeSqlIdent_sound (h : takeSqlIdent text = some (some value)) :
    FirstIdentifier text value := by
  unfold takeSqlIdent at h
  obtain ⟨answer, hanswer, hvalue⟩ := Option.map_eq_some_iff.mp h
  have hskip : skipAsciiWhitespace text 0 = byteLen (text.takeWhile isAsciiBlank) :=
    skipAsciiWhitespace_append [] text
  have htext : text = text.takeWhile isAsciiBlank ++ text.dropWhile isAsciiBlank :=
    List.takeWhile_append_dropWhile.symm
  rcases locatedSqlIdentifier_cases (text.takeWhile isAsciiBlank) (text.dropWhile isAsciiBlank)
    hskip htext with hnone | ⟨opening, value', hbegins, hsome⟩
  · rw [hnone] at hanswer
    cases hanswer
    cases hvalue
  · rw [hsome] at hanswer
    cases hanswer
    cases hvalue
    exact ⟨_, opening, _, htext, fun c hc => List.mem_takeWhile_imp hc, hbegins⟩

/-- The name with its schema, `public` where none is written. -/
def withSchema (part : Text) : Text :=
  if '.' ∈ part then part else qualifiedKey publicSchema part

theorem splitQualifiedIdent_total (text : Text) :
    ∃ answer, splitQualifiedIdent text = some answer := by
  obtain ⟨answer, h⟩ := takeSqlIdent_total text
  unfold splitQualifiedIdent
  rw [h, Option.bind_eq_bind, Option.bind_some]
  apply whenSome_total
  intro token _
  cases Text.splitOnce '.' token with
  | none => exact ⟨_, rfl⟩
  | some halves => exact ⟨_, rfl⟩

theorem splitQualifiedIdent_sound {schema name : Text}
    (h : splitQualifiedIdent text = some (some (schema, name))) :
    ∃ part, FirstIdentifier text part ∧ qualifiedKey schema name = withSchema part := by
  obtain ⟨answer, htake⟩ := takeSqlIdent_total text
  unfold splitQualifiedIdent at h
  rw [htake, Option.bind_eq_bind, Option.bind_some] at h
  obtain ⟨token, rfl, htoken⟩ := whenSome_eq_some h
  refine ⟨token, takeSqlIdent_sound htake, ?_⟩
  unfold withSchema
  cases hsplit : Text.splitOnce '.' token with
  | none =>
    rw [hsplit] at htoken
    cases htoken
    rw [if_neg (Text.splitOnce_eq_none.mp hsplit)]
  | some halves =>
    rw [hsplit] at htoken
    cases htoken
    obtain ⟨rfl, -⟩ := Text.splitOnce_eq_some hsplit
    rw [if_pos (List.mem_append_right _ List.mem_cons_self)]
    rfl

end Identifiers

/-! ## Statements -/

/-- The name of a table, a view or a routine, from the identifier at an offset. -/
def NamesObject (line : Text) (object : LocatedQualifiedName) : Prop :=
  ∃ value part, Locates line value object.start ∧ object.len = byteLen value ∧
    FirstIdentifier value part ∧ qualifiedKey object.schema object.name = withSchema part

section Statements

variable {line keyword : Text} {identifier : LocatedSqlIdentifier} {object : LocatedQualifiedName}

theorem isBoundary_behindKeyword {index : Nat}
    (h : find (toAsciiLowercase keyword) (toAsciiLowercase line) = some index) :
    IsBoundary line (index + byteLen keyword) := by
  have hbehind := isBoundary_of_find h
  rw [byteLen_toAsciiLowercase] at hbehind
  exact isBoundary_of_lower hbehind

theorem parseQualifiedName_total (line keyword : Text) :
    ∃ answer, parseQualifiedNameAfterKeyword line keyword = some answer := by
  apply whenSome_total
  intro index hfind
  obtain ⟨rest, hrest⟩ := exists_sliceFrom (isBoundary_skip (isBoundary_behindKeyword hfind))
  dsimp only
  rw [hrest, Option.bind_eq_bind, Option.bind_some]
  generalize (if ifNotExists <+: toAsciiUppercase rest then _ else _ : Nat) = start
  obtain ⟨answer, hanswer⟩ := locatedSqlIdentifier_total line start
  rw [hanswer, Option.bind_eq_bind, Option.bind_some]
  apply whenSome_total
  intro identifier _
  obtain ⟨qualified, hqualified⟩ := splitQualifiedIdent_total identifier.value
  rw [hqualified]
  exact ⟨_, rfl⟩

theorem parseQualifiedName_sound
    (h : parseQualifiedNameAfterKeyword line keyword = some (some object)) :
    NamesObject line object := by
  obtain ⟨index, hfind, h⟩ := whenSome_eq_some h
  obtain ⟨rest, hrest⟩ := exists_sliceFrom (isBoundary_skip (isBoundary_behindKeyword hfind))
  dsimp only at h
  rw [hrest, Option.bind_eq_bind, Option.bind_some] at h
  generalize (if ifNotExists <+: toAsciiUppercase rest then _ else _ : Nat) = start at h
  obtain ⟨answer, hanswer⟩ := locatedSqlIdentifier_total line start
  rw [hanswer, Option.bind_eq_bind, Option.bind_some] at h
  obtain ⟨identifier, rfl, hname⟩ := whenSome_eq_some h
  obtain ⟨qualified, hqualified⟩ := splitQualifiedIdent_total identifier.value
  rw [hqualified, Option.bind_eq_bind, Option.bind_some] at hname
  obtain ⟨⟨schema, name⟩, rfl, rfl⟩ := Option.map_eq_some_iff.mp (Option.some.inj hname)
  obtain ⟨hlocates, hlen⟩ := locatedSqlIdentifier_sound hanswer
  obtain ⟨part, hfirst, hkey⟩ := splitQualifiedIdent_sound hqualified
  exact ⟨identifier.value, part, hlocates, hlen, hfirst, hkey⟩

theorem nextIdent_total (line : Text) : ∃ answer, nextIdent line = some answer := by
  apply whenSome_total
  intro keyword _
  exact locatedSqlIdentifier_total _ _

theorem nextIdent_sound (h : nextIdent line = some (some identifier)) :
    Locates line identifier.value identifier.start ∧ identifier.len = byteLen identifier.value := by
  obtain ⟨keyword, _, h⟩ := whenSome_eq_some h
  exact locatedSqlIdentifier_sound h

theorem nextTokenAfter_total (line keyword : Text) :
    ∃ answer, nextTokenAfter line keyword = some answer := by
  apply whenSome_total
  intro index _
  exact locatedSqlIdentifier_total _ _

theorem nextTokenAfter_sound (h : nextTokenAfter line keyword = some (some identifier)) :
    Locates line identifier.value identifier.start ∧ identifier.len = byteLen identifier.value := by
  obtain ⟨index, _, h⟩ := whenSome_eq_some h
  exact locatedSqlIdentifier_sound h

/-- Behind a keyword that is found in the upper-case copy the line can be cut. -/
theorem sliceFrom_behindUpper {index : Nat}
    (h : find keyword (toAsciiUppercase line) = some index) :
    ∃ rest, sliceFrom line (index + byteLen keyword) = some rest :=
  exists_sliceFrom (isBoundary_of_upper (isBoundary_of_find h))

theorem parseCreateIndex_total (line : Text) : ∃ answer, parseCreateIndex line = some answer := by
  unfold parseCreateIndex
  dsimp only
  split
  · exact ⟨none, rfl⟩
  · obtain ⟨answer, hanswer⟩ := nextTokenAfter_total line indexKeyword
    rw [hanswer, Option.bind_eq_bind, Option.bind_some]
    apply whenSome_total
    intro identifier _
    apply whenSome_total
    intro index hfind
    obtain ⟨rest, hrest⟩ := sliceFrom_behindUpper hfind
    have hfour : byteLen onKeyword = 4 := rfl
    rw [hfour] at hrest
    obtain ⟨qualified, hqualified⟩ := splitQualifiedIdent_total (Text.trimChars rest)
    rw [hrest, Option.bind_eq_bind, Option.bind_some, hqualified]
    exact ⟨_, rfl⟩

theorem parseCreateIndex_sound {schema table : Text}
    (h : parseCreateIndex line = some (some (schema, table, identifier))) :
    Locates line identifier.value identifier.start ∧ identifier.len = byteLen identifier.value := by
  unfold parseCreateIndex at h
  dsimp only at h
  split at h
  · cases h
  · obtain ⟨answer, hanswer⟩ := nextTokenAfter_total line indexKeyword
    rw [hanswer, Option.bind_eq_bind, Option.bind_some] at h
    obtain ⟨name, rfl, hname⟩ := whenSome_eq_some h
    obtain ⟨index, hfind, hindex⟩ := whenSome_eq_some hname
    obtain ⟨rest, hrest⟩ := sliceFrom_behindUpper hfind
    have hfour : byteLen onKeyword = 4 := rfl
    rw [hfour] at hrest
    obtain ⟨qualified, hqualified⟩ := splitQualifiedIdent_total (Text.trimChars rest)
    rw [hrest, Option.bind_eq_bind, Option.bind_some, hqualified, Option.bind_eq_bind,
      Option.bind_some] at hindex
    obtain ⟨⟨schema', table'⟩, rfl, hmap⟩ := Option.map_eq_some_iff.mp (Option.some.inj hindex)
    cases hmap
    exact nextTokenAfter_sound hanswer

theorem parseViewBaseTable_total (line : Text) :
    ∃ answer, parseViewBaseTable line = some answer := by
  apply whenSome_total
  intro index hfind
  obtain ⟨rest, hrest⟩ := sliceFrom_behindUpper hfind
  have hsix : byteLen fromKeyword = 6 := rfl
  rw [hsix] at hrest
  obtain ⟨qualified, hqualified⟩ := splitQualifiedIdent_total (Text.trimChars rest)
  rw [hrest, Option.bind_eq_bind, Option.bind_some]
  dsimp only
  rw [hqualified]
  exact ⟨_, rfl⟩

theorem parseRoutine_total (line : Text) : ∃ answer, parseRoutine line = some answer := by
  obtain ⟨answer, hanswer⟩ := parseQualifiedName_total line createFunction
  unfold parseRoutine
  rw [hanswer, Option.bind_eq_bind, Option.bind_some]
  cases answer with
  | none => exact parseQualifiedName_total line createProcedure
  | some object => exact ⟨_, rfl⟩

theorem parseRoutine_sound (h : parseRoutine line = some (some object)) :
    NamesObject line object := by
  obtain ⟨answer, hanswer⟩ := parseQualifiedName_total line createFunction
  unfold parseRoutine at h
  rw [hanswer, Option.bind_eq_bind, Option.bind_some] at h
  cases answer with
  | none => exact parseQualifiedName_sound h
  | some found =>
    cases h
    exact parseQualifiedName_sound hanswer

end Statements

/-! ## The search for references -/

/-- The first occurrence of a keyword, with the texts before and behind it. -/
def FirstOccurrence (keyword t before behind : Text) : Prop :=
  t = before ++ (keyword ++ behind) ∧
    ∀ a b, t = a ++ (keyword ++ b) → byteLen before ≤ byteLen a

/-- Going from one occurrence to the first that begins later than one byte behind it, a search
comes to one with nothing behind it, or with a character of several bytes. -/
inductive MeetsEdge (keyword : Text) : Text → Prop where
  | edge {t before behind : Text} (hfirst : FirstOccurrence keyword t before behind)
      (hedge : ∀ c ∈ behind.head?, c.utf8Size ≠ 1) : MeetsEdge keyword t
  | later {t before rest : Text} {c : Char}
      (hfirst : FirstOccurrence keyword t before (c :: rest)) (hsize : c.utf8Size = 1)
      (hrest : MeetsEdge keyword rest) : MeetsEdge keyword t

section References

variable {line keyword t before behind defaultSchema : Text}

theorem FirstOccurrence.unique {before' behind' : Text}
    (h : FirstOccurrence keyword t before behind)
    (h' : FirstOccurrence keyword t before' behind') : behind = behind' := by
  have hle := h.2 _ _ h'.1
  have hle' := h'.2 _ _ h.1
  have heq := h.1.symm.trans h'.1
  have hsame := (append_inj heq (Nat.le_antisymm hle hle')).2
  exact List.append_cancel_left hsame

theorem not_meetsEdge (h : find keyword t = none) : ¬ MeetsEdge keyword t := by
  intro hmeets
  cases hmeets with
  | edge hfirst hedge => exact find_eq_none h _ _ hfirst.1
  | later hfirst hsize hrest => exact find_eq_none h _ _ hfirst.1

theorem firstOccurrence_of_find {offset : Nat} (h : find keyword t = some offset) :
    ∃ before behind, FirstOccurrence keyword t before behind ∧ byteLen before = offset := by
  obtain ⟨before, behind, heq, rfl, hleast⟩ := find_eq_some h
  exact ⟨before, behind, ⟨heq, hleast⟩, rfl⟩

/-- What meeting an edge comes to at the first occurrence. -/
theorem meetsEdge_iff (h : FirstOccurrence keyword t before behind) :
    MeetsEdge keyword t ↔ (∀ c ∈ behind.head?, c.utf8Size ≠ 1) ∨
      ∃ c rest, behind = c :: rest ∧ c.utf8Size = 1 ∧ MeetsEdge keyword rest := by
  constructor
  · intro hmeets
    cases hmeets with
    | edge hfirst hedge =>
      left
      rw [h.unique hfirst]
      exact hedge
    | later hfirst hsize hrest =>
      right
      exact ⟨_, _, h.unique hfirst, hsize, hrest⟩
  · intro hcases
    rcases hcases with hedge | ⟨c, rest, rfl, hsize, hrest⟩
    · exact MeetsEdge.edge h hedge
    · exact MeetsEdge.later h hsize hrest

/-- The search from an offset on fails exactly if it meets an edge. -/
theorem referencedFrom_eq_none {front : Text} {fuel : Nat}
    (hupper : toAsciiUppercase line = front ++ t) (hfuel : byteLen t < fuel) :
    referencedFrom line (toAsciiUppercase line) defaultSchema keyword fuel (byteLen front) = none ↔
      MeetsEdge keyword t := by
  induction fuel generalizing front t with
  | zero => omega
  | succ fuel ih =>
    have hslice : sliceFrom (toAsciiUppercase line) (byteLen front) = some t := by
      rw [hupper, sliceFrom_append]
    unfold referencedFrom
    rw [hslice, Option.bind_eq_bind, Option.bind_some]
    cases hfind : find keyword t with
    | none =>
      refine iff_of_false ?_ (not_meetsEdge hfind)
      intro h
      cases h
    | some offset =>
      obtain ⟨before, behind, hfirst, rfl⟩ := firstOccurrence_of_find hfind
      obtain ⟨rfl, hleast⟩ := hfirst
      have hbehind : byteLen front + byteLen before + byteLen keyword =
          byteLen (front ++ before ++ keyword) := by
        rw [byteLen_append, byteLen_append]
      have hwhole : toAsciiUppercase line = (front ++ before ++ keyword) ++ behind := by
        rw [hupper]
        simp only [List.append_assoc]
      have hboundary : IsBoundary line (byteLen (front ++ before ++ keyword)) := by
        apply isBoundary_of_upper
        rw [hwhole]
        exact IsBoundary.of_append _ _
      obtain ⟨rest, hrest⟩ := exists_sliceFrom hboundary
      obtain ⟨qualified, hqualified⟩ := splitQualifiedIdent_total (Text.trimChars rest)
      rw [meetsEdge_iff ⟨rfl, hleast⟩]
      dsimp only
      rw [hbehind, hrest, Option.bind_eq_bind, Option.bind_some, hqualified, Option.bind_eq_bind,
        Option.bind_some]
      have hmore : ∀ (x : Option (List Text)) (found : List Text),
          (x.bind fun more => pure (found ++ more)) = none ↔ x = none := by
        intro x found
        cases x with
        | none => exact iff_of_true rfl rfl
        | some more => exact iff_of_false (fun h => nomatch h) (fun h => nomatch h)
      rw [hmore]
      by_cases hedge : ∀ c ∈ behind.head?, c.utf8Size ≠ 1
      · refine iff_of_true ?_ (Or.inl hedge)
        have hnone : sliceFrom (toAsciiUppercase line)
            (byteLen (front ++ before ++ keyword) + 1) = none := by
          rw [hwhole]
          unfold sliceFrom
          rw [Option.map_eq_none_iff, ← Option.not_isSome_iff_eq_none, ← isBoundary_iff]
          intro hbound
          cases behind with
          | nil =>
            have hle := hbound.le
            rw [List.append_nil] at hle
            omega
          | cons c behind =>
            have hsize := hedge c rfl
            have hpos := c.utf8Size_pos
            have hout := hbound.outside
            omega
        cases fuel with
        | zero => rfl
        | succ fuel =>
          unfold referencedFrom
          rw [hnone]
          rfl
      · obtain ⟨c, rest', rfl, hsize⟩ : ∃ c rest', behind = c :: rest' ∧ c.utf8Size = 1 := by
          cases behind with
          | nil => exact absurd (fun c hc => absurd hc (by simp)) hedge
          | cons c rest' =>
            refine ⟨c, rest', rfl, ?_⟩
            by_contra hsize
            apply hedge
            intro d hd
            cases hd
            exact hsize
        have hnext : toAsciiUppercase line = (front ++ before ++ keyword ++ [c]) ++ rest' := by
          rw [hwhole]
          simp only [List.append_assoc, List.singleton_append]
        have hoffset : byteLen (front ++ before ++ keyword) + 1 =
            byteLen (front ++ before ++ keyword ++ [c]) := by
          rw [byteLen_append (b := [c]), byteLen_cons, hsize, byteLen_nil]
        have hlt : byteLen rest' < fuel := by
          rw [byteLen_append, byteLen_append, byteLen_cons] at hfuel
          omega
        rw [hoffset, ih hnext hlt]
        constructor
        · intro hmeets
          exact Or.inr ⟨c, rest', rfl, hsize, hmeets⟩
        · intro hcases
          rcases hcases with hall | ⟨d, rest, heq, -, hmeets⟩
          · exact absurd hsize (hall c rfl)
          · cases heq
            exact hmeets

theorem mapM_eq_none {α β : Type} {f : α → Option β} {l : List α} :
    l.mapM f = none ↔ ∃ a ∈ l, f a = none := by
  induction l with
  | nil => exact iff_of_false (fun h => nomatch h) (by simp)
  | cons a l ih =>
    simp only [List.mem_cons, exists_eq_or_imp]
    rw [List.mapM_cons, ← ih]
    cases f a with
    | none => exact iff_of_true rfl (Or.inl rfl)
    | some b =>
      cases l.mapM f with
      | none => exact iff_of_true rfl (Or.inr rfl)
      | some bs => exact iff_of_false (fun h => nomatch h) (by simp)

theorem referencedTables_eq_none :
    referencedTables line defaultSchema = none ↔
      ∃ keyword ∈ referenceKeywords, MeetsEdge keyword (toAsciiUppercase line) := by
  have hmap : referencedTables line defaultSchema = none ↔
      (referenceKeywords.mapM fun keyword => referencedFrom line (toAsciiUppercase line)
        defaultSchema keyword (byteLen (toAsciiUppercase line) + 1) 0) = none := by
    unfold referencedTables
    dsimp only
    generalize (referenceKeywords.mapM fun keyword => referencedFrom line (toAsciiUppercase line)
      defaultSchema keyword (byteLen (toAsciiUppercase line) + 1) 0) = answer
    cases answer with
    | none => exact iff_of_true rfl rfl
    | some tables => exact iff_of_false (fun h => nomatch h) (fun h => nomatch h)
  rw [hmap, mapM_eq_none]
  apply exists_congr
  intro keyword
  apply and_congr_right
  intro _
  have hwhole : toAsciiUppercase line = [] ++ toAsciiUppercase line := rfl
  exact referencedFrom_eq_none hwhole (Nat.lt_succ_self _)

end References

end CodeStory.Structural
