import CodeStory.Structural.MarkupTokens
import CodeStory.Structural.ScriptMasks

/-!
# Tokens of shell and PowerShell lines

The name of a function behind its keyword or in front of `()`, and the name of an import, with their
places on the line as it is written. A function name is searched for from the keyword on in the
masked line, an import from its keyword on.
-/

set_option autoImplicit false

namespace CodeStory.Structural

open Utf8Text ByteMask
open CodeStory.Graph (NodeKind)

/-! ## Words -/

section Words

variable {t name : Text}

theorem scriptIdentifier_spec (h : scriptIdentifier t = some name) :
    name ≠ [] ∧ ' ' ∉ name ∧ name <+: t := by
  unfold scriptIdentifier at h
  dsimp only at h
  split at h
  · rename_i hidentifier
    cases h
    refine ⟨?_, ?_, List.takeWhile_prefix _⟩
    · intro hnil
      rw [hnil] at hidentifier
      cases hidentifier
    · intro hmem
      have hspace := List.mem_takeWhile_imp hmem
      cases hspace
  · cases h

theorem isScriptIdentifier_spec (h : isScriptIdentifier name = true) : name ≠ [] ∧ ' ' ∉ name := by
  unfold isScriptIdentifier at h
  rw [Bool.and_eq_true] at h
  constructor
  · intro hnil
    rw [hnil] at h
    cases h.1
  · intro hmem
    have hspace := List.all_eq_true.mp h.2 ' ' hmem
    cases hspace

theorem firstWord_eq (t : Text) : firstWord t =
    if (t.dropWhile isAsciiBlank).takeWhile (fun c => !isAsciiBlank c) = [] then none
    else some ((t.dropWhile isAsciiBlank).takeWhile fun c => !isAsciiBlank c) := rfl

/-- The first word of a text, with the blanks before it. -/
theorem firstWord_spec {word : Text} (h : firstWord t = some word) :
    word ≠ [] ∧ ' ' ∉ word ∧ ∃ after, t = t.takeWhile isAsciiBlank ++ (word ++ after) := by
  rw [firstWord_eq] at h
  split at h
  · cases h
  · rename_i hne
    cases h
    refine ⟨hne, ?_, (t.dropWhile isAsciiBlank).dropWhile fun c => !isAsciiBlank c, ?_⟩
    · intro hmem
      have hspace := List.mem_takeWhile_imp hmem
      cases hspace
    · rw [List.takeWhile_append_dropWhile, List.takeWhile_append_dropWhile]

end Words

/-! ## Shell -/

/-- A function name behind what stands before it on the line and is searched first. -/
def functionToken (front name searched : Text) : LineToken :=
  ⟨.functionNode, "function", name, front, name, searched⟩

def importToken (front raw searched : Text) : LineToken :=
  ⟨.annotationNode, "import", unquoteLabel raw, front, raw, searched⟩

def shellImportToken (lead original keyword : Text) : Option LineToken := do
  let front ← sliceTo original (byteLen keyword)
  let rest ← sliceFrom original (byteLen keyword)
  let raw ← firstWord rest
  if unquoteLabel raw = [] then none
  else
    let searched := front ++ rest.takeWhile isAsciiBlank
    some (importToken (lead ++ searched) raw searched)

/-- The name in front of the first `()`. -/
def parenName (body : Text) : Option Text :=
  (Text.splitOnceText "()".toList body).bind fun halves =>
    if isScriptIdentifier (Text.trimChars halves.1) then some (Text.trimChars halves.1) else none

/-- The token of a line of code, from its masked text and its original. -/
def shellCodeToken (lead body original : Text) : Option LineToken :=
  match Text.stripPrefix shellFunctionKeyword body with
  | some rest => do
    let name ← scriptIdentifier rest
    let front ← sliceTo original (byteLen shellFunctionKeyword)
    some (functionToken (lead ++ front) name shellFunctionKeyword)
  | none =>
    match parenName body with
    | some name => some (functionToken lead name [])
    | none =>
      (shellImportKeywords.find? fun keyword => keyword.isPrefixOf body).bind
        (shellImportToken lead original)

def shellToken (state : ShellState) (line : Text) : Option LineToken := do
  if state.heredocs ≠ [] then none
  else
    let (masked, _) ← analyzeShellLine line state.lexical
    let indent := byteLen (masked.takeWhile Text.isWhiteSpace)
    let body := masked.dropWhile Text.isWhiteSpace
    if body = [] then none
    else shellCodeToken (← sliceTo line indent) body (← sliceFrom line indent)

section Shell

variable {lead body original line name keyword front : Text}

/-- What a name search in the masked text gives is read off the original. -/
theorem shellFunction_agrees {searched after : Text} (hmasks : Masks original body)
    (hbody : body = searched ++ (name ++ after)) (hne : name ≠ []) (hspace : ' ' ∉ name) :
    ∃ front offset, sliceTo original (byteLen searched) = some front ∧
      shellFunction body original name =
        some ⟨.functionNode, "function", name, offset, byteLen name⟩ ∧
      Finds (lead ++ original)
        ⟨.functionNode, "function", name, byteLen lead + offset, byteLen name⟩
        (functionToken (lead ++ front) name searched) := by
  obtain ⟨offset, hoffset⟩ := Option.isSome_iff_exists.mp (@find_isSome name searched after)
  obtain ⟨a, b, hcut, ha, -⟩ := exists_occurrence_of_find hoffset
  rw [hbody] at hmasks
  have hmasks' := hmasks
  rw [hcut] at hmasks'
  obtain ⟨front, rest, hplace, hfront, -⟩ := hmasks.split_append hspace hne
  obtain ⟨front', rest', hfound, hfront', -⟩ := hmasks'.split_append hspace hne
  have hlen := hfront.byteLen_eq
  have hlen' := hfront'.byteLen_eq
  refine ⟨front, offset, ?_, ?_, ?_⟩
  · rw [hplace, hlen, sliceTo_append]
  · have hslice : slice original offset (offset + byteLen name) = some name := by
      rw [hfound, ← ha, hlen', slice_append]
    unfold shellFunction
    rw [hbody, hoffset, Option.bind_eq_bind, Option.bind_some, hslice]
    rfl
  · have hiff := @find_eq_iff searched after name hne
    rw [hoffset] at hiff
    refine ⟨rfl, rfl, rfl, rfl, ⟨hne, rest, ?_⟩, ?_, ?_⟩
    · change lead ++ original = lead ++ front ++ (name ++ rest)
      rw [hplace, List.append_assoc]
    · change byteLen lead + offset = byteLen (lead ++ front) ↔ ¬ OccursBefore name searched
      rw [← hiff, byteLen_append, ← hlen]
      constructor
      · intro heq
        have hsame : offset = byteLen searched := by omega
        rw [hsame]
      · intro heq
        rw [Option.some.inj heq]
    · change byteLen lead + offset + byteLen name ≤ byteLen (lead ++ original)
      rw [hfound, byteLen_append, byteLen_append, byteLen_append]
      omega

theorem shellImport_agrees (lead original keyword : Text) :
    Agree (lead ++ original)
      ((shellImport original keyword).map fun p => { p with offset := byteLen lead + p.offset })
      (shellImportToken lead original keyword) := by
  unfold shellImport shellImportToken
  cases hrest : sliceFrom original (byteLen keyword) with
  | none =>
    cases sliceTo original (byteLen keyword) with
    | none => exact Agree.nothing
    | some front => exact Agree.nothing
  | some rest =>
    obtain ⟨front, horiginal, hfront⟩ := sliceFrom_eq_some.mp hrest
    have hto : sliceTo original (byteLen keyword) = some front := by
      rw [horiginal, ← hfront, sliceTo_append]
    rw [hto]
    simp only [Option.bind_eq_bind, Option.bind_some]
    cases hword : firstWord rest with
    | none => exact Agree.nothing
    | some raw =>
      obtain ⟨hne, -, after, hsplit⟩ := firstWord_spec hword
      rw [Option.bind_some, Option.bind_some]
      by_cases hlabel : unquoteLabel raw = []
      · rw [if_pos hlabel, if_pos hlabel]
        exact Agree.nothing
      · rw [if_neg hlabel, if_neg hlabel]
        generalize rest.takeWhile isAsciiBlank = gap at hsplit ⊢
        have hwhole : original = (front ++ gap) ++ (raw ++ after) := by
          rw [horiginal, hsplit, List.append_assoc]
        obtain ⟨offset, hoffset⟩ :=
          Option.isSome_iff_exists.mp (@find_isSome raw (front ++ gap) after)
        obtain ⟨a, b, hcut, ha, -⟩ := exists_occurrence_of_find hoffset
        have hiff := @find_eq_iff (front ++ gap) after raw hne
        rw [hoffset] at hiff
        rw [← hwhole] at hoffset hcut
        rw [hoffset, Option.bind_some]
        apply Agree.found
        refine ⟨rfl, rfl, rfl, rfl, ⟨hne, after, ?_⟩, ?_, ?_⟩
        · change lead ++ original = lead ++ (front ++ gap) ++ (raw ++ after)
          rw [hwhole, List.append_assoc lead]
        · change byteLen lead + offset = byteLen (lead ++ (front ++ gap)) ↔
            ¬ OccursBefore raw (front ++ gap)
          rw [← hiff, byteLen_append]
          constructor
          · intro heq
            have hsame : offset = byteLen (front ++ gap) := by omega
            rw [hsame]
          · intro heq
            rw [Option.some.inj heq]
        · change byteLen lead + offset + byteLen raw ≤ byteLen (lead ++ original)
          rw [hcut, byteLen_append, byteLen_append, byteLen_append]
          omega

/-- The name in front of `()` is at the beginning of the code. -/
theorem parenName_spec (hhead : ∀ c ∈ body.head?, Text.isWhiteSpace c = false)
    (h : parenName body = some name) : name ≠ [] ∧ ' ' ∉ name ∧ name <+: body := by
  unfold parenName at h
  obtain ⟨⟨front, back⟩, hsplit, hname⟩ := Option.bind_eq_some_iff.mp h
  dsimp only at hname
  split at hname
  · rename_i hidentifier
    cases hname
    obtain ⟨hne, hspace⟩ := isScriptIdentifier_spec hidentifier
    refine ⟨hne, hspace, ?_⟩
    have hbody := Text.splitOnceText_eq_some hsplit
    have htight : front.dropWhile Text.isWhiteSpace = front := by
      cases front with
      | nil => rfl
      | cons c front =>
        apply List.dropWhile_cons_of_neg
        rw [hhead c (by rw [hbody]; rfl)]
        exact Bool.false_ne_true
    have hbegins := trimEndChars_begins (front.dropWhile Text.isWhiteSpace)
    rw [← trimChars_eq, htight] at hbegins
    rw [hbody, List.append_assoc]
    exact hbegins.trans (List.prefix_append front _)
  · cases hname

theorem shellParenName_eq (body : Text) : shellParenName body = some (parenName body) := by
  unfold shellParenName parenName
  rw [find_eq_splitOnceText (by decide)]
  cases hsplit : Text.splitOnceText "()".toList body with
  | none => rfl
  | some halves =>
    have hbody := Text.splitOnceText_eq_some hsplit
    have hslice : sliceTo body (byteLen halves.1) = some halves.1 := by
      rw [hbody, List.append_assoc, sliceTo_append]
    rw [Option.map_some]
    dsimp only
    rw [hslice]
    rfl

theorem shellAnchor_agrees (hmasks : Masks original body)
    (hhead : ∀ c ∈ body.head?, Text.isWhiteSpace c = false) (lead : Text) :
    ∃ found, shellAnchor body original = some found ∧ Agree (lead ++ original)
      (found.map fun p => { p with offset := byteLen lead + p.offset })
      (shellCodeToken lead body original) := by
  unfold shellAnchor shellCodeToken
  cases hkeyword : Text.stripPrefix shellFunctionKeyword body with
  | some rest =>
    have hbody := Text.stripPrefix_eq_some hkeyword
    refine ⟨_, rfl, ?_⟩
    dsimp only
    cases hname : scriptIdentifier rest with
    | none => exact Agree.nothing
    | some name =>
      obtain ⟨hne, hspace, after, rfl⟩ := scriptIdentifier_spec hname
      obtain ⟨front, offset, hfront, hfunction, hfinds⟩ :=
        @shellFunction_agrees lead body original name _ after hmasks hbody hne hspace
      rw [Option.bind_some, hfunction, Option.bind_eq_bind, Option.bind_some, hfront]
      exact Agree.found hfinds
  | none =>
    rw [shellParenName_eq]
    cases hparen : parenName body with
    | some name =>
      obtain ⟨hne, hspace, after, hafter⟩ := parenName_spec hhead hparen
      have hbody : body = [] ++ (name ++ after) := hafter.symm
      obtain ⟨front, offset, hfront, hfunction, hfinds⟩ :=
        @shellFunction_agrees lead body original name _ after hmasks hbody hne hspace
      have hnil : front = [] := by
        have hzero : sliceTo original (byteLen []) = some [] := by
          exact sliceTo_append [] original
        rw [hzero] at hfront
        exact (Option.some.inj hfront).symm
      rw [hnil, List.append_nil] at hfinds
      refine ⟨_, rfl, ?_⟩
      dsimp only
      rw [hfunction]
      exact Agree.found hfinds
    | none =>
      refine ⟨_, rfl, ?_⟩
      unfold shellImportAnchor
      dsimp only
      cases shellImportKeywords.find? fun keyword => keyword.isPrefixOf body with
      | none => exact Agree.nothing
      | some keyword => exact shellImport_agrees lead original keyword

/-- The code of a masked line, and the same part of the line itself. -/
theorem masks_code {masked : Text} (hmasks : Masks line masked)
    (hne : masked.dropWhile Text.isWhiteSpace ≠ []) :
    ∃ lead original, line = lead ++ original ∧
      byteLen lead = byteLen (masked.takeWhile Text.isWhiteSpace) ∧
      Masks original (masked.dropWhile Text.isWhiteSpace) := by
  obtain ⟨c, rest, hrest⟩ := List.exists_cons_of_ne_nil hne
  have hc : c ≠ ' ' := by
    have hnot := List.head?_dropWhile_not Text.isWhiteSpace masked
    rw [hrest] at hnot
    intro heq
    rw [heq] at hnot
    cases hnot
  have hsplit : masked = masked.takeWhile Text.isWhiteSpace ++ c :: rest := by
    rw [← hrest, List.takeWhile_append_dropWhile]
  have hmasks' := hmasks
  rw [hsplit] at hmasks'
  obtain ⟨lead, tail, rfl, hlead, htail⟩ := hmasks'.split hc
  rw [hrest]
  exact ⟨lead, c :: tail, rfl, hlead.byteLen_eq.symm, Masks.keep c htail⟩

theorem head?_dropWhile_blank (t : Text) :
    ∀ c ∈ (t.dropWhile Text.isWhiteSpace).head?, Text.isWhiteSpace c = false := by
  intro c hc
  have h := List.head?_dropWhile_not Text.isWhiteSpace t
  rw [Option.mem_def] at hc
  rw [hc] at h
  exact h

theorem shellLine_answers : AnswersTo shellLine shellToken fun _ => True := by
  intro state _ line
  unfold shellLine shellToken
  cases hheredocs : state.heredocs with
  | cons heredoc heredocs =>
    rw [if_pos (List.cons_ne_nil heredoc heredocs)]
    exact ⟨_, none, rfl, trivial, Agree.nothing⟩
  | nil =>
    rw [if_neg (not_not_intro rfl)]
    obtain ⟨masked, lexical, heredocs, hanalyze, hmasks⟩ :=
      analyzeShellLine_masks line state.lexical
    dsimp only
    rw [hanalyze]
    simp only [Option.bind_eq_bind, Option.bind_some]
    rw [byteLen_trimStart]
    unfold Text.trimStartChars
    by_cases hnil : masked.dropWhile Text.isWhiteSpace = []
    · rw [if_pos hnil, if_pos hnil]
      exact ⟨_, none, rfl, trivial, Agree.nothing⟩
    · rw [if_neg hnil, if_neg hnil]
      obtain ⟨lead, original, rfl, hlead, hcode⟩ := masks_code hmasks hnil
      obtain ⟨found, hfound, hagree⟩ := shellAnchor_agrees hcode (head?_dropWhile_blank masked) lead
      rw [← hlead, sliceFrom_append, sliceTo_append]
      refine ⟨⟨heredocs, lexical⟩, found.map fun p =>
        { p with offset := byteLen lead + p.offset }, ?_,
        trivial, hagree⟩
      simp only [Option.bind_some]
      rw [hfound]
      rfl

end Shell

/-! ## PowerShell -/

def powershellFunctionToken (line blanks written rest : Text) : Option LineToken := do
  let name ← scriptIdentifier rest
  let front ← sliceTo line (byteLen (blanks ++ written))
  some (functionToken front name written)

def powershellImportToken (line blanks written rest : Text) : Option LineToken := do
  let raw ← firstWord rest
  let searched := written ++ rest.takeWhile isAsciiBlank
  let front ← sliceTo line (byteLen (blanks ++ searched))
  some (importToken front raw searched)

/-- The token of a line of code: keywords are in any case, and stand in the search as written. -/
def powershellCodeToken (line blanks body : Text) : Option LineToken :=
  let lower := body.map Char.toLower
  match powershellKeywords.find? fun keyword => keyword.isPrefixOf lower with
  | some keyword =>
    powershellFunctionToken line blanks (body.take keyword.length) (body.drop keyword.length)
  | none =>
    if importModule.isPrefixOf lower then
      powershellImportToken line blanks (body.take importModule.length)
        (body.drop importModule.length)
    else (Text.stripPrefix dotKeyword body).bind (powershellImportToken line blanks dotKeyword)

def powershellToken (depth : Nat) (line : Text) : Option LineToken := do
  let (masked, _) ← maskPowershellBlockComments line depth
  let code := stripScriptComment masked
  let body := code.dropWhile Text.isWhiteSpace
  if body = [] then none else powershellCodeToken line (code.takeWhile Text.isWhiteSpace) body

section PowerShell

variable {line masked blanks body tail : Text} {quote : Option Char} {escaped : Bool}
  {comment : Char} {before rest : Text}

theorem stripCommentFrom_begins :
    stripCommentFrom comment before quote escaped rest <+: before ++ rest := by
  induction rest generalizing before quote escaped with
  | nil =>
    unfold stripCommentFrom
    exact List.prefix_append before []
  | cons c rest ih =>
    have hnext : ∀ quote escaped,
        stripCommentFrom comment (before ++ [c]) quote escaped rest <+: before ++ c :: rest := by
      intro quote escaped
      have h := @ih quote escaped (before ++ [c])
      rwa [List.append_assoc, List.singleton_append] at h
    unfold stripCommentFrom
    split
    · split
      · exact hnext _ _
      · split
        · exact hnext _ _
        · split
          · exact hnext _ _
          · exact hnext _ _
    · split
      · exact hnext _ _
      · split
        · exact List.prefix_append before _
        · exact hnext _ _

theorem stripScriptComment_begins (t : Text) : stripScriptComment t <+: t := stripCommentFrom_begins

/-- What is searched for in the code of a masked line, and the place it is for. -/
theorem masked_found {searched text after : Text} (hmasks : Masks line (blanks ++ body ++ tail))
    (hbody : body = searched ++ (text ++ after)) (hne : text ≠ []) (hspace : ' ' ∉ text)
    (kind : NodeKind) (role : String) (label : Text) :
    ∃ front offset, sliceTo line (byteLen (blanks ++ searched)) = some front ∧
      find text body = some offset ∧
      Finds line ⟨kind, role, label, byteLen blanks + offset, byteLen text⟩
        ⟨kind, role, label, front, text, searched⟩ := by
  obtain ⟨offset, hoffset⟩ := Option.isSome_iff_exists.mp (@find_isSome text searched after)
  obtain ⟨a, b, hcut, ha, -⟩ := exists_occurrence_of_find hoffset
  have hwhole : blanks ++ body ++ tail = (blanks ++ searched) ++ (text ++ (after ++ tail)) := by
    rw [hbody]
    simp only [List.append_assoc]
  rw [hwhole] at hmasks
  obtain ⟨front, rest, hline, hfront, -⟩ := hmasks.split_append hspace hne
  have hlen := hfront.byteLen_eq
  have htotal := hmasks.byteLen_eq
  refine ⟨front, offset, ?_, ?_, ?_⟩
  · rw [hline, hlen, sliceTo_append]
  · rw [hbody, hoffset]
  · have hiff := @find_eq_iff searched after text hne
    rw [hoffset] at hiff
    refine ⟨rfl, rfl, rfl, rfl, ⟨hne, rest, hline⟩, ?_, ?_⟩
    · change byteLen blanks + offset = byteLen front ↔ ¬ OccursBefore text searched
      rw [← hiff, ← hlen, byteLen_append]
      constructor
      · intro heq
        have hsame : offset = byteLen searched := by omega
        rw [hsame]
      · intro heq
        rw [Option.some.inj heq]
    · change byteLen blanks + offset + byteLen text ≤ byteLen line
      have hcutlen := congrArg byteLen hcut
      simp only [byteLen_append] at hcutlen htotal
      omega

theorem powershellImport_agrees {written : Text} (hmasks : Masks line (blanks ++ body ++ tail))
    (hbody : body = written ++ rest) :
    Agree line ((powershellImport body rest).map fun p =>
        { p with offset := byteLen blanks + p.offset })
      (powershellImportToken line blanks written rest) := by
  unfold powershellImport powershellImportToken
  cases hword : firstWord rest with
  | none => exact Agree.nothing
  | some raw =>
    obtain ⟨hne, hspace, after, hsplit⟩ := firstWord_spec hword
    generalize rest.takeWhile isAsciiBlank = gap at hsplit ⊢
    have hwhole : body = (written ++ gap) ++ (raw ++ after) := by
      rw [hbody, hsplit, List.append_assoc]
    obtain ⟨front, offset, hfront, hfind, hfinds⟩ :=
      masked_found hmasks hwhole hne hspace .annotationNode "import" (unquoteLabel raw)
    simp only [Option.bind_eq_bind, Option.bind_some]
    rw [hfront, hfind]
    exact Agree.found hfinds

theorem powershellAnchor_agrees (hmasks : Masks line (blanks ++ body ++ tail)) :
    ∃ found, powershellAnchor body = some found ∧ Agree line
      (found.map fun p => { p with offset := byteLen blanks + p.offset })
      (powershellCodeToken line blanks body) := by
  have hsize : ∀ k, byteLen ((body.map Char.toLower).drop k) = byteLen (body.drop k) := by
    intro k
    rw [← List.map_drop, byteLen_map utf8Size_toLower]
  have hsplit : ∀ k, body = body.take k ++ body.drop k := fun k =>
    (List.take_append_drop k body).symm
  unfold powershellAnchor powershellCodeToken
  dsimp only
  cases hkeyword : powershellKeywords.find? fun keyword =>
      keyword.isPrefixOf (body.map Char.toLower) with
  | some keyword =>
    have hslice : sliceFrom body (byteLen body -
        byteLen ((body.map Char.toLower).drop keyword.length)) =
          some (body.drop keyword.length) := by
      have hlen := congrArg byteLen (hsplit keyword.length)
      rw [byteLen_append] at hlen
      have hfront : byteLen body - byteLen (body.drop keyword.length) =
          byteLen (body.take keyword.length) := by omega
      have hcut := sliceFrom_append (body.take keyword.length) (body.drop keyword.length)
      rw [← hsplit] at hcut
      rw [hsize, hfront, hcut]
    dsimp only
    rw [hslice]
    refine ⟨_, rfl, ?_⟩
    unfold powershellFunctionToken
    cases hname : scriptIdentifier (body.drop keyword.length) with
    | none => exact Agree.nothing
    | some name =>
      obtain ⟨hne, hspace, after, hafter⟩ := scriptIdentifier_spec hname
      have hbody : body = body.take keyword.length ++ (name ++ after) := by
        rw [hafter]
        exact hsplit keyword.length
      obtain ⟨front, offset, hfront, hfind, hfinds⟩ :=
        masked_found hmasks hbody hne hspace .functionNode "function" name
      simp only [Option.bind_eq_bind, Option.bind_some]
      rw [hfront, hfind]
      exact Agree.found hfinds
  | none =>
    dsimp only
    by_cases himport : importModule.isPrefixOf (body.map Char.toLower) = true
    · rw [if_pos himport, if_pos himport]
      obtain ⟨after, hafter⟩ := List.isPrefixOf_iff_prefix.mp himport
      have hwritten : byteLen (body.take importModule.length) = byteLen importModule := by
        have hmap : (body.take importModule.length).map Char.toLower = importModule := by
          rw [List.map_take, ← hafter, List.take_left]
        rw [← byteLen_map utf8Size_toLower, hmap]
      have hslice : sliceFrom body (byteLen importModule) =
        some (body.drop importModule.length) := by
        have hcut := sliceFrom_append (body.take importModule.length)
          (body.drop importModule.length)
        rwa [← hsplit, hwritten] at hcut
      rw [hslice]
      exact ⟨_, rfl, powershellImport_agrees hmasks (hsplit _)⟩
    · rw [if_neg himport, if_neg himport]
      refine ⟨_, rfl, ?_⟩
      cases hdot : Text.stripPrefix dotKeyword body with
      | none => exact Agree.nothing
      | some rest => exact powershellImport_agrees hmasks (Text.stripPrefix_eq_some hdot)

theorem powershellLine_answers : AnswersTo powershellLine powershellToken fun _ => True := by
  intro depth _ line
  obtain ⟨masked, next, hmask, hmasks⟩ := maskPowershell_masks line depth
  obtain ⟨tail, htail⟩ := stripScriptComment_begins masked
  unfold powershellLine powershellToken
  rw [hmask]
  simp only [Option.bind_eq_bind, Option.bind_some]
  rw [byteLen_trimStart]
  unfold Text.trimStartChars
  have hcode := List.takeWhile_append_dropWhile (p := Text.isWhiteSpace)
    (l := stripScriptComment masked)
  generalize (stripScriptComment masked).takeWhile Text.isWhiteSpace = blanks at hcode ⊢
  generalize (stripScriptComment masked).dropWhile Text.isWhiteSpace = body at hcode ⊢
  by_cases hnil : body = []
  · rw [if_pos hnil, if_pos hnil]
    exact ⟨_, none, rfl, trivial, Agree.nothing⟩
  · rw [if_neg hnil, if_neg hnil]
    rw [← htail, ← hcode] at hmasks
    obtain ⟨found, hfound, hagree⟩ := powershellAnchor_agrees hmasks
    refine ⟨next, found.map fun p => { p with offset := byteLen blanks + p.offset }, ?_, trivial,
      hagree⟩
    rw [hfound]
    rfl

end PowerShell

end CodeStory.Structural
