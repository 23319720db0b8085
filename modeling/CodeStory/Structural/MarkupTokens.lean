import CodeStory.Structural.LineTokens

/-!
# Tokens of Markdown and YAML lines

The label of a fence, the text of a heading, the label of a reference and the key of a mapping, with
their places. Only the label of a fence is searched for from the marker on.
-/

set_option autoImplicit false

namespace CodeStory.Structural

open Utf8Text
open CodeStory.Graph (NodeKind)

/-! ## Places -/

section Places

variable {t text a b line : Text} {p : Char → Bool}

theorem not_occursBefore_nil (hne : text ≠ []) : ¬ OccursBefore text [] := by
  intro h
  have hle := h.length_le
  rw [List.nil_append, List.length_dropLast] at hle
  have hpos := List.length_pos_of_ne_nil hne
  omega

/-- What begins with another character than the text does not hide it. -/
theorem not_occursBefore_blank (hblank : ∀ c ∈ a, Text.isWhiteSpace c = true) (hne : text ≠ [])
    (hhead : ∀ c ∈ text.head?, Text.isWhiteSpace c = false) : ¬ OccursBefore text a := by
  intro h
  obtain ⟨x, y, hxy⟩ := h
  obtain ⟨c, rest, rfl⟩ := List.exists_cons_of_ne_nil hne
  have hc := hhead c rfl
  have hlen := congrArg List.length hxy
  rw [List.length_append, List.length_append, List.length_append, List.length_dropLast,
    List.length_cons] at hlen
  have hlt : x.length < a.length := by omega
  have hget : (a ++ (c :: rest).dropLast)[x.length]? = some c := by
    rw [← hxy, List.append_assoc, List.getElem?_append_right (Nat.le_refl _), Nat.sub_self]
    rfl
  rw [List.getElem?_append_left hlt] at hget
  have hwhite := hblank c (List.mem_of_getElem? hget)
  rw [hc] at hwhite
  cases hwhite

theorem byteLen_trimStart (t : Text) :
    byteLen t - byteLen (Text.trimStartChars t) = byteLen (t.takeWhile Text.isWhiteSpace) := by
  have hsplit := congrArg byteLen
    (List.takeWhile_append_dropWhile (p := Text.isWhiteSpace) (l := t))
  rw [byteLen_append] at hsplit
  unfold Text.trimStartChars
  omega

theorem trimEndChars_begins (t : Text) : trimEndChars t <+: t := List.rdropWhile_prefix _ t

theorem trimEndMatches_begins (c : Char) (t : Text) : trimEndMatches c t <+: t :=
  List.rdropWhile_prefix _ t

theorem byteLen_takeWhile_eq {c : Char} (hsize : c.utf8Size = 1) (t : Text) :
    byteLen (t.takeWhile fun d => d == c) = (t.takeWhile fun d => d == c).length := by
  have hall : ∀ d ∈ t.takeWhile (fun d => d == c), d = c := by
    intro d hd
    have hbeq := List.mem_takeWhile_imp hd
    exact eq_of_beq hbeq
  generalize t.takeWhile (fun d => d == c) = run at hall
  induction run with
  | nil => rfl
  | cons d run ih =>
    rw [byteLen_cons, hall d List.mem_cons_self, hsize, List.length_cons,
      ih fun e he => hall e (List.mem_cons_of_mem _ he), Nat.add_comm]

theorem byteRun_eq {c : Char} {marker : UInt8} (h : String.utf8EncodeChar c = [marker])
    (hlt : marker < 128) (t : Text) :
    byteRun marker t = byteLen (t.takeWhile fun d => d == c) := by
  unfold byteRun
  rw [(sameTest_eq h hlt).takeWhile, length_encode]

/-- Behind a run of characters the line can be cut. -/
theorem sliceFrom_run (t : Text) (p : Char → Bool) :
    sliceFrom t (byteLen (t.takeWhile p)) = some (t.dropWhile p) := by
  have h := sliceFrom_append (t.takeWhile p) (t.dropWhile p)
  rwa [List.takeWhile_append_dropWhile] at h

end Places

/-! ## Markdown -/

def isFenceChar (c : Char) : Bool := c == '`' || c == '~'

/-- The character of a fence with which a text begins. -/
def fenceMarker (body : Text) : Option Char :=
  body.head?.filter fun c => isFenceChar c && decide (3 ≤ (body.takeWhile fun d => d == c).length)

def fenceToken (blanks body : Text) (marker : Char) : Option LineToken :=
  let run := body.takeWhile fun c => c == marker
  let rest := body.dropWhile fun c => c == marker
  let gap := rest.takeWhile Text.isWhiteSpace
  let text := (rest.dropWhile Text.isWhiteSpace).takeWhile fun c => !isLabelEnd c
  if text = [] then none
  else some ⟨.annotationNode, "fence", text, blanks ++ (run ++ gap), text, run ++ gap⟩

def headingText (content : Text) : Text :=
  trimEndChars (trimEndMatches '#' (trimEndChars content))

def headingToken (blanks body : Text) : Option LineToken :=
  let hashes := body.takeWhile fun c => c == '#'
  let rest := body.dropWhile fun c => c == '#'
  let text := headingText (rest.dropWhile Text.isWhiteSpace)
  if (1 ≤ hashes.length ∧ hashes.length ≤ 6) ∧ rest.head?.any isAsciiBlank ∧ text ≠ [] then
    some ⟨.moduleNode, "heading", text, blanks ++ (hashes ++ rest.takeWhile Text.isWhiteSpace),
      text,
      []⟩
  else none

def referenceToken (blanks body : Text) : Option LineToken := do
  let rest ← Text.stripPrefix ['['] body
  let (text, _) ← Text.splitOnceText "]:".toList rest
  if text = [] then none else some ⟨.annotationNode, "reference", text, blanks ++ ['['], text, []⟩

def markdownToken (activeFence : Fence) (line : Text) : Option LineToken :=
  let blanks := line.takeWhile Text.isWhiteSpace
  let body := line.dropWhile Text.isWhiteSpace
  match activeFence with
  | some _ => none
  | none =>
    match fenceMarker body with
    | some marker => fenceToken blanks body marker
    | none => (headingToken blanks body).or (referenceToken blanks body)

section Markdown

variable {blanks body line : Text} {marker : Char}

theorem head?_encode_ascii {byte : UInt8} (h : (encode body).head? = some byte) (hlt : byte < 128) :
    ∃ c rest, body = c :: rest ∧ c.toNat = byte.toNat := by
  rw [List.head?_eq_getElem?] at h
  obtain ⟨before, c, after, rfl, hbefore, -, hvalue⟩ := char_of_ascii h hlt
  have hnil : before = [] := byteLen_eq_zero.mp hbefore
  exact ⟨c, after, by rw [hnil]; rfl, hvalue⟩

theorem markdownFenceMarker_isSome :
    (markdownFenceMarker body).isSome = (fenceMarker body).isSome := by
  have hrun : ∀ (c : Char) (byte : UInt8), String.utf8EncodeChar c = [byte] → byte < 128 →
      c.utf8Size = 1 → ∀ rest, byteRun byte (c :: rest) =
        ((c :: rest).takeWhile fun d => d == c).length := by
    intro c byte hc hlt hsize rest
    rw [byteRun_eq hc hlt, byteLen_takeWhile_eq hsize]
  cases body with
  | nil => rfl
  | cons c rest =>
    by_cases hc : isFenceChar c = true
    · have hshape : ∃ byte, String.utf8EncodeChar c = [byte] ∧ byte < 128 ∧ c.utf8Size = 1 ∧
          (byte = backtick ∨ byte = tilde) := by
        unfold isFenceChar at hc
        rw [Bool.or_eq_true, beq_iff_eq, beq_iff_eq] at hc
        rcases hc with rfl | rfl
        · exact ⟨backtick, rfl, by decide, rfl, Or.inl rfl⟩
        · exact ⟨tilde, rfl, by decide, rfl, Or.inr rfl⟩
      obtain ⟨byte, hbyte, hlt, hsize, hor⟩ := hshape
      have hhead : (encode (c :: rest)).head? = some byte := by
        rw [encode_cons, hbyte]
        rfl
      unfold markdownFenceMarker fenceMarker
      rw [hhead]
      dsimp only
      rw [if_pos hor, hrun c byte hbyte hlt hsize, List.head?_cons, Option.filter_some, hc]
      by_cases hlen : 3 ≤ ((c :: rest).takeWhile fun d => d == c).length
      · rw [if_pos hlen, decide_eq_true hlen]
        rfl
      · rw [if_neg hlen, decide_eq_false hlen]
        rfl
    · have hnone : fenceMarker (c :: rest) = none := by
        unfold fenceMarker
        rw [List.head?_cons, Option.filter_some, Bool.of_not_eq_true hc]
        rfl
      rw [hnone]
      unfold markdownFenceMarker
      cases hhead : (encode (c :: rest)).head? with
      | none => rfl
      | some byte =>
        dsimp only
        rw [if_neg]
        · rfl
        · intro hor
          apply hc
          have hlt : byte < 128 := by
            rcases hor with rfl | rfl
            · decide
            · decide
          obtain ⟨d, rest', heq, hvalue⟩ := head?_encode_ascii hhead hlt
          obtain ⟨rfl, -⟩ := List.cons.inj heq
          rcases hor with rfl | rfl
          · have hd : c = '`' := Char.toNat_inj.mp hvalue
            rw [hd]
            rfl
          · have hd : c = '~' := Char.toNat_inj.mp hvalue
            rw [hd]
            rfl

theorem fenceMarker_eq_some (h : fenceMarker body = some marker) :
    (marker = '`' ∨ marker = '~') ∧
      3 ≤ (body.takeWhile fun d => d == marker).length ∧ body.head? = some marker := by
  unfold fenceMarker at h
  rw [Option.filter_eq_some_iff] at h
  obtain ⟨hhead, htest⟩ := h
  rw [Bool.and_eq_true, decide_eq_true_eq] at htest
  refine ⟨?_, htest.2, hhead⟩
  have hfence := htest.1
  unfold isFenceChar at hfence
  rw [Bool.or_eq_true, beq_iff_eq, beq_iff_eq] at hfence
  exact hfence

/-- Three characters of a run are there if three are counted. -/
theorem run_begins {c : Char} (h : 3 ≤ (body.takeWhile fun d => d == c).length) :
    [c, c, c] <+: body := by
  have hrun : ∀ l : Text, (∀ d ∈ l, d = c) → 3 ≤ l.length → [c, c, c] <+: l := by
    intro l hl hlen
    match l, hl, hlen with
    | a :: b :: d :: rest, hl, _ =>
      rw [hl a (by simp), hl b (by simp), hl d (by simp)]
      exact ⟨rest, rfl⟩
  have hall : ∀ d ∈ body.takeWhile (fun d => d == c), d = c := by
    intro d hd
    have hbeq := List.mem_takeWhile_imp hd
    exact eq_of_beq hbeq
  exact (hrun _ hall h).trans (List.takeWhile_prefix _)

theorem fenceLabelMarker (h : fenceMarker body = some marker) :
    (if "```".toList <+: body then some '`'
      else if "~~~".toList <+: body then some '~' else none) = some marker := by
  obtain ⟨hmarker, hrun, hhead⟩ := fenceMarker_eq_some h
  have hbegins := run_begins hrun
  rcases hmarker with rfl | rfl
  · exact if_pos hbegins
  · have hnot : ¬ "```".toList <+: body := by
      intro hback
      obtain ⟨rest, rfl⟩ := hback
      cases hhead
    rw [if_neg hnot]
    exact if_pos hbegins

/-- The label that is parsed is the token's, and the search for it goes over the marker. -/
theorem markdownFenceLabel_agrees (h : fenceMarker body = some marker) :
    ∃ found, markdownFenceLabel body = some found ∧ Agree (blanks ++ body)
      (found.map fun (label, offset, len) =>
        ⟨.annotationNode, "fence", label, byteLen blanks + offset, len⟩)
      (fenceToken blanks body marker) := by
  obtain ⟨hmarker, _, _⟩ := fenceMarker_eq_some h
  have hsize : marker.utf8Size = 1 := by
    rcases hmarker with rfl | rfl
    · rfl
    · rfl
  have hcut : sliceFrom body (body.takeWhile fun c => c == marker).length =
      some (body.dropWhile fun c => c == marker) := by
    rw [← byteLen_takeWhile_eq hsize, sliceFrom_run]
  unfold markdownFenceLabel fenceToken
  rw [fenceLabelMarker h]
  change ∃ found, (sliceFrom body (body.takeWhile fun c => c == marker).length).bind _ =
    some found ∧ _
  rw [hcut, Option.bind_some]
  dsimp only
  have hbody := List.takeWhile_append_dropWhile (p := fun c => c == marker) (l := body)
  generalize body.takeWhile (fun c => c == marker) = run at hbody ⊢
  generalize body.dropWhile (fun c => c == marker) = rest at hbody ⊢
  have hrest := List.takeWhile_append_dropWhile (p := Text.isWhiteSpace) (l := rest)
  unfold Text.trimStartChars
  generalize rest.takeWhile Text.isWhiteSpace = gap at hrest ⊢
  generalize rest.dropWhile Text.isWhiteSpace = content at hrest ⊢
  have hcontent := List.takeWhile_append_dropWhile (p := fun c => !isLabelEnd c) (l := content)
  generalize content.takeWhile (fun c => !isLabelEnd c) = text at hcontent ⊢
  generalize content.dropWhile (fun c => !isLabelEnd c) = after at hcontent ⊢
  have hwhole : body = (run ++ gap) ++ (text ++ after) := by
    rw [← hbody, ← hrest, ← hcontent]
    simp only [List.append_assoc]
  by_cases hnil : text = []
  · rw [if_pos hnil, if_pos hnil]
    exact ⟨none, rfl, Agree.nothing⟩
  · rw [if_neg hnil, if_neg hnil]
    obtain ⟨offset, hoffset⟩ := Option.isSome_iff_exists.mp (@find_isSome text (run ++ gap) after)
    have hfind : find text body = some offset := by
      rw [hwhole]
      exact hoffset
    refine ⟨some (text, offset, byteLen text), ?_, ?_⟩
    · rw [hfind]
      rfl
    · apply Agree.found
      have hiff := @find_eq_iff (run ++ gap) after text hnil
      rw [hoffset] at hiff
      refine ⟨rfl, rfl, rfl, rfl, ⟨hnil, after, ?_⟩, ?_, ?_⟩
      · rw [hwhole, List.append_assoc blanks]
      · change byteLen blanks + offset = byteLen (blanks ++ (run ++ gap)) ↔ ¬ OccursBefore _ _
        rw [← hiff, byteLen_append]
        constructor
        · intro heq
          have hsame : offset = byteLen (run ++ gap) := by omega
          rw [hsame]
        · intro heq
          rw [Option.some.inj heq]
      · obtain ⟨front, back, heq, hfront, -⟩ := exists_occurrence_of_find hoffset
        have hlen := congrArg byteLen (hwhole.trans heq)
        rw [byteLen_append, byteLen_append] at hlen
        change byteLen blanks + offset + byteLen text ≤ byteLen (blanks ++ body)
        rw [byteLen_append]
        omega

theorem markdownFenceCloses_total {activeMarker : UInt8} (hlt : activeMarker < 128) (t : Text)
    (openingLen : Nat) : ∃ closes, markdownFenceCloses t activeMarker openingLen = some closes := by
  have hbound : IsBoundary t (byteRun activeMarker t) := by
    have hascii : ∀ byte ∈ (encode t).takeWhile (fun byte => byte == activeMarker), byte < 128 := by
      intro byte hbyte
      have hbeq := List.mem_takeWhile_imp hbyte
      rw [eq_of_beq hbeq]
      exact hlt
    have h := isBoundary_behind_ascii (t := t) IsBoundary.zero hascii (List.takeWhile_prefix _)
    rwa [Nat.zero_add] at h
  unfold markdownFenceCloses
  dsimp only
  split
  · obtain ⟨a, b, heq, hlen⟩ := hbound
    have hslice : sliceFrom t (byteRun activeMarker t) = some b :=
      sliceFrom_eq_some.mpr ⟨a, heq, hlen⟩
    rw [hslice]
    exact ⟨_, rfl⟩
  · exact ⟨false, rfl⟩

theorem headingText_begins (content : Text) : headingText content <+: content :=
  (trimEndChars_begins _).trans ((trimEndMatches_begins '#' _).trans (trimEndChars_begins content))

theorem markdownHeading_agrees (blanks body : Text) :
    ∃ found, markdownHeading body = some found ∧ Agree (blanks ++ body)
      (found.map fun (label, offset, len) =>
        ⟨.moduleNode, "heading", label, byteLen blanks + offset, len⟩)
      (headingToken blanks body) := by
  have hcount : byteRun hash body = byteLen (body.takeWhile fun c => c == '#') :=
    byteRun_eq rfl (by decide) body
  have hlength : byteLen (body.takeWhile fun c => c == '#') =
      (body.takeWhile fun c => c == '#').length := byteLen_takeWhile_eq rfl body
  have hslice := sliceFrom_run body fun c => c == '#'
  have hbody := List.takeWhile_append_dropWhile (p := fun c => c == '#') (l := body)
  unfold markdownHeading headingToken
  dsimp only
  rw [hcount, hslice]
  generalize body.takeWhile (fun c => c == '#') = hashes at hlength hslice hbody ⊢
  generalize body.dropWhile (fun c => c == '#') = rest at hslice hbody ⊢
  have hhead : (encode body)[byteLen hashes]?.any isAsciiWhitespace =
    rest.head?.any isAsciiBlank := by
    rw [← sameTest_blank.head rest, ← hbody, ← List.head?_drop, drop_encode]
  rw [hhead]
  by_cases hopen : (1 ≤ hashes.length ∧ hashes.length ≤ 6) ∧ rest.head?.any isAsciiBlank = true
  · have hnot : ¬ (¬ (1 ≤ byteLen hashes ∧ byteLen hashes ≤ 6) ∨
        ¬ rest.head?.any isAsciiBlank = true) := by
      rw [hlength]
      intro h
      rcases h with h | h
      · exact h hopen.1
      · exact h hopen.2
    rw [if_neg hnot, Option.bind_eq_bind, Option.bind_some, byteLen_trimStart]
    have hrest := List.takeWhile_append_dropWhile (p := Text.isWhiteSpace) (l := rest)
    generalize rest.takeWhile Text.isWhiteSpace = gap at hrest ⊢
    generalize rest.dropWhile Text.isWhiteSpace = content at hrest ⊢
    have hwhole : body = (hashes ++ gap) ++ content := by
      rw [← hbody, ← hrest, List.append_assoc]
    have hcontent : sliceFrom body (byteLen hashes + byteLen gap) = some content := by
      rw [hwhole, ← byteLen_append, sliceFrom_append]
    obtain ⟨after, hafter⟩ := headingText_begins content
    rw [hcontent, Option.bind_some]
    change ∃ found, some (if headingText content = [] then none else
      some (headingText content, byteLen hashes + byteLen gap, byteLen (headingText content))) =
        some found ∧ _
    generalize headingText content = text at hafter ⊢
    by_cases hnil : text = []
    · rw [if_pos hnil, if_neg fun h => h.2.2 hnil]
      exact ⟨none, rfl, Agree.nothing⟩
    · rw [if_neg hnil, if_pos ⟨hopen.1, hopen.2, hnil⟩]
      refine ⟨_, rfl, ?_⟩
      apply Agree.found
      refine ⟨rfl, rfl, rfl, rfl, ⟨hnil, after, ?_⟩, ?_, ?_⟩
      · dsimp only
        rw [hwhole, ← hafter, List.append_assoc blanks]
      · refine iff_of_true ?_ (not_occursBefore_nil hnil)
        change byteLen blanks + (byteLen hashes + byteLen gap) = byteLen (blanks ++ (hashes ++ gap))
        rw [byteLen_append, byteLen_append]
      · change byteLen blanks + (byteLen hashes + byteLen gap) + byteLen text ≤ _
        rw [hwhole, ← hafter]
        simp only [byteLen_append]
        omega
  · have hor : ¬ (1 ≤ byteLen hashes ∧ byteLen hashes ≤ 6) ∨
        ¬ rest.head?.any isAsciiBlank = true := by
      rw [hlength]
      exact Decidable.not_and_iff_or_not.mp hopen
    rw [if_pos hor, if_neg fun h => hopen ⟨h.1, h.2.1⟩]
    exact ⟨none, rfl, Agree.nothing⟩

theorem find_eq_splitOnceText {separator : Text} (hne : separator ≠ []) (t : Text) :
    find separator t = (Text.splitOnceText separator t).map fun halves => byteLen halves.1 := by
  induction t with
  | nil => exact if_neg hne
  | cons c t ih =>
    unfold find Text.splitOnceText
    by_cases hbegins : separator <+: c :: t
    · rw [if_pos hbegins, if_pos (List.isPrefixOf_iff_prefix.mpr hbegins)]
      rfl
    · rw [if_neg hbegins, if_neg fun h => hbegins (List.isPrefixOf_iff_prefix.mp h), ih]
      cases Text.splitOnceText separator t with
      | none => rfl
      | some halves => rfl

theorem markdownReference_agrees (blanks body : Text) :
    Agree (blanks ++ body) ((markdownReference body).map fun (label, offset, len) =>
      ⟨.annotationNode, "reference", label, byteLen blanks + offset, len⟩)
      (referenceToken blanks body) := by
  unfold markdownReference referenceToken
  cases hstrip : Text.stripPrefix ['['] body with
  | none =>
    cases find "]:".toList body with
    | none => exact Agree.nothing
    | some close => exact Agree.nothing
  | some rest =>
    obtain rfl := Text.stripPrefix_eq_some hstrip
    have hfind : find "]:".toList (['['] ++ rest) =
        (Text.splitOnceText "]:".toList rest).map fun halves => 1 + byteLen halves.1 := by
      have hnot : ¬ "]:".toList <+: '[' :: rest := by
        intro h
        obtain ⟨_, heq⟩ := h
        cases heq
      change find "]:".toList ('[' :: rest) = _
      unfold find
      rw [if_neg hnot, find_eq_splitOnceText (by decide)]
      cases Text.splitOnceText "]:".toList rest with
      | none => rfl
      | some halves => rfl
    rw [hfind]
    simp only [Option.bind_eq_bind, Option.bind_some]
    cases hsplit : Text.splitOnceText "]:".toList rest with
    | none => exact Agree.nothing
    | some halves =>
      obtain ⟨text, after⟩ := halves
      have hrest := Text.splitOnceText_eq_some hsplit
      have hslice : sliceTo rest (1 + byteLen text - 1) = some text := by
        rw [Nat.add_sub_cancel_left, hrest, List.append_assoc, sliceTo_append]
      change Agree _ (Option.map _ ((sliceTo rest (1 + byteLen text - 1)).bind fun raw =>
        if raw = [] then none else some (raw, 1, byteLen raw))) (if text = [] then none else _)
      rw [hslice, Option.bind_some]
      by_cases hnil : text = []
      · rw [if_pos hnil, if_pos hnil]
        exact Agree.nothing
      · rw [if_neg hnil, if_neg hnil]
        apply Agree.found
        refine ⟨rfl, rfl, rfl, rfl, ⟨hnil, "]:".toList ++ after, ?_⟩, ?_, ?_⟩
        · rw [hrest]
          simp only [List.append_assoc]
        · refine iff_of_true ?_ (not_occursBefore_nil hnil)
          rw [byteLen_append]
          rfl
        · have hone : byteLen ['['] = 1 := rfl
          dsimp only
          rw [hrest]
          simp only [byteLen_append]
          omega

/-- A fence that is open was opened by an ASCII character. -/
def AsciiFence (fence : Fence) : Prop := ∀ marker ∈ fence, marker.1 < 128

theorem asciiFence_of_marker : AsciiFence (markdownFenceMarker body) := by
  intro marker hmarker
  unfold markdownFenceMarker at hmarker
  cases hhead : (encode body).head? with
  | none =>
    rw [hhead] at hmarker
    cases hmarker
  | some byte =>
    rw [hhead] at hmarker
    dsimp only at hmarker
    split at hmarker
    · rename_i hor
      split at hmarker
      · cases hmarker
        rcases hor with rfl | rfl
        · exact (by decide : backtick < 128)
        · exact (by decide : tilde < 128)
      · cases hmarker
    · cases hmarker

theorem markdownLine_answers : AnswersTo markdownLine markdownToken AsciiFence := by
  intro fence hfence line
  have hline : line = line.takeWhile Text.isWhiteSpace ++ Text.trimStartChars line :=
    List.takeWhile_append_dropWhile.symm
  unfold markdownLine markdownToken
  dsimp only
  rw [byteLen_trimStart]
  cases fence with
  | some open_ =>
    obtain ⟨marker, openingLen⟩ := open_
    obtain ⟨closes, hcloses⟩ := markdownFenceCloses_total (hfence _ rfl)
      (Text.trimStartChars line) openingLen
    dsimp only
    rw [hcloses]
    refine ⟨_, none, rfl, ?_, Agree.nothing⟩
    cases closes with
    | true =>
      intro marker hmarker
      cases hmarker
    | false => exact hfence
  | none =>
    dsimp only
    have hsome : (markdownFenceMarker (Text.trimStartChars line)).isSome =
        (fenceMarker (line.dropWhile Text.isWhiteSpace)).isSome := markdownFenceMarker_isSome
    cases hmarker : fenceMarker (line.dropWhile Text.isWhiteSpace) with
    | some marker =>
      rw [hmarker, Option.isSome_some] at hsome
      obtain ⟨opened, hopened⟩ := Option.isSome_iff_exists.mp hsome
      obtain ⟨found, hfound, hagree⟩ := @markdownFenceLabel_agrees
        (line.takeWhile Text.isWhiteSpace) _ marker hmarker
      have hgood : AsciiFence (some opened) := by
        rw [← hopened]
        exact asciiFence_of_marker
      rw [hopened]
      change ∃ next parsed, (markdownFenceLabel (line.dropWhile Text.isWhiteSpace)).bind _ =
        some (next, parsed) ∧ _
      rw [hfound]
      rw [List.takeWhile_append_dropWhile] at hagree
      exact ⟨_, _, rfl, hgood, hagree⟩
    | none =>
      rw [hmarker, Option.isSome_none, Option.isSome_eq_false_iff,
        Option.isNone_iff_eq_none] at hsome
      obtain ⟨found, hfound, hagree⟩ := markdownHeading_agrees (line.takeWhile Text.isWhiteSpace)
        (Text.trimStartChars line)
      have hgood : AsciiFence none := by
        intro marker hmarker
        cases hmarker
      have href := markdownReference_agrees (line.takeWhile Text.isWhiteSpace)
        (Text.trimStartChars line)
      rw [← hline] at hagree href
      rw [hsome]
      dsimp only
      rw [hfound, Option.bind_eq_bind, Option.bind_some]
      change ∃ next parsed, _ ∧ _ ∧ Agree line parsed
        ((headingToken (line.takeWhile Text.isWhiteSpace) (Text.trimStartChars line)).or
          (referenceToken (line.takeWhile Text.isWhiteSpace) (Text.trimStartChars line)))
      generalize headingToken (line.takeWhile Text.isWhiteSpace) (Text.trimStartChars line) = token
        at hagree ⊢
      cases found with
      | none =>
        cases hagree with
        | nothing => exact ⟨_, _, rfl, hgood, href⟩
      | some found =>
        generalize hp : Option.map _ (some found) = parsed at hagree
        cases hagree with
        | nothing => cases hp
        | found h =>
          cases hp
          exact ⟨_, _, rfl, hgood, Agree.found h⟩

end Markdown

/-! ## YAML -/

def keyToken (blanks dash candidate : Text) : Option LineToken := do
  let colon ← yamlMappingDelimiter candidate
  let front ← sliceTo candidate colon
  let gap := front.takeWhile Text.isWhiteSpace
  let text := Text.trimChars front
  if text = [] ∨ text = mergeKey then none
  else if unquoteLabel text = [] then none
  else some ⟨.annotationNode, "mapping-key", unquoteLabel text, blanks ++ (dash ++ gap), text, gap⟩

def yamlToken (blockScalarParentIndent : Option Nat) (line : Text) : Option LineToken :=
  let code := stripYamlComment line
  let blanks := code.takeWhile Text.isWhiteSpace
  let body := code.dropWhile Text.isWhiteSpace
  if blockScalarParentIndent.any fun parentIndent =>
      body.isEmpty || parentIndent < byteLen blanks then none
  else if isYamlMarker body then none
  else
    match Text.stripPrefix listMarker body with
    | some rest => keyToken blanks listMarker rest
    | none => keyToken blanks [] body

section Yaml

variable {blanks body line before rest : Text} {quote : Option Char} {escaped : Bool}

theorem stripYamlCommentFrom_begins :
    stripYamlCommentFrom before quote escaped rest <+: before ++ rest := by
  induction rest generalizing before quote escaped with
  | nil =>
    unfold stripYamlCommentFrom
    exact List.prefix_append before []
  | cons c rest ih =>
    have hnext : ∀ quote escaped,
        stripYamlCommentFrom (before ++ [c]) quote escaped rest <+: before ++ c :: rest := by
      intro quote escaped
      have h := @ih (before ++ [c]) quote escaped
      rwa [List.append_assoc, List.singleton_append] at h
    unfold stripYamlCommentFrom
    split
    · split
      · exact hnext _ _
      · split
        · exact hnext _ _
        · split
          · split
            · exact hnext _ _
            · exact hnext _ _
          · exact hnext _ _
    · split
      · exact List.prefix_append before _
      · split
        · exact hnext _ _
        · exact hnext _ _

theorem stripYamlComment_begins (line : Text) : stripYamlComment line <+: line :=
  stripYamlCommentFrom_begins

theorem yamlMappingDelimiterFrom_spec {n : Nat}
    (h : yamlMappingDelimiterFrom before quote escaped rest = some n) :
    ∃ a b, before ++ rest = a ++ ':' :: b ∧ byteLen a = n := by
  induction rest generalizing before quote escaped with
  | nil => cases h
  | cons c rest ih =>
    have hnext : ∀ quote escaped,
        yamlMappingDelimiterFrom (before ++ [c]) quote escaped rest = some n →
          ∃ a b, before ++ c :: rest = a ++ ':' :: b ∧ byteLen a = n := by
      intro quote escaped hrest
      obtain ⟨a, b, heq, hlen⟩ := ih hrest
      rw [List.append_assoc, List.singleton_append] at heq
      exact ⟨a, b, heq, hlen⟩
    unfold yamlMappingDelimiterFrom at h
    split at h
    · split at h
      · exact hnext _ _ h
      · split at h
        · exact hnext _ _ h
        · split at h
          · split at h
            · exact hnext _ _ h
            · exact hnext _ _ h
          · exact hnext _ _ h
    · split at h
      · exact hnext _ _ h
      · split at h
        · rename_i hcolon
          obtain ⟨rfl, _⟩ := hcolon
          exact ⟨before, rest, rfl, Option.some.inj h⟩
        · exact hnext _ _ h

theorem yamlMappingDelimiter_spec {value : Text} {n : Nat}
    (h : yamlMappingDelimiter value = some n) :
    ∃ a b, value = a ++ ':' :: b ∧ byteLen a = n := yamlMappingDelimiterFrom_spec h

theorem yamlBlockScalarHeader_total (value : Text) :
    ∃ header, yamlBlockScalarHeader value = some header := by
  unfold yamlBlockScalarHeader
  dsimp only
  generalize (Text.stripPrefix listMarker value).getD value = value
  cases hcolon : yamlMappingDelimiter value with
  | none => exact ⟨_, rfl⟩
  | some colon =>
    obtain ⟨a, b, rfl, rfl⟩ := yamlMappingDelimiter_spec hcolon
    have hslice : sliceFrom (a ++ ':' :: b) (byteLen a + 1) = some b := by
      have h := sliceFrom_append (a ++ [':']) b
      rw [byteLen_append, List.append_assoc] at h
      exact h
    dsimp only
    rw [hslice]
    exact ⟨_, rfl⟩

theorem trimChars_eq (t : Text) : Text.trimChars t = trimEndChars (t.dropWhile Text.isWhiteSpace) :=
  rfl

/-- The key that is parsed is the token: what the search passes is only white space. -/
theorem yamlKeyAt_agrees (blanks dash candidate after : Text) :
    ∃ found, yamlKeyAt candidate (byteLen (blanks ++ dash)) = some found ∧
      Agree (blanks ++ (dash ++ candidate) ++ after) found (keyToken blanks dash candidate) := by
  unfold yamlKeyAt keyToken
  cases hcolon : yamlMappingDelimiter candidate with
  | none => exact ⟨none, rfl, Agree.nothing⟩
  | some colon =>
    obtain ⟨front, back, rfl, rfl⟩ := yamlMappingDelimiter_spec hcolon
    have hfront := List.takeWhile_append_dropWhile (p := Text.isWhiteSpace) (l := front)
    have hblank : ∀ c ∈ front.takeWhile Text.isWhiteSpace, Text.isWhiteSpace c = true :=
      fun c hc => List.mem_takeWhile_imp hc
    have hnot : ∀ c ∈ (front.dropWhile Text.isWhiteSpace).head?, Text.isWhiteSpace c = false := by
      intro c hc
      have h := List.head?_dropWhile_not Text.isWhiteSpace front
      rw [Option.mem_def] at hc
      rw [hc] at h
      exact h
    obtain ⟨tail, htail⟩ := trimEndChars_begins (front.dropWhile Text.isWhiteSpace)
    rw [← trimChars_eq] at htail
    unfold whenSome
    simp only [Option.bind_eq_bind, Option.bind_some]
    rw [sliceTo_append, Option.bind_some, Option.bind_some]
    generalize front.takeWhile Text.isWhiteSpace = gap at hfront hblank ⊢
    generalize hcontent : front.dropWhile Text.isWhiteSpace = content at hfront hnot htail
    generalize Text.trimChars front = text at htail ⊢
    by_cases hskip : text = [] ∨ text = mergeKey
    · rw [if_pos hskip, if_pos hskip]
      exact ⟨none, rfl, Agree.nothing⟩
    · have hne : text ≠ [] := fun h => hskip (Or.inl h)
      have hhead : ∀ c ∈ text.head?, Text.isWhiteSpace c = false := by
        intro c hc
        obtain ⟨d, l, rfl⟩ := List.exists_cons_of_ne_nil hne
        apply hnot
        rw [← htail]
        exact hc
      have hwhole : front = gap ++ (text ++ tail) := by
        rw [← hfront, ← htail]
      have hfind : find text front = some (byteLen gap) := by
        rw [hwhole]
        exact (find_eq_iff hne).mpr (not_occursBefore_blank hblank hne hhead)
      rw [if_neg hskip, if_neg hskip, hfind]
      by_cases hlabel : unquoteLabel text = []
      · rw [if_pos hlabel, if_pos hlabel]
        exact ⟨none, rfl, Agree.nothing⟩
      · rw [if_neg hlabel, if_neg hlabel]
        refine ⟨_, rfl, ?_⟩
        apply Agree.found
        refine ⟨rfl, rfl, rfl, rfl, ⟨hne, tail ++ ':' :: (back ++ after), ?_⟩, ?_, ?_⟩
        · dsimp only
          rw [hwhole]
          simp only [List.append_assoc, List.cons_append]
        · refine iff_of_true ?_ (not_occursBefore_blank hblank hne hhead)
          dsimp only
          rw [Option.getD_some, byteLen_append, byteLen_append, byteLen_append]
          omega
        · dsimp only
          rw [Option.getD_some, hwhole]
          simp only [byteLen_append]
          omega

theorem yamlLine_answers : AnswersTo yamlLine yamlToken fun _ => True := by
  intro scalar _ line
  obtain ⟨after, hafter⟩ := stripYamlComment_begins line
  have hcode := List.takeWhile_append_dropWhile (p := Text.isWhiteSpace)
    (l := stripYamlComment line)
  unfold yamlLine yamlToken
  dsimp only
  rw [byteLen_trimStart]
  unfold Text.trimStartChars
  generalize (stripYamlComment line).takeWhile Text.isWhiteSpace = blanks at hcode ⊢
  generalize (stripYamlComment line).dropWhile Text.isWhiteSpace = body at hcode ⊢
  have hline : line = blanks ++ body ++ after := by
    rw [hcode, hafter]
  by_cases hscalar : (scalar.any fun parentIndent => body.isEmpty ||
    parentIndent < byteLen blanks) = true
  · rw [if_pos hscalar, if_pos hscalar]
    exact ⟨_, none, rfl, trivial, Agree.nothing⟩
  · rw [if_neg hscalar, if_neg hscalar]
    by_cases hmarker : isYamlMarker body = true
    · rw [if_pos hmarker, if_pos hmarker]
      exact ⟨_, none, rfl, trivial, Agree.nothing⟩
    · rw [if_neg hmarker, if_neg hmarker]
      obtain ⟨header, hheader⟩ := yamlBlockScalarHeader_total body
      rw [hheader, Option.bind_eq_bind, Option.bind_some]
      unfold yamlKey
      cases hstrip : Text.stripPrefix listMarker body with
      | none =>
        obtain ⟨found, hfound, hagree⟩ := yamlKeyAt_agrees blanks [] body after
        rw [List.append_nil] at hfound
        rw [List.nil_append, ← hline] at hagree
        refine ⟨if header then some (byteLen blanks) else none, found, ?_, trivial, hagree⟩
        dsimp only
        rw [hfound]
        rfl
      | some rest =>
        obtain rfl := Text.stripPrefix_eq_some hstrip
        obtain ⟨found, hfound, hagree⟩ := yamlKeyAt_agrees blanks listMarker rest after
        have htwo : byteLen (blanks ++ listMarker) = byteLen blanks + 2 := by
          rw [byteLen_append]
          rfl
        rw [htwo] at hfound
        rw [← hline] at hagree
        refine ⟨if header then some (byteLen blanks) else none, found, ?_, trivial, hagree⟩
        dsimp only
        rw [hfound]
        rfl

end Yaml

end CodeStory.Structural
