import CodeStory.Lib.Utf8Bytes
import CodeStory.Structural.TemplatePipeline

/-!
# Templates keep their coordinates

No template makes the pipeline fail. The script it gives has the bytes of the template where they
are kept, and everywhere the line breaks, so that every offset has the line and the column it has in
the template. The blocks of style are cut out at the places recorded with them.
-/

set_option autoImplicit false

namespace CodeStory.Structural

open Utf8Text Intervals

/-- A range that begins and ends between characters. -/
structure CutOut (text : Text) (range : ByteRange) : Prop where
  first : IsBoundary text range.start
  last : IsBoundary text range.stop
  le : range.start ≤ range.stop

/-! ## Blocks between tags -/

section Blocks

variable {openTag closeTag lower source : Text}

structure TagBlock.Cut (text : Text) (block : TagBlock) : Prop where
  start : IsBoundary text block.start
  openEnd : IsBoundary text block.openEnd
  closeStart : IsBoundary text block.closeStart
  opens : block.start ≤ block.openEnd
  holds : block.openEnd ≤ block.closeStart
  closes : block.closeStart ≤ block.closeEnd
  ends : block.closeEnd ≤ byteLen text

/-- A found pattern ends at a boundary. -/
theorem boundary_behind {pattern t whole : Text} {n k : Nat}
    (hslice : sliceFrom whole k = some t) (hfind : find pattern t = some n) :
    IsBoundary whole (k + n) ∧ IsBoundary whole (k + n + byteLen pattern) := by
  obtain ⟨a, b, hwhole, ha⟩ := find_offset hslice hfind
  refine ⟨⟨a, pattern ++ b, hwhole, ha⟩, a ++ pattern, b, ?_, ?_⟩
  · rw [hwhole, List.append_assoc]
  · rw [byteLen_append, ha]

variable (openTag lower) in
theorem collectBlocks_spec (hclose : closeTag ≠ []) (fuel searchFrom : Nat)
    (hfrom : IsBoundary lower searchFrom) (hfuel : byteLen lower < searchFrom + fuel) :
    ∃ blocks, collectBlocks openTag closeTag lower fuel searchFrom = some blocks ∧
      ∀ block ∈ blocks, block.Cut lower := by
  induction fuel generalizing searchFrom with
  | zero =>
    have := hfrom.le
    omega
  | succ fuel ih =>
    have hpos : 0 < byteLen closeTag :=
      Nat.pos_of_ne_zero fun hzero => hclose (byteLen_eq_zero.mp hzero)
    have hnone : ∀ block ∈ ([] : List TagBlock), block.Cut lower :=
      fun _ hmem => absurd hmem List.not_mem_nil
    obtain ⟨rest, hrest⟩ := sliceFrom_of_boundary hfrom
    unfold collectBlocks
    rw [hrest]
    simp only [Option.bind_eq_bind, Option.bind_some]
    cases hopen : find openTag rest with
    | none => exact ⟨[], rfl, hnone⟩
    | some rel =>
      dsimp only
      obtain ⟨hstart, -⟩ := boundary_behind hrest hopen
      obtain ⟨fromOpen, hfromOpen⟩ := sliceFrom_of_boundary hstart
      rw [hfromOpen]
      simp only [Option.bind_some]
      cases hend : find ['>'] fromOpen with
      | none => exact ⟨[], rfl, hnone⟩
      | some openRel =>
        dsimp only
        obtain ⟨-, hopenEnd⟩ := boundary_behind hfromOpen hend
        change IsBoundary lower (searchFrom + rel + openRel + 1) at hopenEnd
        obtain ⟨content, hcontent⟩ := sliceFrom_of_boundary hopenEnd
        rw [hcontent]
        simp only [Option.bind_some]
        cases hclosed : find closeTag content with
        | none => exact ⟨[], rfl, hnone⟩
        | some closeRel =>
          dsimp only
          obtain ⟨hcloseStart, hcloseEnd⟩ := boundary_behind hcontent hclosed
          obtain ⟨later, hlater, hcut⟩ := ih _ hcloseEnd (by omega)
          rw [hlater]
          refine ⟨_, rfl, List.forall_mem_cons.mpr ⟨?_, hcut⟩⟩
          exact ⟨hstart, hopenEnd, hcloseStart, by dsimp only; omega, by dsimp only; omega,
            by dsimp only; omega, hcloseEnd.le⟩

theorem TagBlock.Cut.of_lower {block : TagBlock} (h : block.Cut (source.map Char.toLower)) :
    block.Cut source := by
  have hends := h.ends
  rw [byteLen_map utf8Size_toLower] at hends
  exact ⟨h.start.of_map utf8Size_toLower, h.openEnd.of_map utf8Size_toLower,
    h.closeStart.of_map utf8Size_toLower, h.opens, h.holds, h.closes, hends⟩

variable (openTag closeTag source) in
theorem collectBlocks_source (hclose : closeTag ≠ []) :
    ∃ blocks, collectBlocks openTag closeTag (source.map Char.toLower)
        (byteLen (source.map Char.toLower) + 1) 0 = some blocks ∧
      ∀ block ∈ blocks, block.Cut source := by
  obtain ⟨blocks, hblocks, hcut⟩ := collectBlocks_spec openTag (source.map Char.toLower) hclose
    (byteLen (source.map Char.toLower) + 1) 0 .zero (by omega)
  exact ⟨blocks, hblocks, fun block hmem => (hcut block hmem).of_lower⟩

theorem taggedLanguage_isSome {blocks : List TagBlock} (hcut : ∀ block ∈ blocks, block.Cut source)
    (language : ScriptLanguage) : ∃ tagged,
      taggedLanguage source blocks language = some tagged := by
  induction blocks generalizing language with
  | nil => exact ⟨language, rfl⟩
  | cons block later ih =>
    obtain ⟨hblock, hlater⟩ := List.forall_mem_cons.mp hcut
    obtain ⟨tag, htag⟩ :=
      Option.isSome_iff_exists.mp (slice_isSome hblock.start hblock.openEnd hblock.opens)
    unfold taggedLanguage
    rw [htag]
    exact ih hlater _

variable (source) in
theorem collectScriptBlocks_spec (language : ScriptLanguage) :
    ∃ ranges tagged, collectScriptBlocks source language = some (ranges, tagged) ∧
      ∀ range ∈ ranges, CutOut source range := by
  obtain ⟨blocks, hblocks, hcut⟩ := collectBlocks_source "<script".toList "</script>".toList
    source (by decide)
  obtain ⟨tagged, htagged⟩ := taggedLanguage_isSome hcut language
  have hscripts : scriptBlocks source = some blocks := hblocks
  unfold collectScriptBlocks
  rw [hscripts]
  simp only [Option.bind_eq_bind, Option.bind_some]
  rw [htagged]
  refine ⟨_, tagged, rfl, ?_⟩
  intro range hmem
  obtain ⟨block, hblock, rfl⟩ := List.mem_map.mp hmem
  have h := hcut block hblock
  have hmin : min block.closeStart (byteLen source) = block.closeStart :=
    min_eq_left h.closeStart.le
  refine ⟨h.openEnd, ?_, ?_⟩
  · rw [hmin]
    exact h.closeStart
  · rw [hmin]
    exact h.holds

/-- The content stands between the ends of the block, at the recorded line and column. -/
def StyleBlockRange.PlacedIn (source : Text) (block : StyleBlockRange) : Prop :=
  ∃ first last, block.range.start ≤ first ∧ first ≤ last ∧ last ≤ block.range.stop ∧
    slice source first last = some block.content ∧
    (block.startLine, block.startCol) = byteOffsetLineCol (encode source) first

theorem styleBlock_spec {block : TagBlock} (h : block.Cut source) :
    ∃ style, styleBlock source block = some style ∧ style.PlacedIn source := by
  obtain ⟨content, hcontent⟩ :=
    Option.isSome_iff_exists.mp (slice_isSome h.openEnd h.closeStart h.holds)
  unfold styleBlock
  rw [hcontent]
  refine ⟨_, rfl, block.openEnd, block.closeStart, h.opens, h.holds, ?_, hcontent, rfl⟩
  exact le_min h.closes h.closeStart.le

variable (source) in
theorem collectStyleBlocks_spec :
    ∃ styles, collectStyleBlocks source = some styles ∧
      ∀ style ∈ styles, style.PlacedIn source := by
  obtain ⟨blocks, hblocks, hcut⟩ := collectBlocks_source "<style".toList "</style>".toList
    source (by decide)
  have htags : styleTags source = some blocks := hblocks
  unfold collectStyleBlocks
  rw [htags]
  simp only [Option.bind_eq_bind, Option.bind_some]
  clear hblocks htags
  induction blocks with
  | nil => exact ⟨[], rfl, fun _ hmem => absurd hmem List.not_mem_nil⟩
  | cons block later ih =>
    obtain ⟨hblock, hlater⟩ := List.forall_mem_cons.mp hcut
    obtain ⟨style, hstyle, hplaced⟩ := styleBlock_spec hblock
    obtain ⟨styles, hstyles, hall⟩ := ih hlater
    rw [List.mapM_cons, hstyle, hstyles]
    exact ⟨style :: styles, rfl, List.forall_mem_cons.mpr ⟨hplaced, hall⟩⟩

end Blocks

/-! ## Frontmatter -/

theorem trimStart_append (t : Text) :
    ∃ w, t = w ++ Text.trimStartChars t ∧
      byteLen t - byteLen (Text.trimStartChars t) = byteLen w := by
  refine ⟨t.takeWhile Text.isWhiteSpace, List.takeWhile_append_dropWhile.symm, ?_⟩
  have hsum : byteLen t =
    byteLen (t.takeWhile Text.isWhiteSpace) + byteLen (Text.trimStartChars t) := by
    rw [← byteLen_append]
    exact congrArg byteLen List.takeWhile_append_dropWhile.symm
  omega

theorem collectAstroFrontmatter_spec (source : Text) (language : ScriptLanguage) :
    ∃ ranges tagged, collectAstroFrontmatter source language = some (ranges, tagged) ∧
      ∀ range ∈ ranges, CutOut source range := by
  have hnone : ∀ range ∈ ([] : List ByteRange), CutOut source range :=
    fun _ hmem => absurd hmem List.not_mem_nil
  obtain ⟨w, hw, hleading⟩ := trimStart_append source
  unfold collectAstroFrontmatter
  dsimp only
  by_cases hdashes : "---".toList <+: Text.trimStartChars source
  · rw [if_neg (not_not_intro hdashes), hleading]
    obtain ⟨rest, hrest⟩ := hdashes
    have hafter : sliceFrom source (byteLen w + 3) = some rest := by
      apply sliceFrom_eq_some.mpr
      refine ⟨w ++ "---".toList, ?_, byteLen_append⟩
      rw [List.append_assoc, hrest, ← hw]
    rw [hafter]
    simp only [Option.bind_eq_bind, Option.bind_some]
    cases hline : find ['\n'] rest with
    | none => exact ⟨[], language, rfl, hnone⟩
    | some firstNewline =>
      dsimp only
      obtain ⟨-, hstart⟩ := boundary_behind hafter hline
      change IsBoundary source (byteLen w + 3 + firstNewline + 1) at hstart
      obtain ⟨content, hcontent⟩ := sliceFrom_of_boundary hstart
      rw [hcontent]
      simp only [Option.bind_some]
      cases hclose : find "\n---".toList content with
      | none => exact ⟨[], language, rfl, hnone⟩
      | some closeRel =>
        dsimp only
        obtain ⟨hstop, -⟩ := boundary_behind hcontent hclose
        obtain ⟨inner, hinner⟩ :=
          Option.isSome_iff_exists.mp (slice_isSome hstart hstop (Nat.le_add_right _ _))
        rw [hinner]
        refine ⟨_, _, rfl, List.forall_mem_singleton.mpr ⟨hstart, hstop, Nat.le_add_right _ _⟩⟩
  · rw [if_pos hdashes]
    exact ⟨[], language, rfl, hnone⟩

/-! ## Braced expressions -/

/-- An expression ends behind a closing brace. -/
theorem braceScan_eq_some {bytes : List UInt8} {index stop : Nat} {skip : Bool} {depth : Int32}
    {inString : Option UInt8} (h : braceScan bytes index skip depth inString = some stop) :
    ∃ k, stop = index + k + 1 ∧ bytes[k]? = some closeBrace := by
  induction bytes generalizing index skip depth inString with
  | nil =>
    unfold braceScan at h
    cases h
  | cons byte rest ih =>
    have hnext : ∀ {skip depth inString},
      braceScan rest (index + 1) skip depth inString = some stop →
        ∃ k, stop = index + k + 1 ∧ (byte :: rest)[k]? = some closeBrace := by
      intro skip depth inString h
      obtain ⟨k, rfl, hk⟩ := ih h
      exact ⟨k + 1, by omega, hk⟩
    cases skip with
    | true =>
      unfold braceScan at h
      exact hnext h
    | false =>
      cases inString with
      | some quote =>
        unfold braceScan at h
        split at h
        · exact hnext h
        · exact hnext h
      | none =>
        unfold braceScan at h
        by_cases hquote : opensString byte = true
        · rw [if_pos hquote] at h
          exact hnext h
        rw [if_neg hquote] at h
        by_cases hopen : byte = openBrace
        · rw [if_pos hopen] at h
          exact hnext h
        rw [if_neg hopen] at h
        by_cases hclose : byte = closeBrace
        · rw [if_pos hclose] at h
          by_cases hdepth : depth - 1 = 0
          · rw [if_pos hdepth] at h
            obtain rfl := Option.some.inj h
            exact ⟨0, rfl, congrArg some hclose⟩
          · rw [if_neg hdepth] at h
            exact hnext h
        · rw [if_neg hclose] at h
          exact hnext h

theorem findBraceExpressionEnd_spec {source : Text} {openIndex stop : Nat}
    (h : findBraceExpressionEnd (encode source) openIndex = some stop) :
    CutOut source ⟨openIndex, stop⟩ ∧ openIndex < stop := by
  unfold findBraceExpressionEnd at h
  by_cases hopen : (encode source)[openIndex]? = some openBrace
  · rw [if_neg (not_not_intro hopen)] at h
    obtain ⟨k, rfl, hk⟩ := braceScan_eq_some h
    rw [List.getElem?_drop] at hk
    have hfirst := (isBoundary_of_ascii hopen (by decide)).1
    have hlast := (isBoundary_of_ascii hk (by decide)).2
    exact ⟨⟨hfirst, hlast, by dsimp only; omega⟩, by omega⟩
  · rw [if_pos hopen] at h
    cases h

theorem collectSvelteInlineExpressions_spec {source : Text} (scripts : List ByteRange)
    (fuel index : Nat) (hindex : index ≤ byteLen source) (hfuel : byteLen source < index + fuel) :
    ∃ ranges, collectSvelteInlineExpressions (encode source) scripts fuel index = some ranges ∧
      ∀ range ∈ ranges, CutOut source range := by
  induction fuel generalizing index with
  | zero => omega
  | succ fuel ih =>
    unfold collectSvelteInlineExpressions
    by_cases hlt : index < (encode source).length
    · rw [if_pos hlt]
      rw [length_encode] at hlt
      by_cases hin : inAnyRange index scripts = true
      · rw [if_pos hin]
        exact ih (index + 1) hlt (by omega)
      rw [if_neg hin]
      by_cases hopen : (encode source)[index]? ≠ some openBrace
      · rw [if_pos hopen]
        exact ih (index + 1) hlt (by omega)
      rw [if_neg hopen]
      cases hend : findBraceExpressionEnd (encode source) index with
      | none => exact ih (index + 1) hlt (by omega)
      | some stop =>
        obtain ⟨hcut, hbehind⟩ := findBraceExpressionEnd_spec hend
        obtain ⟨ranges, hranges, hall⟩ := ih stop hcut.last.le (by omega)
        dsimp only
        rw [hranges]
        exact ⟨_, rfl, List.forall_mem_cons.mpr ⟨hcut, hall⟩⟩
    · rw [if_neg hlt]
      exact ⟨[], rfl, fun _ hmem => absurd hmem List.not_mem_nil⟩

variable (source : Text) in
theorem collectKeepRanges_spec (kind : TemplateKind) :
    ∃ keep language, collectKeepRanges kind source = some (keep, language) ∧
      ∀ range ∈ keep, CutOut source range := by
  obtain ⟨scripts, language, hscripts, hcut⟩ := collectScriptBlocks_spec source .javascript
  unfold collectKeepRanges
  rw [hscripts]
  simp only [Option.bind_eq_bind, Option.bind_some]
  cases kind with
  | vue => exact ⟨scripts, language, rfl, hcut⟩
  | svelte =>
    obtain ⟨inline, hinline, hinside⟩ := @collectSvelteInlineExpressions_spec source
      scripts (byteLen source + 1) 0 (Nat.zero_le _) (by omega)
    dsimp only
    rw [hinline]
    refine ⟨_, _, rfl, ?_⟩
    intro range hmem
    rcases List.mem_append.mp hmem with hmem | hmem
    · exact hcut range hmem
    · exact hinside range hmem
  | astro =>
    obtain ⟨frontmatter, tagged, hfrontmatter, hinside⟩ :=
      collectAstroFrontmatter_spec source language
    dsimp only
    rw [hfrontmatter]
    refine ⟨_, _, rfl, ?_⟩
    intro range hmem
    rcases List.mem_append.mp hmem with hmem | hmem
    · exact hcut range hmem
    · exact hinside range hmem

/-! ## Blanking -/

/-- Copying leaves the bytes of the source in the ranges, in whatever order these come. -/
theorem foldlM_copyRange {bytes : List UInt8} {ranges : List ByteRange}
    (h : ∀ range ∈ ranges, range.start ≤ range.stop ∧ range.stop ≤ bytes.length)
    (out : List UInt8) :
    ranges.foldlM (copyRange bytes) out =
      some (out.mapIdx fun i byte => if Covers ranges i then (bytes[i]?).getD byte else byte) := by
  induction ranges generalizing out with
  | nil =>
    rw [List.foldlM_nil]
    apply congrArg some
    apply List.ext_getElem?
    intro i
    rw [List.getElem?_mapIdx]
    cases out[i]? with
    | none => rfl
    | some byte => exact congrArg some (if_neg not_covers_nil).symm
  | cons range later ih =>
    obtain ⟨⟨hle, hlast⟩, hlater⟩ := List.forall_mem_cons.mp h
    have hcopy : copyRange bytes out range = some
        (out.mapIdx fun i byte => if range.Holds i then (bytes[i]?).getD byte else byte) := by
      unfold copyRange
      dsimp only
      rw [min_eq_left hlast, min_eq_left (hle.trans hlast), if_neg (not_lt.mpr hle)]
      rfl
    rw [List.foldlM_cons, hcopy]
    change later.foldlM (copyRange bytes) _ = _
    rw [ih hlater, List.mapIdx_mapIdx]
    apply congrArg some
    apply List.ext_getElem?
    intro i
    rw [List.getElem?_mapIdx, List.getElem?_mapIdx]
    apply Option.map_congr
    intro byte _
    rw [Function.comp_apply]
    by_cases hhere : range.Holds i
    · rw [if_pos hhere, if_pos (covers_cons.mpr (.inl hhere))]
      by_cases hthere : Covers later i
      · rw [if_pos hthere]
        cases bytes[i]? <;> rfl
      · rw [if_neg hthere]
    · rw [if_neg hhere]
      by_cases hthere : Covers later i
      · rw [if_pos hthere, if_pos (covers_cons.mpr (.inr hthere))]
      · rw [if_neg hthere, if_neg fun hcovers => (covers_cons.mp hcovers).elim hhere hthere]

/-- Ranges cut out between characters hold whole characters. -/
theorem covers_whole {source : Text} {ranges : List ByteRange}
    (hcut : ∀ range ∈ ranges, CutOut source range) (a : Text) (c : Char) (b : Text)
    (heq : source = a ++ c :: b) (j : Nat) (hj : j < c.utf8Size) :
    Covers ranges (byteLen a + j) ↔ Covers ranges (byteLen a) := by
  unfold Covers Interval.Holds
  apply exists_congr
  intro range
  apply and_congr_right
  intro hmem
  have hfirst := (hcut range hmem).first
  have hlast := (hcut range hmem).last
  rw [heq] at hfirst hlast
  have := hfirst.outside
  have := hlast.outside
  omega

/-- The fallback is never taken: what is left is text. -/
theorem blankSource_spec {source : Text} {ranges : List ByteRange}
    (hcut : ∀ range ∈ ranges, CutOut source range) :
    ∃ blanked, blankSource source ranges = some blanked ∧
      encode blanked = (encode source).mapIdx fun i byte =>
        if Covers ranges i then byte else blankByte byte := by
  obtain ⟨blanked, hblanked⟩ := @exists_text source (Covers ranges) _ (covers_whole hcut)
  have hout := @foldlM_copyRange (encode source) ranges
    (fun range hmem => ⟨(hcut range hmem).le, length_encode ▸ (hcut range hmem).last.le⟩)
    ((encode source).map blankByte)
  have hsame : ((encode source).map blankByte).mapIdx
      (fun i byte => if Covers ranges i then ((encode source)[i]?).getD byte else byte) =
        encode blanked := by
    rw [hblanked]
    apply List.ext_getElem?
    intro i
    rw [List.getElem?_mapIdx, List.getElem?_mapIdx, List.getElem?_map, Option.map_map]
    cases hget : (encode source)[i]? with
    | none => rfl
    | some byte => rfl
  refine ⟨blanked, ?_, hblanked⟩
  unfold blankSource
  dsimp only
  rw [hout, hsame]
  simp only [Option.bind_eq_bind, Option.bind_some]
  rw [decode_encode]
  rfl

/-- A byte is a line break after blanking exactly if it was one. -/
theorem newlines_mapIdx (bytes : List UInt8) (p : Nat → Prop) [DecidablePred p] :
    (bytes.mapIdx fun i byte => if p i then byte else blankByte byte).map
        (fun byte => decide (byte = newline)) =
      bytes.map fun byte => decide (byte = newline) := by
  apply List.ext_getElem?
  intro i
  rw [List.getElem?_map, List.getElem?_map, List.getElem?_mapIdx, Option.map_map]
  apply Option.map_congr
  intro byte _
  rw [Function.comp_apply]
  by_cases h : p i
  · rw [if_pos h]
  · rw [if_neg h]
    exact decide_eq_decide.mpr (blankByte_eq_newline byte)

theorem prepareTemplateSource_spec (kind : TemplateKind) (source : Text) :
    ∃ result keep language, prepareTemplateSource kind source = some result ∧
      collectKeepRanges kind source = some (keep, language) ∧
      (∀ range ∈ keep, CutOut source range) ∧
      encode result.blanked = ((encode source).mapIdx fun i byte =>
        if Covers keep i then byte else blankByte byte) ∧
      ∀ style ∈ result.styleBlocks, style.PlacedIn source := by
  obtain ⟨keep, language, hkeep, hcut⟩ := collectKeepRanges_spec source kind
  obtain ⟨styles, hstyles, hplaced⟩ := collectStyleBlocks_spec source
  have hsorted : Sorted (keep.insertionSort (Selection.RankLe Interval.start)) :=
    List.pairwise_insertionSort (Selection.RankLe Interval.start) keep
  have hperm := List.perm_insertionSort (Selection.RankLe Interval.start) keep
  have hends : ∀ range ∈ merge (keep.insertionSort (Selection.RankLe Interval.start)),
      range.start ≤ range.stop ∧ IsBoundary source range.start ∧ IsBoundary source range.stop := by
    apply merge_ends
    intro range hmem
    have h := hcut range (hperm.mem_iff.mp hmem)
    exact ⟨h.le, h.first, h.last⟩
  obtain ⟨blanked, hblanked, hencode⟩ := @blankSource_spec source
    (merge (keep.insertionSort (Selection.RankLe Interval.start)))
    (fun range hmem => ⟨(hends range hmem).2.1, (hends range hmem).2.2, (hends range hmem).1⟩)
  refine ⟨⟨blanked, language, styles⟩, keep, language, ?_, hkeep, hcut, ?_, hplaced⟩
  · unfold prepareTemplateSource
    rw [hkeep, hstyles]
    simp only [Option.bind_eq_bind, Option.bind_some]
    rw [hblanked]
    rfl
  · rw [hencode]
    apply congrArg (List.mapIdx · (encode source))
    funext i byte
    exact if_congr ((covers_merge hsorted).trans (covers_perm hperm)) rfl rfl

/-- For every template the pipeline gives a script that has the bytes of the template in the ranges
to keep and its line breaks elsewhere, all else being spaces. Every offset has the line and the
column it has in the template. Each block of style is the part of the template at its recorded
place. -/
theorem template_is_blanked_in_place (kind : TemplateKind) (source : Text) :
    ∃ result keep language, prepareTemplateSource kind source = some result ∧
      collectKeepRanges kind source = some (keep, language) ∧
      (∀ range ∈ keep, CutOut source range) ∧
      encode result.blanked = ((encode source).mapIdx fun i byte =>
        if Covers keep i then byte else blankByte byte) ∧
      (∀ offset, byteOffsetLineCol (encode result.blanked) offset =
        byteOffsetLineCol (encode source) offset) ∧
      ∀ style ∈ result.styleBlocks, style.PlacedIn source := by
  obtain ⟨result, keep, language, hresult, hkeep, hcut, hcovers, hplaced⟩ :=
    prepareTemplateSource_spec kind source
  refine ⟨result, keep, language, hresult, hkeep, hcut, hcovers, ?_, hplaced⟩
  intro offset
  apply byteOffsetLineCol_congr
  rw [hcovers]
  exact newlines_mapIdx (encode source) (Covers keep)

/-! ## The two ways to blank -/

section Agreement

variable {openTag closeTag lower source : Text} {kind : EmbeddedRegionKind}

def TagBlock.region (kind : EmbeddedRegionKind) (source : Text) (block : TagBlock) :
    EmbeddedRegion :=
  let (startLine, startCol) := byteOffsetLineCol (encode source) block.openEnd
  ⟨kind, block.start, block.openEnd, block.closeStart, startLine, startCol⟩

/-- Without a `>` there is no closing tag either. -/
theorem find_closeTag_none {t : Text} (hclose : '>' ∈ closeTag) (hnone : find ['>'] t = none) :
    find closeTag t = none := by
  cases hfind : find closeTag t with
  | none => rfl
  | some n =>
    obtain ⟨a, b, rfl, -, -⟩ := find_eq_some hfind
    obtain ⟨x, y, rfl⟩ := List.append_of_mem hclose
    have hsplit : a ++ ((x ++ '>' :: y) ++ b) = (a ++ x) ++ (['>'] ++ (y ++ b)) := by
      rw [List.append_assoc, List.append_assoc]
      rfl
    have hsome := @find_isSome ['>'] (a ++ x) (y ++ b)
    rw [← hsplit, hnone] at hsome
    cases hsome

/-- The two searches find the same regions. -/
theorem findRegions_eq (hclose : '>' ∈ closeTag) (fuel searchFrom : Nat) :
    findRegions openTag closeTag kind source lower fuel searchFrom =
      (collectBlocks openTag closeTag lower fuel searchFrom).map
        (List.map (TagBlock.region kind source)) := by
  induction fuel generalizing searchFrom with
  | zero => rfl
  | succ fuel ih =>
    unfold findRegions collectBlocks
    cases hrest : sliceFrom lower searchFrom with
    | none => rfl
    | some rest =>
      simp only [Option.bind_eq_bind, Option.bind_some]
      cases hopen : find openTag rest with
      | none => rfl
      | some rel =>
        dsimp only
        cases hfromOpen : sliceFrom lower (searchFrom + rel) with
        | none => rfl
        | some fromOpen =>
          simp only [Option.bind_some]
          cases hend : find ['>'] fromOpen with
          | none =>
            have hnext : sliceFrom lower (((none : Option Nat).map (searchFrom + rel + · + 1)).getD
                (searchFrom + rel)) = some fromOpen := hfromOpen
            rw [hnext]
            simp only [Option.bind_some]
            rw [find_closeTag_none hclose hend]
            rfl
          | some openRel =>
            simp only [Option.map_some, Option.getD_some]
            cases hcontent : sliceFrom lower (searchFrom + rel + openRel + 1) with
            | none => rfl
            | some content =>
              simp only [Option.bind_some]
              cases hclosed : find closeTag content with
              | none => rfl
              | some closeRel =>
                dsimp only
                rw [ih]
                cases collectBlocks openTag closeTag lower fuel
                  (searchFrom + rel + openRel + 1 + closeRel + byteLen closeTag) with
                | none => rfl
                | some later => rfl

variable (source) in
theorem extract_scriptBlocks :
    ∃ regions blocks, extractEmbeddedRegions source = some regions ∧
      scriptBlocks source = some blocks ∧
      scriptRegions regions = blocks.map (TagBlock.region .script source) ∧
      ∀ block ∈ blocks, block.Cut source := by
  obtain ⟨scripts, hscripts, hchained⟩ := findRegions_chained "<script".toList
    "</script>".toList source (source.map Char.toLower) .script (by decide)
    (byteLen (source.map Char.toLower) + 1) 0 .zero (by omega)
  obtain ⟨styles, hstyles, hother⟩ := findRegions_chained "<style".toList
    "</style>".toList source (source.map Char.toLower) .style (by decide)
    (byteLen (source.map Char.toLower) + 1) 0 .zero (by omega)
  obtain ⟨blocks, hblocks, hcut⟩ := collectBlocks_source "<script".toList "</script>".toList
    source (by decide)
  have hinorder : scripts.Pairwise fun earlier later => earlier.startByte < later.startByte :=
    hchained.pairwise.imp_of_mem fun hmem _ hlt => (hchained.all _ hmem).2.2.le.trans_lt hlt
  have hsorted := sorted_scripts (fun region hmem => (hchained.all region hmem).1)
    (fun region hmem => (hother.all region hmem).1) hinorder
  have hsame := hscripts
  rw [findRegions_eq (by decide), hblocks] at hsame
  have hmap := Option.some.inj hsame
  refine ⟨_, blocks, ?_, hblocks, hsorted.trans hmap.symm, hcut⟩
  unfold extractEmbeddedRegions
  dsimp only
  rw [hscripts, hstyles]
  rfl

/-- The ranges that the pipeline keeps for scripts are the script regions. -/
theorem covers_scripts {blocks : List TagBlock} (hcut : ∀ block ∈ blocks, block.Cut source)
    (i : Nat) :
    Covers (blocks.map fun block =>
        (⟨block.openEnd, min block.closeStart (byteLen source)⟩ : ByteRange)) i ↔
      Inside (blocks.map (TagBlock.region .script source)) i := by
  unfold Covers Inside
  constructor
  · rintro ⟨range, hmem, hholds⟩
    obtain ⟨block, hblock, rfl⟩ := List.mem_map.mp hmem
    exact ⟨_, List.mem_map_of_mem hblock, hholds.1, hholds.2.trans_le (min_le_left _ _)⟩
  · rintro ⟨region, hmem, hfirst, hlast⟩
    obtain ⟨block, hblock, rfl⟩ := List.mem_map.mp hmem
    have hmin : min block.closeStart (byteLen source) = block.closeStart :=
      min_eq_left (hcut block hblock).closeStart.le
    refine ⟨_, List.mem_map_of_mem hblock, hfirst, ?_⟩
    dsimp only
    rw [hmin]
    exact hlast

/-- Without a line break there is nothing that blanking leaves. -/
theorem map_blankByte_eq_replicate {bytes : List UInt8} :
    bytes.map blankByte = List.replicate bytes.length space ↔
      ∀ byte ∈ bytes, byte ≠ newline ∧ byte ≠ carriageReturn := by
  rw [List.eq_replicate_iff, List.length_map]
  constructor
  · rintro ⟨-, hall⟩ byte hmem
    by_contra hbreak
    have hsame : blankByte byte = byte := if_neg hbreak
    have hspace := hall _ (List.mem_map_of_mem hmem)
    rw [hsame] at hspace
    rw [hspace] at hbreak
    exact hbreak (by decide)
  · intro hall
    refine ⟨rfl, ?_⟩
    intro blanked hmem
    obtain ⟨byte, hbyte, rfl⟩ := List.mem_map.mp hmem
    exact if_pos (hall byte hbyte)

/-- The script of a Vue component and the scripts of a page are blanked by two passes. For every
source these give the same bytes, unless it has line breaks and no script: those the template
pipeline keeps, and the other pass does not. -/
theorem blanking_passes_agree_iff (source : Text) :
    ∃ result regions out, prepareTemplateSource .vue source = some result ∧
      extractEmbeddedRegions source = some regions ∧ blankNonScriptRegions source = some out ∧
      (encode result.blanked = out ↔ scriptRegions regions ≠ [] ∨
        ∀ byte ∈ encode source, byte ≠ newline ∧ byte ≠ carriageReturn) := by
  obtain ⟨result, keep, language, hresult, hkeep, -, hblanked, -⟩ :=
    prepareTemplateSource_spec .vue source
  obtain ⟨regions, blocks, hregions, hblocks, hscripts, hcut⟩ := extract_scriptBlocks source
  obtain ⟨regions', hregions', hapart⟩ := extract_scripts source
  obtain rfl : regions = regions' := Option.some.inj (hregions.symm.trans hregions')
  have hranges : keep = blocks.map fun block =>
      (⟨block.openEnd, min block.closeStart (byteLen source)⟩ : ByteRange) := by
    unfold collectKeepRanges collectScriptBlocks at hkeep
    rw [hblocks] at hkeep
    simp only [Option.bind_eq_bind, Option.bind_some] at hkeep
    obtain ⟨tagged, htagged⟩ := taggedLanguage_isSome hcut .javascript
    rw [htagged] at hkeep
    exact (congrArg Prod.fst (Option.some.inj hkeep)).symm
  refine ⟨result, regions, blankOutsideRegions (encode source) (scriptRegions regions), hresult,
    hregions, ?_, ?_⟩
  · unfold blankNonScriptRegions
    rw [hregions]
    rfl
  rw [hblanked]
  by_cases hnone : scriptRegions regions = []
  · have hempty : blocks = [] := by
      rw [hnone] at hscripts
      exact List.map_eq_nil_iff.mp hscripts.symm
    have hout : blankOutsideRegions (encode source) (scriptRegions regions) =
        List.replicate (encode source).length space := if_pos hnone
    have hmap : ((encode source).mapIdx fun i byte =>
        if Covers keep i then byte else blankByte byte) = (encode source).map blankByte := by
      apply List.ext_getElem?
      intro i
      rw [List.getElem?_mapIdx, List.getElem?_map]
      apply Option.map_congr
      intro byte _
      rw [hranges, hempty]
      exact if_neg not_covers_nil
    rw [hout, hmap, map_blankByte_eq_replicate]
    exact ⟨Or.inr, fun h => h.resolve_left fun hne => hne hnone⟩
  · rw [blankOutside_eq hapart hnone]
    refine iff_of_true ?_ (.inl hnone)
    apply congrArg (List.mapIdx · (encode source))
    funext i byte
    rw [hranges, hscripts]
    exact if_congr (covers_scripts hcut i) rfl rfl

/-- Two lines of markup: the pipeline keeps the break between them. -/
example : ((prepareTemplateSource .vue "a\nb".toList).map fun result => encode result.blanked,
    blankNonScriptRegions "a\nb".toList) = (some [32, 10, 32], some [32, 32, 32]) := by decide

end Agreement

end CodeStory.Structural
