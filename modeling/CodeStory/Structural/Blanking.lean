import Mathlib.Algebra.Ring.Nat
import CodeStory.Lib.Selection
import CodeStory.Lib.Utf8Text

/-!
# Blanking around embedded regions

`structural/blanking.rs`: the regions between `<script` or `<style` tags and their closing tags, and
the source with everything outside the script regions overwritten by spaces, byte by byte. A slice
that would panic, and a search loop that would not end, give `none`.
-/

set_option autoImplicit false

namespace CodeStory.Structural

open Utf8Text

inductive EmbeddedRegionKind where
  | script
  | style
  deriving DecidableEq, Repr

structure EmbeddedRegion where
  kind : EmbeddedRegionKind
  openStartByte : Nat
  startByte : Nat
  endByte : Nat
  startLine : Nat
  startCol : Nat
  deriving DecidableEq, Repr

def newline : UInt8 := 10

def carriageReturn : UInt8 := 13

def space : UInt8 := 32

/-! ## Lines and columns -/

/-- `u32::try_from(n).unwrap_or(u32::MAX)` -/
def clampU32 (n : Nat) : Nat := min n (2 ^ 32 - 1)

/-- `rposition` of a newline. -/
def lastNewline (bytes : List UInt8) : Option Nat :=
  (bytes.reverse.findIdx? (· = newline)).map fun back => bytes.length - 1 - back

def byteOffsetLineCol (source : List UInt8) (offset : Nat) : Nat × Nat :=
  let offset := min offset source.length
  let before := source.take offset
  let line := clampU32 (before.countP (· = newline) + 1)
  let lineStart := ((lastNewline before).map (· + 1)).getD 0
  (line, clampU32 (offset - lineStart + 1))

/-! ## Regions -/

/-- The loop of `extract_embedded_regions` for one pair of tags. -/
def findRegions (openTag closeTag : Text) (kind : EmbeddedRegionKind) (source lower : Text) :
    Nat → Nat → Option (List EmbeddedRegion)
  | 0, _ => none
  | fuel + 1, searchFrom => do
    match find openTag (← sliceFrom lower searchFrom) with
    | none => some []
    | some openRel =>
      let openStart := searchFrom + openRel
      let contentStart :=
        ((find ['>'] (← sliceFrom lower openStart)).map (openStart + · + 1)).getD openStart
      match find closeTag (← sliceFrom lower contentStart) with
      | none => some []
      | some closeRel =>
        let contentEnd := contentStart + closeRel
        let (startLine, startCol) := byteOffsetLineCol (encode source) contentStart
        let later ← findRegions openTag closeTag kind source lower fuel
          (contentEnd + byteLen closeTag)
        some (⟨kind, openStart, contentStart, contentEnd, startLine, startCol⟩ :: later)

def extractEmbeddedRegions (source : Text) : Option (List EmbeddedRegion) := do
  let lower := source.map Char.toLower
  let fuel := byteLen lower + 1
  let scripts ← findRegions "<script".toList "</script>".toList .script source lower fuel 0
  let styles ← findRegions "<style".toList "</style>".toList .style source lower fuel 0
  some ((scripts ++ styles).insertionSort (Selection.RankLe EmbeddedRegion.startByte))

/-! ## Blanking -/

def blankByte (byte : UInt8) : UInt8 :=
  if byte ≠ newline ∧ byte ≠ carriageReturn then space else byte

def blankRange (out : List UInt8) (start stop : Nat) : List UInt8 :=
  out.mapIdx fun i byte => if start ≤ i ∧ i < stop then blankByte byte else byte

/-- One turn of the loop over the regions to keep. -/
def blankBefore (state : List UInt8 × Nat) (region : EmbeddedRegion) : List UInt8 × Nat :=
  let keepStart := min region.startByte state.1.length
  let keepEnd := min region.endByte state.1.length
  (if state.2 < keepStart then blankRange state.1 state.2 keepStart else state.1, keepEnd)

/-- What is left after the last region. -/
def blankAfter (state : List UInt8 × Nat) : List UInt8 :=
  if state.2 < state.1.length then blankRange state.1 state.2 state.1.length else state.1

def blankOutsideRegions (source : List UInt8) (keep : List EmbeddedRegion) : List UInt8 :=
  if keep = [] then List.replicate source.length space
  else blankAfter (keep.foldl blankBefore (source, 0))

def scriptRegions (regions : List EmbeddedRegion) : List EmbeddedRegion :=
  regions.filter (·.kind = .script)

def blankNonScriptRegions (source : Text) : Option (List UInt8) := do
  let regions ← extractEmbeddedRegions source
  some (blankOutsideRegions (encode source) (scriptRegions regions))

/-! ## The search ends, between characters -/

section Search

variable {openTag closeTag source lower : Text} {kind : EmbeddedRegionKind}

/-- Regions that lie one behind the other from a place on, each cut out between characters. -/
inductive Chained (text : Text) (kind : EmbeddedRegionKind) : Nat → List EmbeddedRegion → Prop
  | nil (searchFrom : Nat) : Chained text kind searchFrom []
  | cons {searchFrom next : Nat} {region : EmbeddedRegion} {later : List EmbeddedRegion}
      (hkind : region.kind = kind) (hopen : searchFrom ≤ region.openStartByte)
      (hstart : region.openStartByte ≤ region.startByte) (hle : region.startByte ≤ region.endByte)
      (hnext : region.endByte < next)
      (hfirst : IsBoundary text region.startByte) (hlast : IsBoundary text region.endByte)
      (hlater : Chained text kind next later) :
      Chained text kind searchFrom (region :: later)

theorem find_offset {pattern t : Text} {n k : Nat} {whole : Text}
    (hslice : sliceFrom whole k = some t) (hfind : find pattern t = some n) :
    ∃ a b, whole = a ++ (pattern ++ b) ∧ byteLen a = k + n := by
  obtain ⟨front, rfl, rfl⟩ := sliceFrom_eq_some.mp hslice
  obtain ⟨a, b, rfl, rfl, -⟩ := find_eq_some hfind
  exact ⟨front ++ a, b, (List.append_assoc _ _ _).symm, byteLen_append⟩

theorem sliceFrom_of_boundary {t : Text} {n : Nat} (h : IsBoundary t n) :
    ∃ rest, sliceFrom t n = some rest := by
  obtain ⟨a, b, rfl, rfl⟩ := h
  exact ⟨b, sliceFrom_append a b⟩

/-- The content begins after the `>` of the opening tag, or at the tag if it has none. -/
theorem contentStart_boundary {openStart : Nat} {fromOpen : Text}
    (hslice : sliceFrom lower openStart = some fromOpen) :
    IsBoundary lower (((find ['>'] fromOpen).map (openStart + · + 1)).getD openStart) ∧
      openStart ≤ ((find ['>'] fromOpen).map (openStart + · + 1)).getD openStart := by
  cases hfind : find ['>'] fromOpen with
  | none =>
    obtain ⟨front, hwhole, hfront⟩ := sliceFrom_eq_some.mp hslice
    exact ⟨⟨front, fromOpen, hwhole, hfront⟩, Nat.le_refl _⟩
  | some n =>
    obtain ⟨a, b, hwhole, ha⟩ := find_offset hslice hfind
    constructor
    · refine ⟨a ++ ['>'], b, ?_, ?_⟩
      · rw [hwhole, List.append_assoc]
      · rw [byteLen_append, ha]
        rfl
    · change openStart ≤ openStart + n + 1
      omega

variable (openTag closeTag source lower kind) in
theorem findRegions_chained (hclose : closeTag ≠ []) (fuel searchFrom : Nat)
    (hfrom : IsBoundary lower searchFrom) (hfuel : byteLen lower < searchFrom + fuel) :
    ∃ regions, findRegions openTag closeTag kind source lower fuel searchFrom = some regions ∧
      Chained lower kind searchFrom regions := by
  induction fuel generalizing searchFrom with
  | zero =>
    obtain ⟨a, b, rfl, rfl⟩ := hfrom
    rw [byteLen_append] at hfuel
    omega
  | succ fuel ih =>
    have hpos : 0 < byteLen closeTag :=
      Nat.pos_of_ne_zero fun hzero => hclose (byteLen_eq_zero.mp hzero)
    obtain ⟨rest, hrest⟩ := sliceFrom_of_boundary hfrom
    unfold findRegions
    rw [hrest]
    simp only [Option.bind_eq_bind, Option.bind_some]
    cases hopen : find openTag rest with
    | none => exact ⟨[], rfl, .nil _⟩
    | some openRel =>
      dsimp only
      obtain ⟨a, b, hwhole, ha⟩ := find_offset hrest hopen
      obtain ⟨fromOpen, hfromOpen⟩ :=
        sliceFrom_of_boundary (t := lower) (n := searchFrom + openRel) ⟨a, _, hwhole, ha⟩
      rw [hfromOpen]
      simp only [Option.bind_some]
      obtain ⟨hboundary, hle⟩ := contentStart_boundary hfromOpen
      generalize ((find ['>'] fromOpen).map (searchFrom + openRel + · + 1)).getD
        (searchFrom + openRel) = contentStart at hboundary hle ⊢
      obtain ⟨content, hcontent⟩ := sliceFrom_of_boundary hboundary
      rw [hcontent]
      simp only [Option.bind_some]
      cases hclosed : find closeTag content with
      | none => exact ⟨[], rfl, .nil _⟩
      | some closeRel =>
        dsimp only
        obtain ⟨a', b', hwhole', ha'⟩ := find_offset hcontent hclosed
        have hnext : IsBoundary lower (contentStart + closeRel + byteLen closeTag) := by
          refine ⟨a' ++ closeTag, b', ?_, ?_⟩
          · rw [hwhole', List.append_assoc]
          · rw [byteLen_append, ha']
        obtain ⟨later, hlater, hchained⟩ := ih _ hnext (by omega)
        rw [hlater]
        refine ⟨_, rfl, .cons rfl ?_ hle ?_ ?_ hboundary ⟨a', _, hwhole', ha'⟩ hchained⟩
        · change searchFrom ≤ searchFrom + openRel
          omega
        · change contentStart ≤ contentStart + closeRel
          omega
        · change contentStart + closeRel < contentStart + closeRel + byteLen closeTag
          omega

/-- A region cut out between characters. -/
structure EmbeddedRegion.Cut (text : Text) (region : EmbeddedRegion) : Prop where
  first : IsBoundary text region.startByte
  last : IsBoundary text region.endByte
  le : region.startByte ≤ region.endByte

theorem Chained.all {searchFrom : Nat} {regions : List EmbeddedRegion}
    (h : Chained lower kind searchFrom regions) :
    ∀ region ∈ regions, region.kind = kind ∧ searchFrom ≤ region.startByte ∧ region.Cut lower := by
  induction h with
  | nil => exact fun _ hmem => absurd hmem List.not_mem_nil
  | cons hkind hopen hstart hle hnext hfirst hlast _ ih =>
    intro region hmem
    rcases List.mem_cons.mp hmem with rfl | hmem
    · exact ⟨hkind, hopen.trans hstart, hfirst, hlast, hle⟩
    · obtain ⟨hk, hfrom, hcut⟩ := ih region hmem
      exact ⟨hk, by omega, hcut⟩

theorem Chained.pairwise {searchFrom : Nat} {regions : List EmbeddedRegion}
    (h : Chained lower kind searchFrom regions) :
    regions.Pairwise fun earlier later => earlier.endByte < later.startByte := by
  induction h with
  | nil => exact List.Pairwise.nil
  | cons hkind hopen hstart hle hnext hfirst hlast hlater ih =>
    refine List.pairwise_cons.mpr ⟨fun later hmem => ?_, ih⟩
    have := (hlater.all later hmem).2.1
    omega

end Search

/-! ## The script regions -/

/-- The script regions of a source: in order, apart from each other, between characters. -/
structure ScriptsApart (source : Text) (scripts : List EmbeddedRegion) : Prop where
  apart : scripts.Pairwise fun earlier later => earlier.endByte < later.startByte
  cut : ∀ region ∈ scripts, region.Cut source

theorem EmbeddedRegion.Cut.of_lower {source : Text} {region : EmbeddedRegion}
    (h : region.Cut (source.map Char.toLower)) : region.Cut source :=
  ⟨h.first.of_map utf8Size_toLower, h.last.of_map utf8Size_toLower, h.le⟩

/-- Sorting leaves regions that are in order as they are. -/
theorem sorted_scripts {scripts styles : List EmbeddedRegion}
    (hscripts : ∀ region ∈ scripts, region.kind = .script)
    (hstyles : ∀ region ∈ styles, region.kind = .style)
    (hapart : scripts.Pairwise fun earlier later => earlier.startByte < later.startByte) :
    scriptRegions ((scripts ++ styles).insertionSort (Selection.RankLe EmbeddedRegion.startByte)) =
      scripts := by
  have hpart : scriptRegions (scripts ++ styles) = scripts := by
    unfold scriptRegions
    rw [List.filter_append, List.filter_eq_self.mpr, List.filter_eq_nil_iff.mpr, List.append_nil]
    · intro region hmem
      rw [hstyles region hmem]
      decide
    · intro region hmem
      exact decide_eq_true (hscripts region hmem)
  have hperm : (scriptRegions
      ((scripts ++ styles).insertionSort (Selection.RankLe EmbeddedRegion.startByte))).Perm
        scripts := by
    have h := (List.perm_insertionSort (Selection.RankLe EmbeddedRegion.startByte)
      (scripts ++ styles)).filter (·.kind = .script)
    exact h.trans (List.Perm.of_eq hpart)
  have hdistinct : scripts.Pairwise fun a b => a.startByte ≠ b.startByte :=
    hapart.imp fun hlt => Nat.ne_of_lt hlt
  refine List.Perm.eq_of_pairwise ?_ ?_ (hapart.imp Nat.le_of_lt) hperm
  · intro a b ha hb hab hba
    by_contra hne
    have : Std.Symm fun a b : EmbeddedRegion => a.startByte ≠ b.startByte :=
      ⟨fun _ _ h => h.symm⟩
    exact hdistinct.forall (hperm.mem_iff.mp ha) hb hne (Nat.le_antisymm hab hba)
  · exact (List.pairwise_insertionSort (Selection.RankLe EmbeddedRegion.startByte) _).filter _

theorem extract_scripts (source : Text) :
    ∃ regions, extractEmbeddedRegions source = some regions ∧
      ScriptsApart source (scriptRegions regions) := by
  obtain ⟨scripts, hscripts, hchained⟩ := findRegions_chained "<script".toList
    "</script>".toList source (source.map Char.toLower) .script (by decide)
    (byteLen (source.map Char.toLower) + 1) 0 .zero (by omega)
  obtain ⟨styles, hstyles, hother⟩ := findRegions_chained "<style".toList
    "</style>".toList source (source.map Char.toLower) .style (by decide)
    (byteLen (source.map Char.toLower) + 1) 0 .zero (by omega)
  refine ⟨(scripts ++ styles).insertionSort (Selection.RankLe EmbeddedRegion.startByte), ?_, ?_⟩
  · unfold extractEmbeddedRegions
    dsimp only
    rw [hscripts, hstyles]
    rfl
  · have hinorder : scripts.Pairwise fun earlier later => earlier.startByte < later.startByte :=
      hchained.pairwise.imp_of_mem fun hmem _ hlt => (hchained.all _ hmem).2.2.le.trans_lt hlt
    rw [sorted_scripts (fun region hmem => (hchained.all region hmem).1)
      (fun region hmem => (hother.all region hmem).1) hinorder]
    exact ⟨hchained.pairwise, fun region hmem => (hchained.all region hmem).2.2.of_lower⟩

/-! ## What is overwritten -/

section Bytes

variable {source : List UInt8} {keep : List EmbeddedRegion}

/-- A byte offset inside one of the regions. -/
def Inside (regions : List EmbeddedRegion) (i : Nat) : Prop :=
  ∃ region ∈ regions, region.startByte ≤ i ∧ i < region.endByte

instance (regions : List EmbeddedRegion) (i : Nat) : Decidable (Inside regions i) :=
  inferInstanceAs (Decidable (∃ region ∈ regions, _))

theorem length_blankRange (out : List UInt8) (start stop : Nat) :
    (blankRange out start stop).length = out.length := List.length_mapIdx

theorem getElem?_blankRange (out : List UInt8) (start stop i : Nat) :
    (blankRange out start stop)[i]? =
      out[i]?.map fun byte => if start ≤ i ∧ i < stop then blankByte byte else byte :=
  List.getElem?_mapIdx

theorem inside_cons {region : EmbeddedRegion} {i : Nat} :
    Inside (region :: keep) i ↔
      region.startByte ≤ i ∧ i < region.endByte ∨ Inside keep i := List.exists_mem_cons_iff _ _ _

/-- A turn of the loop overwrites the bytes between the cursor and the region. -/
theorem getElem?_blankBefore {out : List UInt8} {cursor : Nat} {region : EmbeddedRegion}
    (hbound : region.startByte ≤ out.length) (i : Nat) :
    (blankBefore (out, cursor) region).1[i]? =
      out[i]?.map fun byte =>
        if cursor ≤ i ∧ i < region.startByte then blankByte byte else byte := by
  unfold blankBefore
  dsimp only
  rw [Nat.min_eq_left hbound]
  split
  · exact getElem?_blankRange _ _ _ _
  · rename_i hno
    have hsame : ∀ byte ∈ out[i]?, (if cursor ≤ i ∧ i < region.startByte then blankByte byte
        else byte) = byte := fun byte _ => if_neg (by omega)
    rw [Option.map_congr hsame, Option.map_id']

theorem length_blankBefore (out : List UInt8) (cursor : Nat) (region : EmbeddedRegion) :
    (blankBefore (out, cursor) region).1.length = out.length := by
  unfold blankBefore
  dsimp only
  split
  · exact length_blankRange _ _ _
  · rfl

/-- What the loop and the last step leave, from any point of the loop on. -/
theorem getElem?_blankAfter {out : List UInt8} {cursor : Nat}
    (hkeep : keep.Pairwise fun earlier later => earlier.endByte < later.startByte)
    (hbounds : ∀ region ∈ keep, cursor ≤ region.startByte ∧ region.startByte ≤ region.endByte ∧
      region.endByte ≤ out.length) (i : Nat) :
    (blankAfter (keep.foldl blankBefore (out, cursor)))[i]? =
      out[i]?.map fun byte => if i < cursor ∨ Inside keep i then byte else blankByte byte := by
  induction keep generalizing out cursor with
  | nil =>
    have hnone : ¬ Inside [] i := fun ⟨_, hmem, _⟩ => List.not_mem_nil hmem
    rw [List.foldl_nil]
    unfold blankAfter
    dsimp only
    split
    · rw [getElem?_blankRange]
      apply Option.map_congr
      intro byte hbyte
      have hlt : i < out.length := (List.getElem?_eq_some_iff.mp hbyte).1
      by_cases hi : i < cursor
      · rw [if_neg (by omega), if_pos (.inl hi)]
      · rw [if_pos (by omega), if_neg (not_or.mpr ⟨hi, hnone⟩)]
    · rename_i hno
      have hsame : ∀ byte ∈ out[i]?, (if i < cursor ∨ Inside [] i then byte
          else blankByte byte) = byte := by
        intro byte hbyte
        have hlt : i < out.length := (List.getElem?_eq_some_iff.mp hbyte).1
        exact if_pos (.inl (by omega))
      rw [Option.map_congr hsame, Option.map_id']
  | cons region keep ih =>
    obtain ⟨hahead, hkeep⟩ := List.pairwise_cons.mp hkeep
    obtain ⟨hcursor, hle, hend⟩ := hbounds region List.mem_cons_self
    have hnext : (blankBefore (out, cursor) region).2 = region.endByte := Nat.min_eq_left hend
    have hstate : blankBefore (out, cursor) region =
        ((blankBefore (out, cursor) region).1, region.endByte) := Prod.ext rfl hnext
    rw [List.foldl_cons, hstate, ih hkeep, getElem?_blankBefore (by omega), Option.map_map]
    · apply Option.map_congr
      intro byte _
      dsimp only [Function.comp_apply]
      by_cases hlater : Inside keep i
      · have hafter : region.endByte < i := by
          obtain ⟨later, hmem, hfirst, -⟩ := hlater
          have := hahead later hmem
          omega
        rw [if_pos (.inr hlater), if_neg (by omega), if_pos (.inr (inside_cons.mpr (.inr hlater)))]
      · by_cases hbefore : cursor ≤ i ∧ i < region.startByte
        · have hout : ¬ (i < cursor ∨ Inside (region :: keep) i) := by
            intro h
            rcases h with h | h
            · omega
            · rcases inside_cons.mp h with h | h
              · omega
              · exact hlater h
          rw [if_pos hbefore, if_pos (.inl (by omega)), if_neg hout]
        · rw [if_neg hbefore]
          by_cases hlt : i < region.endByte
          · have hin : i < cursor ∨ Inside (region :: keep) i := by
              by_cases hi : i < cursor
              · exact .inl hi
              · exact .inr (inside_cons.mpr (.inl ⟨by omega, hlt⟩))
            rw [if_pos (.inl hlt), if_pos hin]
          · have hout : ¬ (i < cursor ∨ Inside (region :: keep) i) := by
              intro h
              rcases h with h | h
              · omega
              · rcases inside_cons.mp h with h | h
                · omega
                · exact hlater h
            rw [if_neg (not_or.mpr ⟨hlt, hlater⟩), if_neg hout]
    · intro later hmem
      obtain ⟨-, hle', hend'⟩ := hbounds later (List.mem_cons_of_mem _ hmem)
      have := hahead later hmem
      rw [length_blankBefore]
      exact ⟨by omega, hle', hend'⟩

end Bytes

/-! ## The result is text again -/

theorem encode_spaces (n : Nat) : encode (List.replicate n ' ') = List.replicate n space := by
  induction n with
  | zero => rfl
  | succ n ih =>
    rw [List.replicate_succ, List.replicate_succ, ← ih]
    rfl

/-- A blanked character is spaces, or the line break it was. -/
theorem encodeChar_blanked (c : Char) :
    ∃ t, encode t = (String.utf8EncodeChar c).map blankByte := by
  by_cases hsize : c.utf8Size = 1
  · have hbyte := String.utf8EncodeChar_eq_singleton hsize
    rw [hbyte, List.map_singleton]
    by_cases hbreak : c.val.toUInt8 ≠ newline ∧ c.val.toUInt8 ≠ carriageReturn
    · refine ⟨[' '], ?_⟩
      have hspace : blankByte c.val.toUInt8 = space := if_pos hbreak
      rw [hspace]
      rfl
    · refine ⟨[c], ?_⟩
      have hsame : blankByte c.val.toUInt8 = c.val.toUInt8 := if_neg hbreak
      rw [hsame, ← hbyte]
      exact List.append_nil _
  · refine ⟨List.replicate c.utf8Size ' ', ?_⟩
    rw [encode_spaces, ← String.length_utf8EncodeChar c]
    symm
    apply List.map_eq_replicate_iff.mpr
    intro byte hmem
    have hhigh := le_of_mem_encodeChar hsize hmem
    have hbreak : byte ≠ newline ∧ byte ≠ carriageReturn := by
      constructor
      · rintro rfl
        exact absurd hhigh (by decide)
      · rintro rfl
        exact absurd hhigh (by decide)
    exact if_pos hbreak

/-- Blanking whole characters leaves text. -/
theorem exists_text {t : Text} {P : Nat → Prop} [DecidablePred P]
    (h : ∀ a c b, t = a ++ c :: b → ∀ j < c.utf8Size, (P (byteLen a + j) ↔ P (byteLen a))) :
    ∃ u, encode u = (encode t).mapIdx fun i byte => if P i then byte else blankByte byte := by
  induction t generalizing P with
  | nil => exact ⟨[], rfl⟩
  | cons c t ih =>
    have hrest : ∀ a d b, t = a ++ d :: b → ∀ j < d.utf8Size,
        (P (byteLen a + j + c.utf8Size) ↔ P (byteLen a + c.utf8Size)) := by
      intro a d b heq j hj
      have hd := h (c :: a) d b (by rw [heq]; rfl) j hj
      rw [byteLen_cons] at hd
      have hleft : byteLen a + j + c.utf8Size = c.utf8Size + byteLen a + j := by omega
      rw [hleft, Nat.add_comm (byteLen a)]
      exact hd
    obtain ⟨u, hu⟩ := ih (P := fun i => P (i + c.utf8Size)) hrest
    have hsplit : encode (c :: t) = String.utf8EncodeChar c ++ encode t := rfl
    rw [hsplit, List.mapIdx_append, String.length_utf8EncodeChar, ← hu]
    have hfirst : ∀ j < c.utf8Size, (P j ↔ P 0) := by
      intro j hj
      have hc := h [] c t rfl j hj
      rw [byteLen_nil, Nat.zero_add] at hc
      exact hc
    by_cases hkeep : P 0
    · refine ⟨c :: u, ?_⟩
      have hsame : (String.utf8EncodeChar c).mapIdx
          (fun i byte => if P i then byte else blankByte byte) = String.utf8EncodeChar c := by
        apply List.ext_getElem List.length_mapIdx
        intro i hi _
        rw [List.length_mapIdx, String.length_utf8EncodeChar] at hi
        rw [List.getElem_mapIdx, if_pos ((hfirst i hi).mpr hkeep)]
      rw [hsame]
      rfl
    · obtain ⟨v, hv⟩ := encodeChar_blanked c
      refine ⟨v ++ u, ?_⟩
      have hblank : (String.utf8EncodeChar c).mapIdx
          (fun i byte => if P i then byte else blankByte byte) =
            (String.utf8EncodeChar c).map blankByte := by
        apply List.ext_getElem
        · rw [List.length_mapIdx, List.length_map]
        · intro i hi _
          rw [List.length_mapIdx, String.length_utf8EncodeChar] at hi
          rw [List.getElem_mapIdx, List.getElem_map, if_neg fun hp => hkeep ((hfirst i hi).mp hp)]
      rw [hblank, ← hv, encode_append]

/-- No region begins or ends inside a character. -/
theorem inside_whole {source : Text} {scripts : List EmbeddedRegion}
    (hcut : ∀ region ∈ scripts, region.Cut source) (a : Text) (c : Char) (b : Text)
    (heq : source = a ++ c :: b) (j : Nat) (hj : j < c.utf8Size) :
    Inside scripts (byteLen a + j) ↔ Inside scripts (byteLen a) := by
  unfold Inside
  apply exists_congr
  intro region
  apply and_congr_right
  intro hmem
  have hfirst := (hcut region hmem).first
  have hlast := (hcut region hmem).last
  rw [heq] at hfirst hlast
  have := hfirst.outside
  have := hlast.outside
  omega

/-! ## Lines and columns after blanking -/

/-- A position is read off the newlines alone. -/
theorem byteOffsetLineCol_congr {bytes bytes' : List UInt8}
    (h : bytes.map (fun byte => decide (byte = newline)) =
      bytes'.map fun byte => decide (byte = newline)) (offset : Nat) :
    byteOffsetLineCol bytes offset = byteOffsetLineCol bytes' offset := by
  have hlength : bytes.length = bytes'.length := by
    have := congrArg List.length h
    rw [List.length_map, List.length_map] at this
    exact this
  have hbefore : ∀ n, (bytes.take n).map (fun byte => decide (byte = newline)) =
      (bytes'.take n).map fun byte => decide (byte = newline) := by
    intro n
    rw [List.map_take, List.map_take, h]
  have hcount : ∀ n, (bytes.take n).countP (fun byte => decide (byte = newline)) =
      (bytes'.take n).countP fun byte => decide (byte = newline) := by
    intro n
    have := congrArg (List.countP id) (hbefore n)
    rw [List.countP_map, List.countP_map] at this
    exact this
  have hlast : ∀ n, lastNewline (bytes.take n) = lastNewline (bytes'.take n) := by
    intro n
    have := congrArg (fun l => l.reverse.findIdx? id) (hbefore n)
    rw [← List.map_reverse, ← List.map_reverse, List.findIdx?_map, List.findIdx?_map] at this
    unfold lastNewline
    rw [List.length_take, List.length_take, hlength]
    exact congrArg (Option.map _) this
  unfold byteOffsetLineCol
  dsimp only
  rw [hlength, hcount, hlast]

theorem blankByte_eq_newline (byte : UInt8) : blankByte byte = newline ↔ byte = newline := by
  by_cases h : byte ≠ newline ∧ byte ≠ carriageReturn
  · have hspace : blankByte byte = space := if_pos h
    rw [hspace]
    exact iff_of_false (by decide) h.1
  · have hsame : blankByte byte = byte := if_neg h
    rw [hsame]

/-- With a region to keep, each byte outside the regions is blanked and the others stay. -/
theorem blankOutside_eq {source : Text} {scripts : List EmbeddedRegion}
    (h : ScriptsApart source scripts) (hne : scripts ≠ []) :
    blankOutsideRegions (encode source) scripts =
      (encode source).mapIdx fun i byte => if Inside scripts i then byte else blankByte byte := by
  unfold blankOutsideRegions
  rw [if_neg hne]
  apply List.ext_getElem?
  intro i
  rw [getElem?_blankAfter h.apart, List.getElem?_mapIdx]
  · apply Option.map_congr
    intro byte _
    by_cases hin : Inside scripts i
    · rw [if_pos (.inr hin), if_pos hin]
    · rw [if_neg (not_or.mpr ⟨Nat.not_lt_zero i, hin⟩), if_neg hin]
  · intro region hmem
    have hcut := h.cut region hmem
    rw [length_encode]
    exact ⟨Nat.zero_le _, hcut.le, hcut.last.le⟩

/-- For every source the search ends without a bad slice and its script regions are in order, apart
from each other and between characters. Blanking gives text of the same length that differs from the
source outside the script regions only: there line breaks stay and all other bytes are spaces. So
every place inside a script has the line and the column it has in the source. -/
theorem blanking_keeps_coordinates (source : Text) :
    ∃ regions out, extractEmbeddedRegions source = some regions ∧
      blankNonScriptRegions source = some out ∧
      ScriptsApart source (scriptRegions regions) ∧
      (∃ text, out = encode text) ∧ out.length = byteLen source ∧
      (∀ i, Inside (scriptRegions regions) i → out[i]? = (encode source)[i]?) ∧
      (scriptRegions regions ≠ [] → ∀ i byte, (encode source)[i]? = some byte →
        ¬ Inside (scriptRegions regions) i →
          out[i]? = some (if byte = newline ∨ byte = carriageReturn then byte else space)) ∧
      ∀ offset, Inside (scriptRegions regions) offset →
        byteOffsetLineCol out offset = byteOffsetLineCol (encode source) offset := by
  obtain ⟨regions, hregions, hapart⟩ := extract_scripts source
  refine ⟨regions, blankOutsideRegions (encode source) (scriptRegions regions), hregions, ?_,
    hapart,
    ?_⟩
  · unfold blankNonScriptRegions
    rw [hregions]
    rfl
  · generalize scriptRegions regions = scripts at hapart ⊢
    by_cases hnone : scripts = []
    · have hout : blankOutsideRegions (encode source) scripts =
          List.replicate (byteLen source) space := by
        unfold blankOutsideRegions
        rw [if_pos hnone, length_encode]
      have hnot : ∀ i, ¬ Inside scripts i := by
        rintro i ⟨region, hmem, -⟩
        rw [hnone] at hmem
        exact List.not_mem_nil hmem
      rw [hout]
      exact ⟨⟨_, (encode_spaces _).symm⟩, List.length_replicate, fun i hi => absurd hi (hnot i),
        fun hne => absurd hnone hne, fun i hi => absurd hi (hnot i)⟩
    · rw [blankOutside_eq hapart hnone]
      obtain ⟨text, htext⟩ := exists_text (inside_whole hapart.cut)
      refine ⟨⟨text, htext.symm⟩, ?_, ?_, ?_, ?_⟩
      · rw [List.length_mapIdx, length_encode]
      · intro i hi
        rw [List.getElem?_mapIdx]
        have hsame : ∀ byte ∈ (encode source)[i]?,
            (if Inside scripts i then byte else blankByte byte) = byte := fun byte _ => if_pos hi
        rw [Option.map_congr hsame, Option.map_id']
      · intro _ i byte hbyte hi
        rw [List.getElem?_mapIdx, hbyte, Option.map_some, if_neg hi]
        unfold blankByte
        by_cases hbreak : byte = newline ∨ byte = carriageReturn
        · rw [if_pos hbreak, if_neg (by tauto)]
        · rw [if_neg hbreak, if_pos (not_or.mp hbreak)]
      · intro offset _
        apply byteOffsetLineCol_congr
        apply List.ext_getElem
        · rw [List.length_map, List.length_map, List.length_mapIdx]
        · intro i hi hi'
          rw [List.getElem_map, List.getElem_map, List.getElem_mapIdx]
          split
          · rfl
          · exact decide_eq_decide.mpr (blankByte_eq_newline _)

/-- One script below a heading: the tags are blanked, the line break and the content stay. -/
example : blankNonScriptRegions "é\n<SCRIPT a>x=1</script>".toList =
    some (encode "  \n          x=1         ".toList) := by
  decide

end CodeStory.Structural
