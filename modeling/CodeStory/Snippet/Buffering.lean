import Mathlib.Data.List.Induction
import CodeStory.Lib.InclusiveSplit
import CodeStory.Snippet.LineReader

/-!
# Where the buffers end

A line is decoded buffer by buffer, so a character that lies across two buffers is lost, and only
such a character is. Separately, a cut is not always flagged: when the window fits in the cap but
leaves no room for the suffix, the flag of a capped line is dropped with the closing fence.
-/

set_option autoImplicit false

namespace CodeStory.Snippet

open Utf8Text InclusiveSplit

def endsLine (byte : UInt8) : Bool := byte = 10

def textLines (text : Text) : List Text := splitInclusive (fun c => decide (c = '\n')) text

/-- The pieces in which the buffers bring each line. -/
def bufferLines (buffers : List Bytes) : List (List Bytes) := linePieces endsLine buffers

/-- What is kept of a line that comes in these pieces. -/
def kept (maxLineBytes : Nat) (pieces : List Bytes) : Text :=
  pieces.foldl (fun out piece => out ++ lossy (piece.take (maxLineBytes - byteLen out))) []

/-- The lines that a window shows, with their numbers. -/
def LineWindow.shown {α : Type} (window : LineWindow) (lines : List α) : List (α × Nat) :=
  ((lines.zipIdx 1).map fun entry => (entry.1, min entry.2 window.counterMax)).filter fun entry =>
    window.start ≤ entry.2 ∧ entry.2 ≤ window.stop

/-- The opening fence and the shown lines. -/
def LineWindow.text (window : LineWindow) (lines : List Text) : Text :=
  openingFence ++ (window.shown lines).flatMap fun entry =>
    numberedLine window.focus entry.2 entry.1

/-- Repeated calls, until one reads nothing. -/
def readLines (maxLineBytes : Nat) : Nat → Reader → Except String (List LineRead)
  | 0, _ => .ok []
  | fuel + 1, reader =>
    match readLineCapped reader maxLineBytes with
    | .error error => .error error
    | .ok (read, reader) =>
      if read.total = 0 then .ok [] else (readLines maxLineBytes fuel reader).map (read :: ·)

/-! ## One line -/

section Line
variable {maxLineBytes : Nat} {pieces : List Bytes} {read : LineRead}

def readPieces (maxLineBytes : Nat) (pieces : List Bytes) : LineRead :=
  pieces.foldl (LineRead.take maxLineBytes) {}

theorem out_take (maxLineBytes : Nat) (read : LineRead) (chunk : Bytes) :
    (read.take maxLineBytes chunk).out =
      read.out ++ lossy (chunk.take (maxLineBytes - byteLen read.out)) := by
  unfold LineRead.take
  split
  · dsimp only
    rw [Nat.min_comm, ← List.take_eq_take_min]
  · rename_i hfull
    have hzero : maxLineBytes - byteLen read.out = 0 := by omega
    rw [hzero, List.take_zero]
    exact (List.append_nil _).symm

theorem out_readPieces (maxLineBytes : Nat) (pieces : List Bytes) :
    (readPieces maxLineBytes pieces).out = kept maxLineBytes pieces := by
  have hfold : ∀ (pieces : List Bytes) (read : LineRead),
      (pieces.foldl (LineRead.take maxLineBytes) read).out =
        pieces.foldl (fun out piece => out ++ lossy (piece.take (maxLineBytes - byteLen out)))
          read.out := by
    intro pieces
    induction pieces with
    | nil => exact fun _ => rfl
    | cons piece pieces ih =>
      intro read
      rw [List.foldl_cons, ih, out_take]
      rfl
  exact hfold pieces {}

/-- A piece that leaves the flag down was copied whole. -/
theorem of_take_not_truncated {chunk : Bytes} (hchunk : chunk ≠ [])
    (h : (read.take maxLineBytes chunk).truncated = false) :
    read.truncated = false ∧ byteLen read.out + chunk.length ≤ maxLineBytes ∧
      (read.take maxLineBytes chunk).out = read.out ++ lossy chunk := by
  have hout := out_take maxLineBytes read chunk
  unfold LineRead.take at h
  split at h
  · obtain ⟨htruncated, hcopied⟩ := Bool.or_eq_false_iff.mp h
    have hlength := of_decide_eq_false hcopied
    refine ⟨htruncated, by omega, ?_⟩
    rw [hout, List.take_of_length_le (by omega)]
  · obtain ⟨_, hempty⟩ := Bool.or_eq_false_iff.mp h
    exact absurd (List.isEmpty_iff.mp (by simpa using hempty)) hchunk

theorem take_of_fits {chunk : Bytes} (hchunk : chunk ≠ [])
    (h : byteLen read.out + chunk.length ≤ maxLineBytes) :
    (read.take maxLineBytes chunk).truncated = read.truncated ∧
      (read.take maxLineBytes chunk).out = read.out ++ lossy chunk := by
  have hpos : 0 < chunk.length := List.length_pos_iff.mpr hchunk
  have hlt : byteLen read.out < maxLineBytes := by omega
  refine ⟨?_, ?_⟩
  · unfold LineRead.take
    rw [if_pos hlt]
    dsimp only
    have hnot : ¬ min chunk.length (maxLineBytes - byteLen read.out) < chunk.length := by omega
    rw [decide_eq_false hnot, Bool.or_false]
  · rw [out_take, List.take_of_length_le (by omega)]

/-- A line whose flag is down was copied whole and fits. -/
theorem of_readPieces_not_truncated (hne : ∀ piece ∈ pieces, piece ≠ [])
    (h : (readPieces maxLineBytes pieces).truncated = false) :
    (readPieces maxLineBytes pieces).out = (pieces.map lossy).flatten ∧
      pieces.flatten.length ≤ maxLineBytes := by
  have hfold : ∀ (pieces : List Bytes) (read : LineRead), (∀ piece ∈ pieces, piece ≠ []) →
      (pieces.foldl (LineRead.take maxLineBytes) read).truncated = false →
      (pieces.foldl (LineRead.take maxLineBytes) read).out =
          read.out ++ (pieces.map lossy).flatten ∧
        (pieces = [] ∨ byteLen read.out + pieces.flatten.length ≤ maxLineBytes) ∧
        read.truncated = false := by
    intro pieces
    induction pieces with
    | nil =>
      intro read _ h
      exact ⟨(List.append_nil _).symm, .inl rfl, h⟩
    | cons piece pieces ih =>
      intro read hne h
      obtain ⟨hout, hfits, hflag⟩ := ih _ (fun q hq => hne q (List.mem_cons_of_mem _ hq)) h
      obtain ⟨hread, hpiece, htake⟩ := of_take_not_truncated (hne piece List.mem_cons_self) hflag
      refine ⟨?_, .inr ?_, hread⟩
      · rw [List.foldl_cons, hout, htake, List.map_cons, List.flatten_cons, List.append_assoc]
      · have hgrow := length_le_byteLen_lossy piece
        rw [List.flatten_cons, List.length_append]
        rcases hfits with rfl | hfits
        · rw [List.flatten_nil, List.length_nil]
          omega
        · rw [htake, byteLen_append] at hfits
          omega
  obtain ⟨hout, hfits, _⟩ := hfold pieces {} hne h
  refine ⟨hout, ?_⟩
  rcases hfits with rfl | hfits
  · exact Nat.zero_le _
  · have hzero : byteLen ({} : LineRead).out = 0 := rfl
    omega

/-- Pieces of which each is a text are read whole when the line fits. -/
theorem readPieces_of_aligned {line : Text} (hne : ∀ piece ∈ pieces, piece ≠ [])
    (hline : pieces.flatten = encode line) (hfits : byteLen line ≤ maxLineBytes)
    (haligned : ∀ piece ∈ pieces, ∃ t, piece = encode t) :
    (readPieces maxLineBytes pieces).out = line ∧
      (readPieces maxLineBytes pieces).truncated = false := by
  have hfold : ∀ (pieces : List Bytes) (read : LineRead), (∀ piece ∈ pieces, piece ≠ []) →
      (∀ piece ∈ pieces, ∃ t, piece = encode t) →
      byteLen read.out + pieces.flatten.length ≤ maxLineBytes →
      (pieces.foldl (LineRead.take maxLineBytes) read).truncated = read.truncated ∧
        (pieces.foldl (LineRead.take maxLineBytes) read).out =
          read.out ++ (pieces.map lossy).flatten := by
    intro pieces
    induction pieces with
    | nil => exact fun read _ _ _ => ⟨rfl, (List.append_nil _).symm⟩
    | cons piece pieces ih =>
      intro read hne haligned hlength
      rw [List.flatten_cons, List.length_append] at hlength
      obtain ⟨hflag, hout⟩ := @take_of_fits maxLineBytes read piece
        (hne piece List.mem_cons_self)
        (by omega : byteLen read.out + piece.length ≤ maxLineBytes)
      obtain ⟨t, ht⟩ := haligned piece List.mem_cons_self
      have hsize : byteLen (lossy piece) = piece.length := by
        rw [ht, lossy_encode, length_encode]
      obtain ⟨hflag', hout'⟩ := ih (read.take maxLineBytes piece)
        (fun q hq => hne q (List.mem_cons_of_mem _ hq))
        (fun q hq => haligned q (List.mem_cons_of_mem _ hq))
        (by rw [hout, byteLen_append]; omega)
      refine ⟨hflag'.trans hflag, ?_⟩
      rw [List.foldl_cons, hout', hout, List.map_cons, List.flatten_cons, List.append_assoc]
  have hlength : byteLen ({} : LineRead).out + pieces.flatten.length ≤ maxLineBytes := by
    rw [hline, length_encode]
    have hzero : byteLen ({} : LineRead).out = 0 := rfl
    omega
  obtain ⟨hflag, hout⟩ := hfold pieces {} hne haligned hlength
  exact ⟨hout.trans ((flatten_lossy_iff hne hline).mpr haligned), hflag⟩

theorem readPieces_iff_aligned {line : Text} (hne : ∀ piece ∈ pieces, piece ≠ [])
    (hline : pieces.flatten = encode line) (hfits : byteLen line ≤ maxLineBytes) :
    ((readPieces maxLineBytes pieces).out = line ∧
        (readPieces maxLineBytes pieces).truncated = false) ↔
      ∀ piece ∈ pieces, ∃ t, piece = encode t := by
  constructor
  · rintro ⟨hout, hflag⟩
    rw [← flatten_lossy_iff hne hline, ← (of_readPieces_not_truncated hne hflag).1]
    exact hout
  · exact readPieces_of_aligned hne hline hfits

theorem total_take_pos {chunk : Bytes} (h : 0 < read.total ∨ chunk ≠ []) :
    0 < (read.take maxLineBytes chunk).total := by
  have htotal : (read.take maxLineBytes chunk).total =
      min (read.total + chunk.length) usizeMax := by
    unfold LineRead.take
    split <;> rfl
  have hmax : 0 < usizeMax := by decide
  have hsum : 0 < read.total + chunk.length := by
    rcases h with h | h
    · omega
    · have := List.length_pos_iff.mpr h
      omega
  rw [htotal]
  omega

theorem total_readPieces_pos (hpieces : pieces ≠ []) (hne : ∀ piece ∈ pieces, piece ≠ []) :
    0 < (readPieces maxLineBytes pieces).total := by
  have hfold : ∀ (pieces : List Bytes) (read : LineRead), 0 < read.total →
      0 < (pieces.foldl (LineRead.take maxLineBytes) read).total := by
    intro pieces
    induction pieces with
    | nil => exact fun _ h => h
    | cons piece pieces ih => exact fun read h => ih _ (total_take_pos (.inl h))
  cases pieces with
  | nil => exact absurd rfl hpieces
  | cons piece pieces => exact hfold pieces _ (total_take_pos (.inr (hne piece List.mem_cons_self)))

end Line

/-! ## All lines -/

section Reading
variable {maxLineBytes : Nat} {buffers : List Bytes} {line : List Bytes}
  {lines : List (List Bytes)}

theorem splitInclusive_eq_nil_iff {α : Type} {p : α → Bool} {a : List α} :
    splitInclusive p a = [] ↔ a = [] := by
  constructor
  · intro h
    have hflat := flatten_splitInclusive (p := p) a
    rw [h] at hflat
    exact hflat.symm
  · rintro rfl
    rfl

theorem bufferLines_eq_nil_iff (hne : ∀ b ∈ buffers, b ≠ []) :
    bufferLines buffers = [] ↔ buffers = [] := by
  have hflat : (bufferLines buffers).map List.flatten = splitInclusive endsLine buffers.flatten :=
    flatten_linePieces buffers
  constructor
  · intro h
    rw [h, List.map_nil, eq_comm, splitInclusive_eq_nil_iff] at hflat
    cases buffers with
    | nil => rfl
    | cons b buffers =>
      rw [List.flatten_cons, List.append_eq_nil_iff] at hflat
      exact absurd hflat.1 (hne b List.mem_cons_self)
  · rintro rfl
    rfl

/-- One call reads the pieces of one line. -/
theorem readBuffers_of_line (hne : ∀ b ∈ buffers, b ≠ [])
    (h : bufferLines buffers = line :: lines) (read : LineRead) :
    ∃ rest, readBuffers none maxLineBytes buffers read =
        .ok (line.foldl (LineRead.take maxLineBytes) read, rest) ∧
      bufferLines rest = lines ∧ ∀ b ∈ rest, b ≠ [] := by
  induction buffers generalizing read line lines with
  | nil => cases h
  | cons available later ih =>
    have havailable := hne available List.mem_cons_self
    have hlater : ∀ b ∈ later, b ≠ [] := fun b hb => hne b (List.mem_cons_of_mem _ hb)
    unfold readBuffers
    rw [if_neg (by simpa using havailable)]
    cases hfind : available.findIdx? (fun byte => decide (byte = 10)) with
    | some position =>
      dsimp only
      obtain ⟨hlt, hend, hbefore⟩ := List.findIdx?_eq_some_iff_getElem.mp hfind
      have hsplit : available = available.take position ++
          available[position] :: available.drop (position + 1) := by
        rw [List.getElem_cons_drop, List.take_append_drop]
      have hnot : ∀ x ∈ available.take position, endsLine x = false := by
        intro x hx
        obtain ⟨i, hi, rfl⟩ := List.mem_iff_getElem.mp hx
        rw [List.getElem_take]
        rw [List.length_take] at hi
        simpa [endsLine] using hbefore i (by omega)
      have hlines : bufferLines (available :: later) =
          [available.take position ++ [available[position]]] ::
            bufferLines (available.drop (position + 1) :: later) := by
        unfold bufferLines
        rw [← linePieces_of_end hnot (by simpa [endsLine] using hend), ← hsplit]
      rw [hlines] at h
      obtain ⟨rfl, rfl⟩ := List.cons.inj h
      have htake : available.take (position + 1) =
          available.take position ++ [available[position]] := by
        rw [List.take_add_one, List.getElem?_eq_getElem hlt]
        rfl
      refine ⟨_, by rw [htake]; rfl, ?_, ?_⟩
      · split
        · rfl
        · rename_i hwhole
          rw [List.drop_eq_nil_of_le (Nat.not_lt.mp hwhole)]
          rfl
      · split
        · rename_i hpart
          intro b hb
          rcases List.mem_cons.mp hb with rfl | hb
          · intro hnil
            have hlength := congrArg List.length hnil
            rw [List.length_drop, List.length_nil] at hlength
            omega
          · exact hlater b hb
        · exact hlater
    | none =>
      dsimp only
      have hnot : ∀ x ∈ available, endsLine x = false := by
        intro x hx
        simpa [endsLine] using List.findIdx?_eq_none_iff.mp hfind x hx
      have hlines : bufferLines (available :: later) =
          prependPiece available (bufferLines later) := linePieces_of_within havailable hnot
      rw [hlines] at h
      cases hrest : bufferLines later with
      | nil =>
        rw [hrest] at h
        obtain ⟨rfl, rfl⟩ := List.cons.inj h
        rw [(bufferLines_eq_nil_iff hlater).mp hrest]
        exact ⟨[], rfl, rfl, by simp⟩
      | cons next rest =>
        rw [hrest] at h
        obtain ⟨rfl, rfl⟩ := List.cons.inj h
        exact ih hlater hrest (read.take maxLineBytes available)

theorem readLineCapped_of_line (hne : ∀ b ∈ buffers, b ≠ [])
    (h : bufferLines buffers = line :: lines) :
    ∃ rest, readLineCapped ⟨buffers, none⟩ maxLineBytes =
        .ok (readPieces maxLineBytes line, ⟨rest, none⟩) ∧
      bufferLines rest = lines ∧ ∀ b ∈ rest, b ≠ [] := by
  obtain ⟨rest, hread, hrest⟩ := @readBuffers_of_line maxLineBytes _ _ _ hne h {}
  refine ⟨rest, ?_, hrest⟩
  unfold readLineCapped
  rw [hread]
  rfl

theorem mem_bufferLines (hmem : line ∈ bufferLines buffers) :
    line ≠ [] ∧ ∀ piece ∈ line, piece ≠ [] := by
  refine ⟨?_, fun piece hpiece => ne_nil_of_mem_linePieces hmem hpiece⟩
  rintro rfl
  have hflat := flatten_linePieces (p := endsLine) buffers
  have hnil : ([] : Bytes) ∈ splitInclusive endsLine buffers.flatten := by
    rw [← hflat]
    exact List.mem_map.mpr ⟨[], hmem, rfl⟩
  exact ne_nil_of_mem_splitInclusive hnil rfl

theorem total_readPieces_of_mem (hmem : line ∈ bufferLines buffers) :
    (readPieces maxLineBytes line).total ≠ 0 := by
  obtain ⟨hline, hpieces⟩ := mem_bufferLines hmem
  exact Nat.ne_of_gt (total_readPieces_pos hline hpieces)

theorem readLineCapped_end : readLineCapped ⟨[], none⟩ maxLineBytes = .ok ({}, ⟨[], none⟩) := rfl

/-- Repeated calls read the lines, piece by piece. -/
theorem readLines_eq (hne : ∀ b ∈ buffers, b ≠ []) {fuel : Nat}
    (hfuel : (bufferLines buffers).length < fuel) :
    readLines maxLineBytes fuel ⟨buffers, none⟩ =
      .ok ((bufferLines buffers).map (readPieces maxLineBytes)) := by
  induction fuel generalizing buffers with
  | zero => exact absurd hfuel (Nat.not_lt_zero _)
  | succ fuel ih =>
    unfold readLines
    cases hlines : bufferLines buffers with
    | nil =>
      rw [(bufferLines_eq_nil_iff hne).mp hlines, readLineCapped_end]
      rfl
    | cons line lines =>
      obtain ⟨rest, hread, rfl, hrest⟩ := @readLineCapped_of_line maxLineBytes _ _ _
        hne hlines
      have htotal : (readPieces maxLineBytes line).total ≠ 0 :=
        @total_readPieces_of_mem maxLineBytes buffers line
          (by rw [hlines]; exact List.mem_cons_self)
      rw [hlines, List.length_cons] at hfuel
      rw [hread]
      dsimp only
      rw [if_neg htotal, ih hrest (by omega)]
      rfl

variable {window : LineWindow}

/-- The shown lines among those from a number on. -/
def LineWindow.shownFrom {α : Type} (window : LineWindow) (lineNo : Nat) (lines : List α) :
    List (α × Nat) :=
  ((lines.zipIdx (lineNo + 1)).map fun entry => (entry.1, min entry.2 window.counterMax)).filter
    fun entry => window.start ≤ entry.2 ∧ entry.2 ≤ window.stop

theorem shownFrom_cons {α : Type} (lineNo : Nat) (a : α) (lines : List α) :
    window.shownFrom lineNo (a :: lines) =
      (if window.start ≤ min (lineNo + 1) window.counterMax ∧
          min (lineNo + 1) window.counterMax ≤ window.stop then
        [(a, min (lineNo + 1) window.counterMax)] else []) ++
        window.shownFrom (lineNo + 1) lines := by
  unfold LineWindow.shownFrom
  rw [List.zipIdx_cons, List.map_cons, List.filter_cons]
  simp only [decide_eq_true_eq]
  split
  · rfl
  · rfl

theorem shownFrom_past {α : Type} {lineNo : Nat}
    (h : window.stop < min (lineNo + 1) window.counterMax) (lines : List α) :
    window.shownFrom lineNo lines = [] := by
  induction lines generalizing lineNo with
  | nil => rfl
  | cons a lines ih =>
    rw [shownFrom_cons, if_neg (by omega), ih (by omega)]
    rfl

/-- The loop shows the lines of the window as they were read. -/
theorem showLines_eq (hne : ∀ b ∈ buffers, b ≠ []) {fuel lineNo count : Nat}
    (hfuel : (bufferLines buffers).length < fuel)
    (hcount : count = min lineNo window.counterMax) (out : Text) (truncated : Bool) :
    showLines window maxLineBytes fuel ⟨buffers, none⟩ count out truncated =
      .ok (out ++ (window.shownFrom lineNo ((bufferLines buffers).map
          (readPieces maxLineBytes))).flatMap fun entry =>
            numberedLine window.focus entry.2 entry.1.out,
        truncated || (window.shownFrom lineNo ((bufferLines buffers).map
          (readPieces maxLineBytes))).any fun entry => entry.1.truncated) := by
  induction fuel generalizing buffers lineNo count out truncated with
  | zero => exact absurd hfuel (Nat.not_lt_zero _)
  | succ fuel ih =>
    unfold showLines
    cases hlines : bufferLines buffers with
    | nil =>
      rw [(bufferLines_eq_nil_iff hne).mp hlines, readLineCapped_end]
      simp [LineWindow.shownFrom]
    | cons line lines =>
      obtain ⟨rest, hread, rfl, hrest⟩ := @readLineCapped_of_line maxLineBytes _ _ _
        hne hlines
      have htotal : (readPieces maxLineBytes line).total ≠ 0 :=
        @total_readPieces_of_mem maxLineBytes buffers line
          (by rw [hlines]; exact List.mem_cons_self)
      have hnumber : min (count + 1) window.counterMax = min (lineNo + 1) window.counterMax := by
        omega
      rw [hlines, List.length_cons] at hfuel
      rw [hread]
      dsimp only
      rw [if_neg htotal, hnumber, List.map_cons, shownFrom_cons]
      by_cases hpast : window.stop < min (lineNo + 1) window.counterMax
      · rw [if_pos hpast, if_neg (by omega), shownFrom_past (by omega)]
        simp
      · rw [if_neg hpast]
        by_cases hstart : window.start ≤ min (lineNo + 1) window.counterMax
        · rw [if_pos hstart, if_pos ⟨hstart, Nat.not_lt.mp hpast⟩,
            ih hrest (by omega) (rfl : min (lineNo + 1) window.counterMax = _)]
          simp [Bool.or_assoc, LineWindow.shownFrom]
        · rw [if_neg hstart, if_neg (fun h => hstart h.1),
            ih hrest (by omega) (rfl : min (lineNo + 1) window.counterMax = _)]
          rfl

theorem length_splitInclusive_le {α : Type} (p : α → Bool) (a : List α) :
    (splitInclusive p a).length ≤ a.length := by
  induction a with
  | nil => exact Nat.le_refl 0
  | cons x a ih =>
    rw [splitInclusive, List.length_cons]
    split
    · rw [List.length_cons]
      omega
    · cases hrest : splitInclusive p a with
      | nil => exact Nat.succ_le_succ (Nat.zero_le _)
      | cons line lines =>
        rw [hrest] at ih
        exact Nat.le_succ_of_le ih

theorem length_bufferLines_lt (buffers : List Bytes) :
    (bufferLines buffers).length < buffers.flatten.length + 1 := by
  have hflat := flatten_linePieces (p := endsLine) buffers
  have hlength := length_splitInclusive_le endsLine buffers.flatten
  rw [← hflat, List.length_map] at hlength
  exact Nat.lt_succ_of_le hlength

end Reading

/-! ## Texts -/

section Texts
variable {text : Text} {buffers : List Bytes} {maxLineBytes : Nat}

theorem endsLine_of_mem_encodeChar {c : Char} (hc : c ≠ '\n') {byte : UInt8}
    (h : byte ∈ String.utf8EncodeChar c) : endsLine byte = false := by
  unfold endsLine
  rw [decide_eq_false_iff_not]
  rintro rfl
  have hnat := toNat_of_mem_encodeChar h (by decide)
  exact hc (Char.toNat_inj.mp hnat)

/-- Bytes are cut into lines as their characters are. -/
theorem splitInclusive_encode (text : Text) :
    splitInclusive endsLine (encode text) = (textLines text).map encode := by
  unfold textLines
  induction text with
  | nil => rfl
  | cons c text ih =>
    have hcons : encode (c :: text) = String.utf8EncodeChar c ++ encode text := rfl
    rw [hcons, splitInclusive]
    by_cases hc : c = '\n'
    · subst hc
      have hbytes : String.utf8EncodeChar '\n' = [10] := by decide
      rw [hbytes, List.singleton_append, splitInclusive, ih]
      rfl
    · have hnonempty : String.utf8EncodeChar c ≠ [] := by
        intro hnil
        have hlength := String.length_utf8EncodeChar c
        have hpos := c.utf8Size_pos
        rw [hnil, List.length_nil] at hlength
        omega
      rw [splitInclusive_append hnonempty fun byte => endsLine_of_mem_encodeChar hc, ih,
        decide_eq_false hc, if_neg Bool.false_ne_true]
      cases splitInclusive (fun c => decide (c = '\n')) text with
      | nil =>
        change [String.utf8EncodeChar c] = [encode [c]]
        rw [show encode [c] = String.utf8EncodeChar c ++ [] from rfl, List.append_nil]
      | cons line lines => rfl

theorem flatten_bufferLines (hbytes : buffers.flatten = encode text) :
    (bufferLines buffers).map List.flatten = (textLines text).map encode := by
  rw [← splitInclusive_encode, ← hbytes]
  exact flatten_linePieces buffers

/-- Each buffer is a text of its own. -/
def Aligned (buffers : List Bytes) : Prop := ∀ b ∈ buffers, ∃ t, b = encode t

theorem aligned_flatten {pieces : List Bytes} (h : Aligned pieces) :
    ∃ t, pieces.flatten = encode t := by
  induction pieces with
  | nil => exact ⟨[], rfl⟩
  | cons piece pieces ih =>
    obtain ⟨a, ha⟩ := h piece List.mem_cons_self
    obtain ⟨b, hb⟩ := ih fun q hq => h q (List.mem_cons_of_mem _ hq)
    exact ⟨a ++ b, by rw [List.flatten_cons, ha, hb, encode_append]⟩

theorem aligned_iff_pieces :
    Aligned buffers ↔ ∀ line ∈ bufferLines buffers, Aligned line := by
  have hpieces : (bufferLines buffers).flatten = buffers.flatMap (splitInclusive endsLine) :=
    pieces_joinPieces _
  have hmem : (∀ line ∈ bufferLines buffers, Aligned line) ↔
      ∀ b ∈ buffers, Aligned (splitInclusive endsLine b) := by
    constructor
    · intro h b hb piece hpiece
      have hflat : piece ∈ (bufferLines buffers).flatten := by
        rw [hpieces]
        exact List.mem_flatMap.mpr ⟨b, hb, hpiece⟩
      obtain ⟨line, hline, hmem⟩ := List.mem_flatten.mp hflat
      exact h line hline piece hmem
    · intro h line hline piece hpiece
      have hflat : piece ∈ buffers.flatMap (splitInclusive endsLine) := by
        rw [← hpieces]
        exact List.mem_flatten.mpr ⟨line, hline, hpiece⟩
      obtain ⟨b, hb, hmem⟩ := List.mem_flatMap.mp hflat
      exact h b hb piece hmem
  rw [hmem]
  constructor
  · intro h b hb piece hpiece
    obtain ⟨t, rfl⟩ := h b hb
    rw [splitInclusive_encode] at hpiece
    obtain ⟨line, _, rfl⟩ := List.mem_map.mp hpiece
    exact ⟨line, rfl⟩
  · intro h b hb
    obtain ⟨t, ht⟩ := aligned_flatten (h b hb)
    rw [flatten_splitInclusive] at ht
    exact ⟨t, ht⟩

/-- Lines that fit are read exactly when none of their pieces ends inside a character. -/
theorem reads_iff_aligned {lines : List (List Bytes)} {texts : List Text}
    (hflat : lines.map List.flatten = texts.map encode)
    (hne : ∀ line ∈ lines, ∀ piece ∈ line, piece ≠ [])
    (hfits : ∀ t ∈ texts, byteLen t ≤ maxLineBytes) :
    (lines.map fun line => ((readPieces maxLineBytes line).out,
        (readPieces maxLineBytes line).truncated)) = (texts.map fun t => (t, false)) ↔
      ∀ line ∈ lines, Aligned line := by
  induction lines generalizing texts with
  | nil =>
    obtain rfl : texts = [] := List.map_eq_nil_iff.mp hflat.symm
    simp
  | cons line lines ih =>
    cases texts with
    | nil => cases hflat
    | cons t texts =>
      rw [List.map_cons, List.map_cons] at hflat
      obtain ⟨hline, hflat⟩ := List.cons.inj hflat
      have hhead := readPieces_iff_aligned (hne line List.mem_cons_self) hline
        (hfits t List.mem_cons_self)
      rw [List.map_cons, List.map_cons, List.cons.injEq, Prod.mk.injEq, hhead,
        ih hflat (fun l hl => hne l (List.mem_cons_of_mem _ hl))
          fun s hs => hfits s (List.mem_cons_of_mem _ hs), List.forall_mem_cons]
      rfl

end Texts

/-! ## Snippets -/

section Snippets
variable (window : LineWindow) (text : Text) (buffers : List Bytes) (maxBytes : Nat)
  (suffix : Text)

theorem shown_map {α β : Type} (f : α → β) (lines : List α) :
    window.shown (lines.map f) = (window.shown lines).map fun entry => (f entry.1, entry.2) := by
  unfold LineWindow.shown
  simp only [List.zipIdx_map, List.map_map, List.filter_map]
  rfl

theorem mem_of_mem_shown {α : Type} {window : LineWindow} {lines : List α} {entry : α × Nat}
    (h : entry ∈ window.shown lines) : entry.1 ∈ lines := by
  unfold LineWindow.shown at h
  obtain ⟨numbered, hnumbered, rfl⟩ := List.mem_map.mp (List.mem_filter.mp h).1
  exact (List.mem_zipIdx hnumbered).2.2 ▸ List.getElem_mem _

/-- The cap is no smaller than each line. -/
def Covers : Prop := ∀ line ∈ textLines text, byteLen line ≤ maxBytes

/-- The window as it is put together, before it is closed. -/
def assembled : Text := window.text ((bufferLines buffers).map (kept maxBytes))

/-- Not all of a shown line was copied. -/
def ShowsCutLine : Prop :=
  ∃ entry ∈ window.shown (bufferLines buffers), (readPieces maxBytes entry.1).truncated = true

/-- A shown line was cut, and yet the window fits in the cap with its closing fence, while it does
not fit with the suffix. -/
def LosesFlag : Prop :=
  ShowsCutLine window buffers maxBytes ∧ byteLen (assembled window buffers maxBytes) + 3 ≤
    maxBytes ∧
    maxBytes < byteLen (assembled window buffers maxBytes) + byteLen suffix

/-- The lines are read in order and uncut, and the snippet shows them. -/
def ReadsExactly : Prop :=
  (∃ reads, readLines maxBytes (buffers.flatten.length + 1) ⟨buffers, none⟩ = .ok reads ∧
    (reads.map fun read => (read.out, read.truncated)) =
      (textLines text).map fun line => (line, false)) ∧
  boundedSnippet window (.ok ⟨buffers, none⟩) maxBytes suffix =
    .ok (finishBoundedFileSnippet (window.text (textLines text)) false maxBytes suffix)

/-- The snippet is no longer than the cap, and flagged when a shown line or the whole was cut. -/
def CapsHonestly : Prop :=
  ∃ snippet, boundedSnippet window (.ok ⟨buffers, none⟩) maxBytes suffix = .ok snippet ∧
    byteLen snippet.markdown ≤ maxBytes ∧
    (ShowsCutLine window buffers maxBytes ∨ (window.shown (textLines text) ≠ [] ∧
        maxBytes < byteLen (assembled window buffers maxBytes) + 3) →
      snippet.truncated = true)

variable {window text buffers maxBytes suffix}

theorem boundedSnippet_eq (hne : ∀ b ∈ buffers, b ≠ []) :
    boundedSnippet window (.ok ⟨buffers, none⟩) maxBytes suffix =
      .ok (finishBoundedFileSnippet (assembled window buffers maxBytes)
        ((window.shown ((bufferLines buffers).map (readPieces maxBytes))).any
          fun entry => entry.1.truncated) maxBytes suffix) := by
  have hshow := @showLines_eq maxBytes _ window hne _ _ _
    (length_bufferLines_lt buffers) (by omega : 0 = min 0 window.counterMax) openingFence false
  have hassembled : assembled window buffers maxBytes = openingFence ++
      (window.shown ((bufferLines buffers).map (readPieces maxBytes))).flatMap fun entry =>
        numberedLine window.focus entry.2 entry.1.out := by
    unfold assembled LineWindow.text
    rw [shown_map, shown_map, List.flatMap_map, List.flatMap_map]
    simp only [out_readPieces]
  unfold boundedSnippet
  change (showLines window maxBytes (buffers.flatten.length + 1) ⟨buffers, none⟩ 0 openingFence
    false >>= fun shown => pure (finishBoundedFileSnippet shown.1 shown.2 maxBytes suffix)) = _
  rw [hshow, hassembled]
  rfl

theorem any_truncated_iff :
    ((window.shown ((bufferLines buffers).map (readPieces maxBytes))).any
      fun entry => entry.1.truncated) = true ↔ ShowsCutLine window buffers maxBytes := by
  rw [shown_map, List.any_map, List.any_eq_true]
  rfl

theorem length_shown (hbytes : buffers.flatten = encode text) :
    (window.shown (bufferLines buffers)).length = (window.shown (textLines text)).length := by
  have hflat := congrArg (fun lines => (window.shown lines).length) (flatten_bufferLines hbytes)
  simpa [shown_map] using hflat

theorem ShowsCutLine.shown_ne_nil (hbytes : buffers.flatten = encode text)
    (h : ShowsCutLine window buffers maxBytes) : window.shown (textLines text) ≠ [] := by
  obtain ⟨entry, hentry, -⟩ := h
  rw [← List.length_pos_iff, ← length_shown hbytes]
  exact List.length_pos_of_mem hentry

theorem assembled_ne_openingFence (hbytes : buffers.flatten = encode text)
    (hshown : window.shown (textLines text) ≠ []) :
    assembled window buffers maxBytes ≠ openingFence := by
  have hlength := @length_shown window _ _ hbytes
  unfold assembled LineWindow.text
  rw [shown_map]
  intro hnil
  have hflat := List.append_right_eq_self.mp hnil
  cases hlines : window.shown (bufferLines buffers) with
  | nil =>
    rw [hlines, List.length_nil] at hlength
    exact hshown (List.eq_nil_of_length_eq_zero hlength.symm)
  | cons entry entries =>
    rw [hlines, List.map_cons, List.flatMap_cons, List.append_eq_nil_iff] at hflat
    exact absurd hflat.1 (by simp [numberedLine])

theorem readsExactly_iff (hne : ∀ b ∈ buffers, b ≠ []) (hbytes : buffers.flatten = encode text)
    (hcovers : Covers text maxBytes) :
    ReadsExactly window text buffers maxBytes suffix ↔ Aligned buffers := by
  have hreads := @readLines_eq maxBytes _ hne _ (length_bufferLines_lt buffers)
  have hiff := reads_iff_aligned (flatten_bufferLines hbytes)
    (fun line hline => (mem_bufferLines hline).2) hcovers
  constructor
  · rintro ⟨⟨reads, hok, htexts⟩, _⟩
    rw [hreads] at hok
    obtain rfl := Except.ok.inj hok
    rw [List.map_map] at htexts
    exact aligned_iff_pieces.mpr (hiff.mp htexts)
  · intro haligned
    have htexts := hiff.mpr (aligned_iff_pieces.mp haligned)
    refine ⟨⟨_, hreads, by rw [List.map_map]; exact htexts⟩, ?_⟩
    have houts : (bufferLines buffers).map (kept maxBytes) = textLines text := by
      have h := congrArg (List.map (·.1)) htexts
      rw [List.map_map, List.map_map] at h
      simpa [Function.comp_def, out_readPieces] using h
    have hflags : ((window.shown ((bufferLines buffers).map (readPieces maxBytes))).any
        fun entry => entry.1.truncated) = false := by
      rw [shown_map, List.any_map, List.any_eq_false]
      intro entry hentry
      have hmem : ((readPieces maxBytes entry.1).out, (readPieces maxBytes entry.1).truncated) ∈
          (textLines text).map fun line => (line, false) := by
        rw [← htexts]
        exact List.mem_map.mpr ⟨entry.1, mem_of_mem_shown hentry, rfl⟩
      obtain ⟨_, _, heq⟩ := List.mem_map.mp hmem
      exact fun htrue => Bool.false_ne_true ((Prod.mk.inj heq).2.trans htrue)
    rw [boundedSnippet_eq hne, hflags]
    unfold assembled
    rw [houts]

theorem capsHonestly_iff (hne : ∀ b ∈ buffers, b ≠ []) (hbytes : buffers.flatten = encode text) :
    CapsHonestly window text buffers maxBytes suffix ↔
      ¬ LosesFlag window buffers maxBytes suffix := by
  have hsnippet := @boundedSnippet_eq window buffers maxBytes suffix hne
  constructor
  · rintro ⟨snippet, hok, _, hflag⟩ ⟨hcut, hfits, hsuffix⟩
    rw [hsnippet] at hok
    obtain rfl := Except.ok.inj hok
    have hopen := @assembled_ne_openingFence _ _ _ maxBytes hbytes (hcut.shown_ne_nil hbytes)
    rcases (truncated_finishBoundedFileSnippet hopen _ _ _).mp (hflag (.inl hcut)) with h | ⟨_, h⟩
    · omega
    · omega
  · intro hkeeps
    refine ⟨_, hsnippet, byteLen_finishBoundedFileSnippet _ _ _ _, ?_⟩
    rintro (hcut | ⟨hshown, hover⟩)
    · have hopen := @assembled_ne_openingFence _ _ _ maxBytes hbytes (hcut.shown_ne_nil hbytes)
      rw [truncated_finishBoundedFileSnippet hopen]
      by_cases hfits : byteLen (assembled window buffers maxBytes) + 3 ≤ maxBytes
      · refine .inr ⟨any_truncated_iff.mpr hcut, ?_⟩
        by_contra hsuffix
        exact hkeeps ⟨hcut, hfits, Nat.not_le.mp hsuffix⟩
      · exact .inl (Nat.not_le.mp hfits)
    · rw [truncated_finishBoundedFileSnippet (assembled_ne_openingFence hbytes hshown)]
      exact .inl hover

/-- A snippet is right when no buffer ends inside a character and no flag is lost, and only
then. Both functions are `boundedSnippet` at their windows. -/
theorem snippet_is_right_iff (hne : ∀ b ∈ buffers, b ≠ [])
    (hbytes : buffers.flatten = encode text) (window : LineWindow) (maxBytes : Nat)
    (suffix : Text) :
    ((Covers text maxBytes → ReadsExactly window text buffers maxBytes suffix) ∧
        CapsHonestly window text buffers maxBytes suffix) ↔
      (Covers text maxBytes → Aligned buffers) ∧
        ¬ LosesFlag window buffers maxBytes suffix := by
  rw [capsHonestly_iff hne hbytes]
  apply and_congr_left
  intro _
  constructor
  · exact fun h hcovers => (readsExactly_iff hne hbytes hcovers).mp (h hcovers)
  · exact fun h hcovers => (readsExactly_iff hne hbytes hcovers).mpr (h hcovers)

/-- The first line of a file. -/
def firstLine : LineWindow := contextWindow 1 0

/-- One character across two buffers. -/
def splitAccent : List Bytes := [[0xC3], [0xA9]]

/-- A line of carriage returns that is longer than the cap. -/
def carriageReturns : Text := List.replicate 60 '\r' ++ ['\n']

theorem splitAccent_is_lost :
    (∀ b ∈ splitAccent, b ≠ []) ∧ splitAccent.flatten = encode ['é'] ∧ Covers ['é'] 64 ∧
      ¬ ReadsExactly firstLine ['é'] splitAccent 64 directSnippetTruncationSuffix ∧
      ¬ CapsHonestly firstLine carriageReturns [encode carriageReturns] 50
        directSnippetTruncationSuffix := by
  refine ⟨by decide, by decide, ?_, ?_, ?_⟩
  · unfold Covers
    decide
  · rintro ⟨⟨reads, hok, htexts⟩, _⟩
    have hread : (readLines 64 3 ⟨splitAccent, none⟩).toOption =
        some [⟨2, [replacementChar, replacementChar], false⟩] := by decide
    have hreads : (readLines 64 3 ⟨splitAccent, none⟩).toOption = some reads :=
      congrArg Except.toOption hok
    rw [hread] at hreads
    obtain rfl := Option.some.inj hreads
    exact absurd htexts (by decide)
  · rintro ⟨snippet, hok, _, hflag⟩
    have hsnippet : ((boundedSnippet firstLine (.ok ⟨[encode carriageReturns], none⟩) 50
        directSnippetTruncationSuffix).toOption.map (·.truncated)) = some false := by
      decide +kernel
    rw [hok] at hsnippet
    have hcut : ShowsCutLine firstLine [encode carriageReturns] 50 :=
      ⟨([encode carriageReturns], 1), by decide, by decide⟩
    rw [show (Except.ok snippet : Except String BoundedSnippet).toOption.map (·.truncated) =
      some snippet.truncated from rfl, hflag (.inl hcut)] at hsnippet
    cases hsnippet

/-- Three lines in four buffers, of which the first three end inside a line. -/
def bufferTexts : List Text := ["fn".toList, " a\né".toList, " b".toList, "\nend".toList]

theorem snippet_is_right_across_buffers :
    (Covers bufferTexts.flatten 64 →
        ReadsExactly (contextWindow 2 1) bufferTexts.flatten (bufferTexts.map encode) 64
          directSnippetTruncationSuffix) ∧
      CapsHonestly (contextWindow 2 1) bufferTexts.flatten (bufferTexts.map encode) 64
        directSnippetTruncationSuffix := by
  have hne : ∀ b ∈ bufferTexts.map encode, b ≠ [] := by decide
  have hbytes : (bufferTexts.map encode).flatten = encode bufferTexts.flatten := by decide
  apply (snippet_is_right_iff hne hbytes (contextWindow 2 1) 64 directSnippetTruncationSuffix).mpr
  refine ⟨?_, ?_⟩
  · intro _ b hb
    obtain ⟨t, -, rfl⟩ := List.mem_map.mp hb
    exact ⟨t, rfl⟩
  · rintro ⟨⟨entry, hentry, hcut⟩, _⟩
    have huncut : ∀ entry ∈ (contextWindow 2 1).shown (bufferLines (bufferTexts.map encode)),
        (readPieces 64 entry.1).truncated = false := by decide
    exact absurd (hcut.symm.trans (huncut entry hentry)) (by decide)

end Snippets

end CodeStory.Snippet
