import CodeStory.Structural.ScriptLines

/-!
# What the script maskers leave

Every turn of the shell masker and of the PowerShell masker goes from boundary to boundary, or byte
by byte through a character in a state that no part of it changes. So for each line and each state
the masked bytes are text again, in which every character stands where it was or has given way to
spaces.
-/

set_option autoImplicit false

namespace CodeStory.Structural

open Utf8Text ByteMask

section Bytes

variable {line : Text} {n cursor : Nat} {byte : UInt8}

theorem high_of_not_boundary (hn : ¬ IsBoundary line n) (hget : (encode line)[n]? = some byte) :
    ¬ byte < 128 := fun hlt => hn (isBoundary_of_ascii hget hlt).1

theorem ne_of_high (hhigh : ¬ byte < 128) {ascii : UInt8} (hlt : ascii < 128) : byte ≠ ascii := by
  intro heq
  rw [heq] at hhigh
  exact hhigh hlt

/-- No text of ASCII bytes begins with a byte that is not ASCII. -/
theorem not_begins_of_high (hget : (encode line)[n]? = some byte) (hhigh : ¬ byte < 128)
    {ascii : UInt8} {rest : List UInt8} (hlt : ascii < 128) :
    ¬ ascii :: rest <+: (encode line).drop n := by
  intro h
  obtain ⟨tail, heq⟩ := h
  rw [← List.head?_drop, ← heq] at hget
  cases hget
  exact hhigh hlt

theorem exists_byte (hn : n < byteLen line) : ∃ byte, (encode line)[n]? = some byte := by
  have hlength : n < (encode line).length := by
    rw [length_encode]
    exact hn
  exact ⟨_, List.getElem?_eq_getElem hlength⟩

/-- Where a run of other bytes ends at an ASCII byte or with the line, there is a boundary. -/
theorem isBoundary_at_end {ends : UInt8 → Bool} (hends : ∀ byte, ends byte = true → byte < 128)
    (hle : n ≤ byteLen line) :
    IsBoundary line (n + (((encode line).drop n).takeWhile fun byte => !ends byte).length) := by
  have hsplit := List.takeWhile_append_dropWhile (p := fun byte => !ends byte)
    (l := (encode line).drop n)
  have hlength := congrArg List.length hsplit
  rw [List.length_append, List.length_drop, length_encode] at hlength
  cases hrest : ((encode line).drop n).dropWhile fun byte => !ends byte with
  | nil =>
    rw [hrest, List.length_nil] at hlength
    have hend : n + (((encode line).drop n).takeWhile fun byte => !ends byte).length =
        byteLen line := by omega
    rw [hend]
    exact IsBoundary.end
  | cons byte rest =>
    have hstop : ends byte = true := by
      have h := List.head?_dropWhile_not (fun byte => !ends byte) ((encode line).drop n)
      rw [hrest] at h
      simpa using h
    have hget : (encode line)[n + (((encode line).drop n).takeWhile
        fun byte => !ends byte).length]? = some byte := by
      rw [← List.getElem?_drop]
      conv_lhs =>
        arg 1
        rw [← hsplit, hrest]
      rw [List.getElem?_append_right (Nat.le_refl _), Nat.sub_self]
      rfl
    exact (isBoundary_of_ascii hget (hends byte hstop)).1

theorem isBoundary_behind_run {p : UInt8 → Bool} (hp : ∀ byte, p byte = true → byte < 128)
    (hbound : IsBoundary line n) :
    IsBoundary line (n + (((encode line).drop n).takeWhile p).length) := by
  apply isBoundary_behind_ascii hbound _ (List.takeWhile_prefix p)
  intro byte hbyte
  exact hp byte (List.mem_takeWhile_imp hbyte)

theorem isAsciiWhitespace_lt (h : isAsciiWhitespace byte = true) : byte < 128 := by
  unfold isAsciiWhitespace at h
  simp only [Bool.or_eq_true, decide_eq_true_eq] at h
  rcases h with (((rfl | rfl) | rfl) | rfl) | rfl <;> decide

theorem isDelimiterQuote_lt (h : isDelimiterQuote byte = true) : byte < 128 := by
  unfold isDelimiterQuote at h
  simp only [Bool.or_eq_true, beq_iff_eq] at h
  rcases h with rfl | rfl <;> decide

theorem isDelimiterEnd_lt (h : isDelimiterEnd byte = true) : byte < 128 := by
  unfold isDelimiterEnd at h
  simp only [Bool.or_eq_true, beq_iff_eq] at h
  rcases h with ((((h | rfl) | rfl) | rfl) | rfl) | rfl
  · exact isAsciiWhitespace_lt h
  all_goals decide

/-- Between two boundaries the line can be cut. -/
theorem exists_slice {m : Nat} (hn : IsBoundary line n) (hm : IsBoundary line m) (hle : n ≤ m) :
    ∃ part, slice line n m = some part :=
  Option.isSome_iff_exists.mp (slice_isSome hn hm hle)

end Bytes

/-! ## Shell -/

section Shell

variable {line : Text} {cursor : Nat} {byte : UInt8}

theorem maskShellEscape_spec (hget : (encode line)[cursor]? = some backslashByte) :
    ∃ next, maskShellEscape line cursor = some next ∧ cursor < next ∧ IsBoundary line next := by
  obtain ⟨a, b, rfl, hlen⟩ := (isBoundary_of_ascii hget (by decide)).2
  unfold maskShellEscape
  rw [← hlen, sliceFrom_append]
  cases b with
  | nil =>
    refine ⟨_, rfl, ?_, IsBoundary.end⟩
    rw [List.append_nil]
    exact Nat.lt_of_succ_le (Nat.le_of_eq hlen.symm)
  | cons c b =>
    refine ⟨_, rfl, ?_, a ++ [c], b, ?_, ?_⟩
    · dsimp only
      omega
    · rw [List.append_assoc, List.singleton_append]
    · rw [byteLen_append, byteLen_cons, byteLen_nil, Nat.add_zero]

theorem delimiterEnds_lt {quote : Option UInt8} (hquote : ∀ q ∈ quote, q < 128)
    (h : delimiterEnds quote byte = true) : byte < 128 := by
  cases quote with
  | none => exact isDelimiterEnd_lt h
  | some q =>
    rw [eq_of_beq h]
    exact hquote q rfl

theorem heredocTerminator_spec {stripTabs : Bool} {quote : Option UInt8} {start : Nat}
    (hquote : ∀ q ∈ quote, q < 128) (hstart : IsBoundary line start) :
    ∃ next heredocs, heredocTerminator line stripTabs quote start = some (next, heredocs) ∧
      start ≤ next ∧ IsBoundary line next := by
  have hstop : IsBoundary line (start +
      (((encode line).drop start).takeWhile fun byte => !delimiterEnds quote byte).length) :=
    isBoundary_at_end (fun _ => delimiterEnds_lt hquote) hstart.le
  unfold heredocTerminator
  dsimp only
  have hle : start ≤ start +
      (((encode line).drop start).takeWhile fun byte => !delimiterEnds quote byte).length :=
    Nat.le_add_right _ _
  generalize start + (((encode line).drop start).takeWhile fun byte =>
    !delimiterEnds quote byte).length = stop at hstop hle ⊢
  obtain ⟨part, hpart⟩ := exists_slice hstart hstop hle
  have hnext : start ≤ (if quote.isSome = true ∧ (encode line)[stop]? = quote then stop + 1
      else stop) ∧ IsBoundary line
        (if quote.isSome = true ∧ (encode line)[stop]? = quote then stop + 1 else stop) := by
    split
    · rename_i hclosed
      obtain ⟨q, rfl⟩ := Option.isSome_iff_exists.mp hclosed.1
      exact ⟨by omega, (isBoundary_of_ascii hclosed.2 (hquote q rfl)).2⟩
    · exact ⟨hle, hstop⟩
  rw [hpart]
  by_cases hlt : start < stop
  · rw [if_pos hlt]
    exact ⟨_, _, rfl, hnext⟩
  · rw [if_neg hlt]
    exact ⟨_, _, rfl, hnext⟩

theorem shellHeredoc_spec (hbound : IsBoundary line cursor) :
    ∃ next heredocs, shellHeredoc line cursor = some (next, heredocs) ∧ cursor ≤ next ∧
      IsBoundary line next := by
  unfold shellHeredoc
  dsimp only
  have htabs : ∀ b : Bool, ((encode line)[cursor]? == some 45) = b →
      IsBoundary line (if b = true then cursor + 1 else cursor) ∧
        cursor ≤ (if b = true then cursor + 1 else cursor) := by
    intro b hb
    cases b with
    | false => exact ⟨hbound, Nat.le_refl _⟩
    | true => exact ⟨(isBoundary_of_ascii (eq_of_beq hb) (by decide)).2, Nat.le_succ _⟩
  obtain ⟨hafterTabs, hle⟩ := htabs _ rfl
  generalize (if ((encode line)[cursor]? == some 45) = true then cursor + 1 else cursor) = first
    at hafterTabs hle ⊢
  have hblank : IsBoundary line
      (first + (((encode line).drop first).takeWhile isAsciiWhitespace).length) :=
    isBoundary_behind_run (fun _ => isAsciiWhitespace_lt) hafterTabs
  have hle' : cursor ≤ first + (((encode line).drop first).takeWhile isAsciiWhitespace).length := by
    omega
  generalize first + (((encode line).drop first).takeWhile isAsciiWhitespace).length = opening
    at hblank hle' ⊢
  cases hquote : (encode line)[opening]?.filter isDelimiterQuote with
  | none =>
    obtain ⟨next, heredocs, hnext, hlt, hbehind⟩ := @heredocTerminator_spec line
      ((encode line)[cursor]? == some 45) none opening (fun _ h => nomatch h) hblank
    exact ⟨next, heredocs, hnext, hle'.trans hlt, hbehind⟩
  | some quote =>
    obtain ⟨hget, hisQuote⟩ := Option.filter_eq_some_iff.mp hquote
    have hascii := isDelimiterQuote_lt hisQuote
    have hstart : IsBoundary line (opening + 1) := (isBoundary_of_ascii hget hascii).2
    have hall : ∀ q ∈ some quote, q < 128 := by
      intro q hq
      cases hq
      exact hascii
    obtain ⟨next, heredocs, hnext, hlt, hbehind⟩ := @heredocTerminator_spec line
      ((encode line)[cursor]? == some 45) (some quote) (opening + 1) hall hstart
    exact ⟨next, heredocs, hnext, by omega, hbehind⟩

/-- Whether the shell masker masks a character no part of which it reacts to. -/
def shellInner (scan : ShellScan) : Option Bool :=
  some (scan.1.quote.isSome || decide (0 < scan.1.arithmeticParenDepth))

/-- The turns that go one byte on, in front of or behind which a character may go on. -/
theorem shellTurn_inside {scan : ShellScan} {n : Nat} (hget : (encode line)[n]? = some byte)
    (hhigh : ¬ byte < 128) {masks : Bool} (hinner : shellInner scan = some masks) :
    shellTurn line scan n = some ⟨n + 1, masks, scan⟩ := by
  have hne : ∀ ascii : UInt8, ascii < 128 → byte ≠ ascii := fun _ => ne_of_high hhigh
  have hbegins : ∀ (ascii : UInt8) (rest : List UInt8), ascii < 128 →
      ¬ ascii :: rest <+: (encode line).drop n := fun _ _ => not_begins_of_high hget hhigh
  unfold shellInner at hinner
  unfold shellTurn
  rw [hget, Option.bind_some]
  cases hquote : scan.1.quote with
  | some quote =>
    rw [hquote, Option.isSome_some, Bool.true_or] at hinner
    cases hinner
    cases quote with
    | single =>
      unfold quotedTurn
      dsimp only
      rw [if_neg (hne singleQuote (by decide))]
    | double =>
      unfold quotedTurn
      dsimp only
      rw [if_neg (hne backslashByte (by decide)), if_neg (hne doubleQuote (by decide))]
  | none =>
    rw [hquote, Option.isSome_none, Bool.false_or] at hinner
    dsimp only
    by_cases hdepth : 0 < scan.1.arithmeticParenDepth
    · rw [decide_eq_true hdepth] at hinner
      cases hinner
      unfold arithmeticTurn
      dsimp only
      rw [if_pos hdepth, if_neg (hne backslashByte (by decide)),
        if_neg (hne singleQuote (by decide)),
        if_neg (hne doubleQuote (by decide)), if_neg (hne openParen (by decide)),
        if_neg (hne closeParen (by decide))]
    · rw [decide_eq_false hdepth] at hinner
      cases hinner
      have hopener : arithmeticOpenerLen ((encode line).drop n) = none := by
        unfold arithmeticOpenerLen
        rw [if_neg (hbegins 36 _ (by decide)), if_neg (hbegins openParen _ (by decide))]
      unfold codeTurn
      dsimp only
      rw [if_neg hdepth, if_neg (hne hash (by decide)), if_neg (hne backslashByte (by decide)),
        if_neg (hne singleQuote (by decide)), if_neg (hne doubleQuote (by decide)), hopener]
      dsimp only
      rw [if_neg (hbegins 60 _ (by decide)), if_pos (hbegins 60 _ (by decide))]

/-- A turn between characters goes to a boundary, or one byte on in the same state. -/
def GoesOn (line : Text) (scan : ShellScan) (n : Nat) (turn : Option (Turn ShellScan)) : Prop :=
  ∃ t, turn = some t ∧ n < t.next ∧
    (IsBoundary line t.next ∨ t.next = n + 1 ∧ t.state = scan ∧ shellInner scan = some t.masks)

theorem goesOn_escape {scan : ShellScan} {n : Nat}
    (hget : (encode line)[n]? = some backslashByte) :
    GoesOn line scan n ((maskShellEscape line n).map fun next => ⟨next, true, scan⟩) := by
  obtain ⟨next, hnext, hlt, hbound⟩ := maskShellEscape_spec hget
  rw [hnext]
  exact ⟨_, rfl, hlt, Or.inl hbound⟩

theorem goesOn_byte {scan state : ShellScan} {n : Nat} {masks : Bool}
    (hget : (encode line)[n]? = some byte)
    (h : state = scan ∧ shellInner scan = some masks ∨ byte < 128) :
    GoesOn line scan n (some ⟨n + 1, masks, state⟩) := by
  refine ⟨_, rfl, Nat.lt_succ_self n, ?_⟩
  rcases h with ⟨hstate, hinner⟩ | hlt
  · exact Or.inr ⟨rfl, hstate, hinner⟩
  · exact Or.inl (isBoundary_of_ascii hget hlt).2

/-- The opener of an arithmetic expression, or any run of ASCII bytes. -/
theorem goesOn_run {scan state : ShellScan} {n : Nat} {masks : Bool} {run : List UInt8}
    (hbound : IsBoundary line n) (hascii : ∀ byte ∈ run, byte < 128)
    (hrun : run <+: (encode line).drop n) (hpos : 0 < run.length) :
    GoesOn line scan n (some ⟨n + run.length, masks, state⟩) :=
  ⟨_, rfl, Nat.lt_add_of_pos_right hpos, Or.inl (isBoundary_behind_ascii hbound hascii hrun)⟩

theorem quotedTurn_goesOn {scan : ShellScan} {n : Nat} (quote : ShellQuote)
    (hget : (encode line)[n]? = some byte) (hinner : shellInner scan = some true) :
    GoesOn line scan n (quotedTurn line scan quote n byte) := by
  unfold quotedTurn
  cases quote with
  | single =>
    dsimp only
    apply goesOn_byte hget
    by_cases hclose : byte = singleQuote
    · right
      rw [hclose]
      decide
    · left
      exact ⟨if_neg hclose, hinner⟩
  | double =>
    dsimp only
    by_cases hescape : byte = backslashByte
    · rw [if_pos hescape]
      rw [hescape] at hget
      exact goesOn_escape hget
    · rw [if_neg hescape]
      apply goesOn_byte hget
      by_cases hclose : byte = doubleQuote
      · right
        rw [hclose]
        decide
      · left
        exact ⟨if_neg hclose, hinner⟩

theorem arithmeticTurn_goesOn {scan : ShellScan} {n : Nat} (hget : (encode line)[n]? = some byte)
    (hinner : shellInner scan = some true) :
    GoesOn line scan n (arithmeticTurn line scan n byte) := by
  unfold arithmeticTurn
  by_cases hescape : byte = backslashByte
  · rw [if_pos hescape]
    rw [hescape] at hget
    exact goesOn_escape hget
  · rw [if_neg hescape]
    apply goesOn_byte hget
    by_cases hascii : byte < 128
    · exact Or.inr hascii
    · left
      have hne : ∀ ascii : UInt8, ascii < 128 → byte ≠ ascii := fun _ => ne_of_high hascii
      rw [if_neg (hne singleQuote (by decide)), if_neg (hne doubleQuote (by decide)),
        if_neg (hne openParen (by decide)), if_neg (hne closeParen (by decide))]
      exact ⟨rfl, hinner⟩

theorem codeTurn_goesOn {scan : ShellScan} {n : Nat} (hbound : IsBoundary line n)
    (hget : (encode line)[n]? = some byte) (hn : n < byteLen line)
    (hinner : shellInner scan = some false) : GoesOn line scan n (codeTurn line scan n byte) := by
  unfold codeTurn
  dsimp only
  by_cases hcomment : byte = hash
  · rw [if_pos hcomment]
    exact ⟨_, rfl, hn, Or.inl IsBoundary.end⟩
  rw [if_neg hcomment]
  by_cases hescape : byte = backslashByte
  · rw [if_pos hescape]
    rw [hescape] at hget
    exact goesOn_escape hget
  rw [if_neg hescape]
  by_cases hsingle : byte = singleQuote
  · rw [if_pos hsingle]
    apply goesOn_byte hget
    right
    rw [hsingle]
    decide
  rw [if_neg hsingle]
  by_cases hdouble : byte = doubleQuote
  · rw [if_pos hdouble]
    apply goesOn_byte hget
    right
    rw [hdouble]
    decide
  rw [if_neg hdouble]
  unfold arithmeticOpenerLen
  by_cases hdollar : [36, openParen, openParen] <+: (encode line).drop n
  · rw [if_pos hdollar]
    exact goesOn_run hbound (ascii_of_all (by decide)) hdollar (by decide)
  rw [if_neg hdollar]
  by_cases hparens : [openParen, openParen] <+: (encode line).drop n
  · rw [if_pos hparens]
    exact goesOn_run hbound (ascii_of_all (by decide)) hparens (by decide)
  rw [if_neg hparens]
  dsimp only
  by_cases hstring : [60, 60, 60] <+: (encode line).drop n
  · rw [if_pos hstring]
    exact goesOn_run hbound (ascii_of_all (by decide)) hstring (by decide)
  rw [if_neg hstring]
  by_cases hheredoc : [60, 60] <+: (encode line).drop n
  · rw [if_neg (not_not_intro hheredoc)]
    have hbehind : IsBoundary line (n + 2) :=
      isBoundary_behind_ascii hbound (ascii_of_all (by decide)) hheredoc
    obtain ⟨next, heredocs, hnext, hle, hboundary⟩ := shellHeredoc_spec hbehind
    rw [hnext]
    refine ⟨_, rfl, ?_, Or.inl hboundary⟩
    dsimp only
    omega
  · rw [if_pos hheredoc]
    apply goesOn_byte hget
    left
    exact ⟨rfl, hinner⟩

theorem shellTurn_whole (line : Text) : WholeTurns (shellTurn line) line shellInner where
  outside := by
    intro scan n hbound hn
    obtain ⟨byte, hget⟩ := exists_byte hn
    have hgoes : GoesOn line scan n (shellTurn line scan n) := by
      unfold shellTurn
      rw [hget, Option.bind_some]
      cases hquote : scan.1.quote with
      | some quote =>
        apply quotedTurn_goesOn quote hget
        unfold shellInner
        rw [hquote]
        rfl
      | none =>
        dsimp only
        by_cases hdepth : 0 < scan.1.arithmeticParenDepth
        · rw [if_pos hdepth]
          apply arithmeticTurn_goesOn hget
          unfold shellInner
          rw [hquote, decide_eq_true hdepth]
          rfl
        · rw [if_neg hdepth]
          apply codeTurn_goesOn hbound hget hn
          unfold shellInner
          rw [hquote, decide_eq_false hdepth]
          rfl
    obtain ⟨t, ht, hlt, hnext⟩ := hgoes
    refine ⟨t, ht, hlt, ?_⟩
    rcases hnext with hboundary | ⟨hnext, hstate, hinner⟩
    · exact Or.inl hboundary
    · right
      rw [hstate]
      exact ⟨hnext, hinner⟩
  inside := by
    intro scan n masks hn hbound hinner
    obtain ⟨byte, hget⟩ := exists_byte hn
    have hhigh := high_of_not_boundary hbound hget
    exact ⟨_, shellTurn_inside hget hhigh hinner, rfl, rfl, hinner⟩

/-- The shell masker never fails, whatever state is carried to the line. -/
theorem analyzeShellLine_masks (line : Text) (state : ShellLexicalState) :
    ∃ masked next heredocs, analyzeShellLine line state = some (masked, next, heredocs) ∧
      Masks line masked := by
  obtain ⟨masked, ⟨next, heredocs⟩, hloop, hmasks⟩ :=
    maskLoop_masks (shellTurn_whole line) (state, [])
  refine ⟨masked, next, heredocs, ?_, hmasks⟩
  unfold analyzeShellLine expectUtf8
  rw [hloop, Option.bind_some, decode_encode]
  rfl

end Shell

/-! ## PowerShell -/

section PowerShell

variable {line : Text} {n : Nat} {byte : UInt8}

def powershellInner (scan : PowerShellScan) : Option Bool := some (decide (0 < scan.depth))

theorem powershellTurn_whole (line : Text) :
    WholeTurns (powershellTurn line) line powershellInner where
  outside := by
    intro scan n hbound hn
    obtain ⟨byte, hget⟩ := exists_byte hn
    unfold powershellTurn
    rw [hget, Option.map_some]
    refine ⟨_, rfl, ?_⟩
    by_cases hdepth : 0 < scan.depth
    · have hinner : powershellInner scan = some true := congrArg some (decide_eq_true hdepth)
      rw [if_pos hdepth]
      unfold blockCommentTurn
      dsimp only
      by_cases hopen : [60, hash] <+: (encode line).drop n
      · rw [if_pos hopen]
        have hbehind := isBoundary_behind_ascii hbound (ascii_of_all (by decide)) hopen
        exact ⟨Nat.lt_add_of_pos_right (by decide), Or.inl hbehind⟩
      · rw [if_neg hopen]
        by_cases hclose : [hash, 62] <+: (encode line).drop n
        · rw [if_pos hclose]
          have hbehind := isBoundary_behind_ascii hbound (ascii_of_all (by decide)) hclose
          exact ⟨Nat.lt_add_of_pos_right (by decide), Or.inl hbehind⟩
        · rw [if_neg hclose]
          exact ⟨Nat.lt_succ_self n, Or.inr ⟨rfl, hinner⟩⟩
    · have hinner : ∀ quote escaped, powershellInner ⟨scan.depth, quote, escaped⟩ = some false :=
        fun _ _ => congrArg some (decide_eq_false hdepth)
      rw [if_neg hdepth]
      cases hquote : scan.quote with
      | some quote =>
        dsimp only
        refine ⟨Nat.lt_succ_self n, Or.inr ⟨rfl, ?_⟩⟩
        split
        · exact hinner _ _
        · split
          · exact hinner _ _
          · split
            · exact hinner _ _
            · exact hinner _ _
      | none =>
        dsimp only
        by_cases hopening : isDelimiterQuote byte = true
        · rw [if_pos hopening]
          exact ⟨Nat.lt_succ_self n, Or.inr ⟨rfl, hinner _ _⟩⟩
        · rw [if_neg hopening]
          by_cases hopen : [60, hash] <+: (encode line).drop n
          · rw [if_pos hopen]
            have hbehind := isBoundary_behind_ascii hbound (ascii_of_all (by decide)) hopen
            exact ⟨Nat.lt_add_of_pos_right (by decide), Or.inl hbehind⟩
          · rw [if_neg hopen]
            exact ⟨Nat.lt_succ_self n, Or.inr ⟨rfl, hinner _ _⟩⟩
  inside := by
    intro scan n masks hn hbound hinner
    obtain ⟨byte, hget⟩ := exists_byte hn
    have hhigh := high_of_not_boundary hbound hget
    have hbegins : ∀ (ascii : UInt8) (rest : List UInt8), ascii < 128 →
        ¬ ascii :: rest <+: (encode line).drop n := fun _ _ => not_begins_of_high hget hhigh
    cases hinner
    unfold powershellTurn
    rw [hget, Option.map_some]
    refine ⟨_, rfl, ?_⟩
    by_cases hdepth : 0 < scan.depth
    · rw [if_pos hdepth]
      unfold blockCommentTurn
      dsimp only
      rw [if_neg (hbegins 60 _ (by decide)), if_neg (hbegins hash _ (by decide)),
        decide_eq_true hdepth]
      exact ⟨rfl, rfl, congrArg some (decide_eq_true hdepth)⟩
    · have hinner : ∀ quote escaped, powershellInner ⟨scan.depth, quote, escaped⟩ = some false :=
        fun _ _ => congrArg some (decide_eq_false hdepth)
      rw [if_neg hdepth, decide_eq_false hdepth]
      cases hquote : scan.quote with
      | some quote =>
        dsimp only
        refine ⟨rfl, rfl, ?_⟩
        split
        · exact hinner _ _
        · split
          · exact hinner _ _
          · split
            · exact hinner _ _
            · exact hinner _ _
      | none =>
        dsimp only
        rw [if_neg fun h => hhigh (isDelimiterQuote_lt h), if_neg (hbegins 60 _ (by decide))]
        exact ⟨rfl, rfl, hinner _ _⟩

/-- The PowerShell masker never fails, at whatever depth of comments the line begins. -/
theorem maskPowershell_masks (line : Text) (depth : Nat) :
    ∃ masked next, maskPowershellBlockComments line depth = some (masked, next) ∧
      Masks line masked := by
  obtain ⟨masked, scan, hloop, hmasks⟩ :=
    maskLoop_masks (powershellTurn_whole line) ⟨depth, none, false⟩
  refine ⟨masked, scan.depth, ?_, hmasks⟩
  unfold maskPowershellBlockComments expectUtf8
  rw [hloop, Option.bind_some, decode_encode]
  rfl

end PowerShell

/-- Whatever the lines before have left open, a script line is masked in place. -/
theorem script_masks_keep_positions (line : Text) :
    (∀ state, ∃ masked next heredocs, analyzeShellLine line state = some (masked, next, heredocs) ∧
      Masks line masked) ∧
    ∀ depth, ∃ masked next, maskPowershellBlockComments line depth = some (masked, next) ∧
      Masks line masked :=
  ⟨analyzeShellLine_masks line, maskPowershell_masks line⟩

end CodeStory.Structural
