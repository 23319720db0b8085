import CodeStory.Lib.Utf8Bytes

/-!
# Masking text byte by byte

A masker goes over the bytes of a line and overwrites some of them with spaces, in turns that go by
what it has seen so far. Where it never stops inside a character, or goes on there as it began,
whole characters are masked: the result is text again, of the same length, in which each character
stands where it was or has given way to spaces.
-/

set_option autoImplicit false

namespace ByteMask

open Utf8Text

universe u

def blank : UInt8 := 32

/-- `masked[start..stop].fill(b' ')` -/
def fill (masked : List UInt8) (start stop : Nat) : List UInt8 :=
  masked.mapIdx fun i byte => if start ≤ i ∧ i < stop then blank else byte

/-- One turn: the bytes from the cursor to `next` are passed, masked or not. -/
structure Turn (σ : Type u) where
  next : Nat
  masks : Bool
  state : σ

/-- The loop over a line. It fails where a turn does; a turn that passes nothing uses up fuel. -/
def maskLoop {σ : Type u} (turn : σ → Nat → Option (Turn σ)) (length : Nat) :
    Nat → Nat → σ → List UInt8 → Option (List UInt8 × σ)
  | 0, cursor, state, masked => if cursor < length then none else some (masked, state)
  | fuel + 1, cursor, state, masked =>
    if cursor < length then
      match turn state cursor with
      | none => none
      | some t =>
        maskLoop turn length fuel t.next t.state
          (if t.masks then fill masked cursor t.next else masked)
    else some (masked, state)

/-! ## Masked text -/

def spaces (n : Nat) : Text := List.replicate n ' '

/-- Each character stands where it was or has given way to spaces. -/
inductive Masks : Text → Text → Prop where
  | nil : Masks [] []
  | keep (c : Char) {t u : Text} (h : Masks t u) : Masks (c :: t) (c :: u)
  | mask (c : Char) {t u : Text} (h : Masks t u) : Masks (c :: t) (spaces c.utf8Size ++ u)

section Masks

variable {t t' u u' a b : Text}

theorem byteLen_spaces (n : Nat) : byteLen (spaces n) = n := by
  induction n with
  | zero => rfl
  | succ n ih =>
    change (' ' : Char).utf8Size + byteLen (spaces n) = n + 1
    rw [ih, Nat.add_comm]
    rfl

theorem encode_spaces (n : Nat) : encode (spaces n) = List.replicate n blank := by
  induction n with
  | zero => rfl
  | succ n ih =>
    change String.utf8EncodeChar ' ' ++ encode (spaces n) = _
    rw [ih]
    rfl

theorem Masks.byteLen_eq (h : Masks t u) : byteLen u = byteLen t := by
  induction h with
  | nil => rfl
  | keep c h ih => rw [byteLen_cons, byteLen_cons, ih]
  | mask c h ih => rw [byteLen_append, byteLen_spaces, byteLen_cons, ih]

theorem Masks.refl (t : Text) : Masks t t := by
  induction t with
  | nil => exact Masks.nil
  | cons c t ih => exact Masks.keep c ih

theorem Masks.all (t : Text) : Masks t (spaces (byteLen t)) := by
  induction t with
  | nil => exact Masks.nil
  | cons c t ih =>
    have hsplit : spaces (byteLen (c :: t)) = spaces c.utf8Size ++ spaces (byteLen t) := by
      unfold spaces
      rw [byteLen_cons, List.replicate_add]
    rw [hsplit]
    exact Masks.mask c ih

theorem Masks.append (h : Masks t u) (h' : Masks t' u') : Masks (t ++ t') (u ++ u') := by
  induction h with
  | nil => exact h'
  | keep c h ih => exact Masks.keep c ih
  | mask c h ih =>
    rw [List.append_assoc]
    exact Masks.mask c ih

/-- A character that is not a space stands where it was. -/
theorem Masks.split {c : Char} (h : Masks t (a ++ c :: b)) (hc : c ≠ ' ') :
    ∃ front rest, t = front ++ c :: rest ∧ Masks front a ∧ Masks rest b := by
  generalize hu : a ++ c :: b = u at h
  induction h generalizing a with
  | nil =>
    have hne : a ++ c :: b ≠ [] := by simp
    exact absurd hu hne
  | @keep d t u h ih =>
    cases a with
    | nil =>
      obtain ⟨rfl, rfl⟩ := List.cons.inj hu
      exact ⟨[], t, rfl, Masks.nil, h⟩
    | cons e a =>
      obtain ⟨rfl, hrest⟩ := List.cons.inj hu
      obtain ⟨front, rest, rfl, hfront, hrest⟩ := ih hrest
      exact ⟨e :: front, rest, rfl, Masks.keep e hfront, hrest⟩
  | @mask d t u h ih =>
    rcases List.append_eq_append_iff.mp hu with ⟨middle, hmiddle, hrest⟩ | ⟨middle, rfl, hrest⟩
    · cases middle with
      | nil =>
        rw [List.append_nil] at hmiddle
        have hhead : [] ++ c :: b = u := hrest
        obtain ⟨front, rest, rfl, hfront, hrest⟩ := ih hhead
        refine ⟨d :: front, rest, rfl, ?_, hrest⟩
        rw [← hmiddle]
        have hmask := Masks.mask d hfront
        rwa [List.append_nil] at hmask
      | cons e middle =>
        obtain ⟨rfl, -⟩ := List.cons.inj hrest
        have hmem : c ∈ spaces d.utf8Size := by
          rw [hmiddle]
          exact List.mem_append_right _ List.mem_cons_self
        exact absurd (List.eq_of_mem_replicate hmem) hc
    · obtain ⟨front, rest, rfl, hfront, hrest⟩ := ih hrest.symm
      exact ⟨d :: front, rest, rfl, Masks.mask d hfront, hrest⟩

/-- Text without a space stands where it was. -/
theorem Masks.split_append {m : Text} (h : Masks t (a ++ (m ++ b))) (hm : ' ' ∉ m) (hne : m ≠ []) :
    ∃ front rest, t = front ++ (m ++ rest) ∧ Masks front a ∧ Masks rest b := by
  induction m generalizing a t with
  | nil => exact absurd rfl hne
  | cons c m ih =>
    have hc : c ≠ ' ' := fun heq => hm (heq ▸ List.mem_cons_self)
    obtain ⟨front, rest, rfl, hfront, hrest⟩ := h.split hc
    cases m with
    | nil => exact ⟨front, rest, rfl, hfront, hrest⟩
    | cons d m =>
      have hnil : Masks rest ([] ++ (d :: m ++ b)) := hrest
      obtain ⟨front', rest', rfl, hfront', hrest'⟩ :=
        ih hnil (fun hmem => hm (List.mem_cons_of_mem _ hmem)) (List.cons_ne_nil d m)
      have hempty : front' = [] := by
        have hlen := hfront'.byteLen_eq
        exact byteLen_eq_zero.mp hlen.symm
      rw [hempty]
      exact ⟨front, rest', rfl, hfront, hrest'⟩

end Masks

/-! ## The loop -/

/-- Between characters a turn goes to a boundary, or one byte into a character in a state that knows
whether the rest of it is masked; inside a character it goes on so. -/
structure WholeTurns {σ : Type u} (turn : σ → Nat → Option (Turn σ)) (line : Text)
    (inner : σ → Option Bool) : Prop where
  outside : ∀ state n, IsBoundary line n → n < byteLen line → ∃ t, turn state n = some t ∧
    n < t.next ∧ (IsBoundary line t.next ∨ t.next = n + 1 ∧ inner t.state = some t.masks)
  inside : ∀ state n masks, n < byteLen line → ¬ IsBoundary line n → inner state = some masks →
    ∃ t, turn state n = some t ∧ t.next = n + 1 ∧ t.masks = masks ∧ inner t.state = some masks

/-- The bytes of a character of which the first are passed. -/
def partBytes (c : Char) (masks : Bool) (j : Nat) : List UInt8 :=
  (if masks then List.replicate j blank else (String.utf8EncodeChar c).take j) ++
    (String.utf8EncodeChar c).drop j

section Loop

variable {σ : Type u} {turn : σ → Nat → Option (Turn σ)} {line : Text} {inner : σ → Option Bool}
  {masks : Bool} {c : Char} {x z masked : List UInt8} {j n : Nat}

theorem fill_append (x y z : List UInt8) :
    fill (x ++ (y ++ z)) x.length (x.length + y.length) =
      x ++ (List.replicate y.length blank ++ z) := by
  unfold fill
  rw [List.mapIdx_append, List.mapIdx_append]
  have hx : (x.mapIdx fun i byte =>
    if x.length ≤ i ∧ i < x.length + y.length then blank else byte) =
      x := by
    apply List.ext_getElem List.length_mapIdx
    intro i _ hi
    rw [List.getElem_mapIdx, if_neg (by omega)]
  have hy : (y.mapIdx fun i byte => if x.length ≤ i + x.length ∧
      i + x.length < x.length + y.length then blank else byte) = List.replicate y.length blank := by
    apply List.ext_getElem
    · rw [List.length_mapIdx, List.length_replicate]
    · intro i hi _
      rw [List.length_mapIdx] at hi
      rw [List.getElem_mapIdx, if_pos (by omega), List.getElem_replicate]
  have hz : (z.mapIdx fun i byte => if x.length ≤ i + y.length + x.length ∧
      i + y.length + x.length < x.length + y.length then blank else byte) = z := by
    apply List.ext_getElem List.length_mapIdx
    intro i _ hi
    rw [List.getElem_mapIdx, if_neg (by omega)]
  rw [hx, hy, hz]

theorem partBytes_zero (c : Char) (masks : Bool) :
    partBytes c masks 0 = String.utf8EncodeChar c := by
  unfold partBytes
  cases masks <;> simp

theorem partBytes_all (c : Char) (masks : Bool) :
    partBytes c masks c.utf8Size = encode (if masks then spaces c.utf8Size else [c]) := by
  have hdrop : (String.utf8EncodeChar c).drop c.utf8Size = [] := by
    apply List.drop_of_length_le
    rw [String.length_utf8EncodeChar]
  unfold partBytes
  rw [hdrop, List.append_nil]
  cases masks with
  | false =>
    have htake : (String.utf8EncodeChar c).take c.utf8Size = String.utf8EncodeChar c := by
      apply List.take_of_length_le
      rw [String.length_utf8EncodeChar]
    change (String.utf8EncodeChar c).take c.utf8Size = String.utf8EncodeChar c ++ []
    rw [htake, List.append_nil]
  | true => exact (encode_spaces _).symm

/-- One more byte of a character. -/
theorem partBytes_succ (hj : j < c.utf8Size) :
    (if masks then fill (x ++ (partBytes c masks j ++ z)) (x.length + j) (x.length + j + 1)
      else x ++ (partBytes c masks j ++ z)) = x ++ (partBytes c masks (j + 1) ++ z) := by
  have hlength : j < (String.utf8EncodeChar c).length := by
    rw [String.length_utf8EncodeChar]
    exact hj
  have hdrop := List.drop_eq_getElem_cons hlength
  unfold partBytes
  cases masks with
  | false =>
    rw [if_neg Bool.false_ne_true, if_neg Bool.false_ne_true, if_neg Bool.false_ne_true,
      List.take_append_drop, List.take_append_drop]
  | true =>
    rw [if_pos rfl, if_pos rfl, if_pos rfl, hdrop]
    have hshape : ∀ (byte : UInt8) (rest : List UInt8),
        x ++ (List.replicate j blank ++ byte :: rest ++ z) =
          (x ++ List.replicate j blank) ++ ([byte] ++ (rest ++ z)) := by
      intro byte rest
      simp only [List.append_assoc, List.cons_append, List.nil_append]
    have hfront : x.length + j = (x ++ List.replicate j blank).length := by
      rw [List.length_append, List.length_replicate]
    rw [hshape, hfront]
    have hfill := fill_append (x ++ List.replicate j blank) [(String.utf8EncodeChar c)[j]]
      ((String.utf8EncodeChar c).drop (j + 1) ++ z)
    rw [List.length_singleton] at hfill
    have hone : List.replicate 1 blank = [blank] := rfl
    rw [hfill, hone, List.replicate_succ']
    simp only [List.append_assoc, List.cons_append, List.nil_append]

/-- Between characters: what is passed is masked, what is not stands as it was. -/
def PassedTo (line : Text) (n : Nat) (masked : List UInt8) : Prop :=
  ∃ before rest u, line = before ++ rest ∧ byteLen before = n ∧ Masks before u ∧
    masked = encode u ++ encode rest

/-- Inside a character of which some bytes are passed. -/
def PassedInto (line : Text) (n : Nat) (masks : Bool) (masked : List UInt8) : Prop :=
  ∃ before c rest u j, line = before ++ c :: rest ∧ 0 < j ∧ j < c.utf8Size ∧
    byteLen before + j = n ∧ Masks before u ∧
    masked = encode u ++ (partBytes c masks j ++ encode rest)

theorem PassedInto.not_boundary (h : PassedInto line n masks masked) : ¬ IsBoundary line n := by
  obtain ⟨before, c, rest, u, j, rfl, hpos, hlt, rfl, -, -⟩ := h
  intro hbound
  have hout := hbound.outside
  omega

theorem PassedInto.lt (h : PassedInto line n masks masked) : n < byteLen line := by
  obtain ⟨before, c, rest, u, j, rfl, hpos, hlt, rfl, -, -⟩ := h
  rw [byteLen_append, byteLen_cons]
  omega

/-- A turn from boundary to boundary. -/
theorem PassedTo.advance {next : Nat} (h : PassedTo line n masked) (hlt : n < next)
    (hnext : IsBoundary line next) :
    PassedTo line next (if masks then fill masked n next else masked) := by
  obtain ⟨before, rest, u, hline, rfl, hmasks, rfl⟩ := h
  obtain ⟨before', rest', hline', rfl⟩ := hnext
  rcases List.append_eq_append_iff.mp (hline.symm.trans hline') with
    ⟨piece, rfl, rfl⟩ | ⟨piece, rfl, _⟩
  · cases masks with
    | false =>
      refine ⟨before ++ piece, rest', u ++ piece, hline', rfl, hmasks.append (Masks.refl piece), ?_⟩
      rw [encode_append, encode_append, List.append_assoc]
      rfl
    | true =>
      refine ⟨before ++ piece, rest', u ++ spaces (byteLen piece), hline', rfl,
        hmasks.append (Masks.all piece), ?_⟩
      have hfill := fill_append (encode u) (encode piece) (encode rest')
      rw [length_encode, length_encode, hmasks.byteLen_eq] at hfill
      rw [if_pos rfl, encode_append, byteLen_append, hfill, encode_append, encode_spaces,
        List.append_assoc]
  · rw [byteLen_append] at hlt
    omega

/-- One byte of a character: still inside it, or behind it. -/
theorem passed_byte {before rest u : Text} (hline : line = before ++ c :: rest)
    (hj : j < c.utf8Size) (hmasks : Masks before u) :
    let masked := encode u ++ (partBytes c masks j ++ encode rest)
    let masked' :=
      if masks then fill masked (byteLen before + j) (byteLen before + j + 1) else masked
    PassedTo line (byteLen before + j + 1) masked' ∨
      PassedInto line (byteLen before + j + 1) masks masked' := by
  dsimp only
  have hsucc := @partBytes_succ masks c (encode u) (encode rest) j hj
  rw [length_encode, hmasks.byteLen_eq] at hsucc
  rw [hsucc]
  by_cases hall : j + 1 = c.utf8Size
  · left
    refine ⟨before ++ [c], rest, u ++ (if masks then spaces c.utf8Size else [c]), ?_, ?_, ?_, ?_⟩
    · rw [hline, List.append_assoc, List.singleton_append]
    · rw [byteLen_append, byteLen_cons, byteLen_nil]
      omega
    · apply hmasks.append
      cases masks with
      | false => exact Masks.keep c Masks.nil
      | true =>
        have hmask := Masks.mask c Masks.nil
        rwa [List.append_nil] at hmask
    · rw [hall, partBytes_all, encode_append, List.append_assoc]
  · right
    exact ⟨before, c, rest, u, j + 1, hline, Nat.succ_pos j, by omega, rfl, hmasks, rfl⟩

theorem passed_end {state : σ} (h : PassedTo line n masked ∨
      ∃ masks, PassedInto line n masks masked ∧ inner state = some masks)
    (hn : ¬ n < byteLen line) : ∃ u, masked = encode u ∧ Masks line u := by
  rcases h with hto | ⟨masks, hinto, -⟩
  · obtain ⟨before, rest, u, hline, hbefore, hmasks, hmasked⟩ := hto
    have hlen := congrArg byteLen hline
    rw [byteLen_append] at hlen
    have hnil : rest = [] := byteLen_eq_zero.mp (by omega)
    rw [hnil, List.append_nil] at hline
    refine ⟨u, ?_, ?_⟩
    · rw [hmasked, hnil]
      exact List.append_nil _
    · rw [hline]
      exact hmasks
  · exact absurd hinto.lt hn

/-- The loop comes to the end of the line. -/
theorem maskLoop_ends (h : WholeTurns turn line inner) (fuel n : Nat) (state : σ)
    (masked : List UInt8) (hfuel : byteLen line ≤ n + fuel)
    (hpassed : PassedTo line n masked ∨
      ∃ masks, PassedInto line n masks masked ∧ inner state = some masks) :
    ∃ u state', maskLoop turn (byteLen line) fuel n state masked = some (encode u, state') ∧
      Masks line u := by
  induction fuel generalizing n state masked with
  | zero =>
    obtain ⟨u, rfl, hmasks⟩ := passed_end hpassed (by omega)
    exact ⟨u, state, if_neg (by omega), hmasks⟩
  | succ fuel ih =>
    unfold maskLoop
    by_cases hn : n < byteLen line
    · rw [if_pos hn]
      have hstep : ∃ t, turn state n = some t ∧ n < t.next ∧
          (PassedTo line t.next (if t.masks then fill masked n t.next else masked) ∨
            ∃ masks, PassedInto line t.next masks
              (if t.masks then fill masked n t.next else masked) ∧ inner t.state = some masks) := by
        rcases hpassed with hto | ⟨masks, hinto, hinner⟩
        · obtain ⟨before, rest, u, hline, rfl, hmasks, hmasked⟩ := hto
          have hbound : IsBoundary line (byteLen before) := ⟨before, rest, hline, rfl⟩
          obtain ⟨t, ht, hlt, hnext⟩ := h.outside state _ hbound hn
          refine ⟨t, ht, hlt, ?_⟩
          rcases hnext with hnext | ⟨hnext, hinner⟩
          · left
            exact PassedTo.advance ⟨before, rest, u, hline, rfl, hmasks, hmasked⟩ hlt hnext
          · cases rest with
            | nil =>
              rw [hline, List.append_nil] at hn
              omega
            | cons c rest =>
              have hbyte := @passed_byte line t.masks c 0 before rest u hline c.utf8Size_pos hmasks
              rw [partBytes_zero, ← encode_cons, ← hmasked, Nat.add_zero] at hbyte
              rw [hnext]
              rcases hbyte with hto | hinto
              · exact Or.inl hto
              · exact Or.inr ⟨t.masks, hinto, hinner⟩
        · obtain ⟨t, ht, hnext, htmasks, htinner⟩ :=
            h.inside state n masks hn hinto.not_boundary hinner
          obtain ⟨before, c, rest, u, j, hline, hpos, hj, rfl, hmasks, rfl⟩ := hinto
          have hbyte := @passed_byte line masks c j before rest u hline hj hmasks
          refine ⟨t, ht, by omega, ?_⟩
          rw [hnext, htmasks]
          rcases hbyte with hto | hinto
          · exact Or.inl hto
          · exact Or.inr ⟨masks, hinto, htinner⟩
      obtain ⟨t, ht, hlt, hpassed'⟩ := hstep
      rw [ht]
      dsimp only
      exact ih t.next t.state _ (by omega) hpassed'
    · rw [if_neg hn]
      obtain ⟨u, rfl, hmasks⟩ := passed_end hpassed hn
      exact ⟨u, state, rfl, hmasks⟩

/-- Whole turns mask whole characters. -/
theorem maskLoop_masks (h : WholeTurns turn line inner) (state : σ) :
    ∃ u state', maskLoop turn (byteLen line) (byteLen line) 0 state (encode line) =
      some (encode u, state') ∧ Masks line u := by
  apply maskLoop_ends h _ _ _ _ (Nat.le_add_left _ _)
  left
  exact ⟨[], line, [], rfl, rfl, Masks.nil, rfl⟩

end Loop

end ByteMask
