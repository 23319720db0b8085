import CodeStory.Lib.Utf8Text

/-!
# Bytes and characters

A byte offset is in front of a character or inside one, and only an ASCII byte is a character of its
own. Runs of ASCII bytes are runs of characters. A search for a part of a text finds that part, and
not an earlier occurrence, exactly if none is before it.
-/

set_option autoImplicit false

namespace Utf8Text

variable {t a b text : Text} {n : Nat} {byte : UInt8}

theorem encode_cons (c : Char) (t : Text) : encode (c :: t) = String.utf8EncodeChar c ++ encode t :=
  rfl

/-- Behind an offset stand the bytes of the text behind it. -/
theorem drop_encode (a b : Text) : (encode (a ++ b)).drop (byteLen a) = encode b := by
  rw [encode_append, ← length_encode (t := a), List.drop_left]

/-- The character an offset is in. -/
theorem exists_char_at (h : n < byteLen t) :
    ∃ before c after, t = before ++ c :: after ∧ byteLen before ≤ n ∧
      n < byteLen before + c.utf8Size := by
  induction t generalizing n with
  | nil => exact absurd h (Nat.not_lt_zero n)
  | cons c t ih =>
    by_cases hfirst : n < c.utf8Size
    · refine ⟨[], c, t, rfl, Nat.zero_le n, ?_⟩
      rw [byteLen_nil]
      omega
    · rw [byteLen_cons] at h
      obtain ⟨before, d, after, rfl, hle, hlt⟩ := ih (n := n - c.utf8Size) (by omega)
      refine ⟨c :: before, d, after, rfl, ?_, ?_⟩
      · rw [byteLen_cons]
        omega
      · rw [byteLen_cons]
        omega

theorem getElem?_encode (a : Text) (c : Char) (b : Text) {j : Nat} (hj : j < c.utf8Size) :
    (encode (a ++ c :: b))[byteLen a + j]? = (String.utf8EncodeChar c)[j]? := by
  rw [← List.getElem?_drop, drop_encode, encode_cons, List.getElem?_append_left]
  rw [String.length_utf8EncodeChar]
  exact hj

/-- Only a character of its own has an ASCII byte. -/
theorem char_of_ascii (hget : (encode t)[n]? = some byte) (hlt : byte < 128) :
    ∃ before c after, t = before ++ c :: after ∧ byteLen before = n ∧ c.utf8Size = 1 ∧
      c.toNat = byte.toNat := by
  have hn : n < byteLen t := by
    rw [← length_encode]
    exact (List.getElem?_eq_some_iff.mp hget).1
  obtain ⟨before, c, after, rfl, hle, hin⟩ := exists_char_at hn
  obtain ⟨j, rfl⟩ := Nat.exists_eq_add_of_le hle
  rw [getElem?_encode before c after (by omega)] at hget
  have hmem := List.mem_of_getElem? hget
  have hsize : c.utf8Size = 1 := by
    by_contra hne
    have hhigh := le_of_mem_encodeChar hne hmem
    rw [UInt8.le_iff_toNat_le] at hhigh
    rw [UInt8.lt_iff_toNat_lt] at hlt
    omega
  refine ⟨before, c, after, rfl, by omega, hsize, ?_⟩
  exact toNat_of_mem_encodeChar hmem hlt

theorem isBoundary_of_ascii (hget : (encode t)[n]? = some byte) (hlt : byte < 128) :
    IsBoundary t n ∧ IsBoundary t (n + 1) := by
  obtain ⟨before, c, after, rfl, rfl, hsize, -⟩ := char_of_ascii hget hlt
  refine ⟨IsBoundary.of_append before _, before ++ [c], after, ?_, ?_⟩
  · rw [List.append_assoc, List.singleton_append]
  · rw [byteLen_append, byteLen_cons, hsize, byteLen_nil]

theorem ascii_of_all {bytes : List UInt8}
    (hall : bytes.all (fun byte => decide (byte < 128)) = true) : ∀ byte ∈ bytes, byte < 128 := by
  intro byte hmem
  exact of_decide_eq_true (List.all_eq_true.mp hall byte hmem)

/-- Behind a run of ASCII bytes there is a boundary. -/
theorem isBoundary_behind_ascii {bytes : List UInt8} (hbound : IsBoundary t n)
    (hascii : ∀ byte ∈ bytes, byte < 128) (hrun : bytes <+: (encode t).drop n) :
    IsBoundary t (n + bytes.length) := by
  induction bytes generalizing n with
  | nil => exact hbound
  | cons byte bytes ih =>
    obtain ⟨rest, hrest⟩ := hrun
    have hget : (encode t)[n]? = some byte := by
      rw [← List.head?_drop, ← hrest]
      rfl
    have hnext := (isBoundary_of_ascii hget (hascii byte List.mem_cons_self)).2
    have htail : bytes <+: (encode t).drop (n + 1) := by
      refine ⟨rest, ?_⟩
      rw [← List.drop_drop, ← hrest]
      rfl
    have hall := ih hnext (fun x hx => hascii x (List.mem_cons_of_mem _ hx)) htail
    rw [List.length_cons]
    rwa [Nat.add_assoc, Nat.add_comm 1] at hall

/-! ## Runs -/

/-- A test on bytes and one on characters that only ASCII passes, the same. -/
structure SameTest (p : UInt8 → Bool) (q : Char → Bool) : Prop where
  byte : ∀ c, q c = true → ∃ byte, String.utf8EncodeChar c = [byte] ∧ p byte = true
  char : ∀ c, ∀ byte ∈ String.utf8EncodeChar c, p byte = true → q c = true

theorem SameTest.takeWhile {p : UInt8 → Bool} {q : Char → Bool} (h : SameTest p q) (t : Text) :
    (encode t).takeWhile p = encode (t.takeWhile q) := by
  induction t with
  | nil => rfl
  | cons c t ih =>
    rw [encode_cons]
    by_cases hc : q c = true
    · obtain ⟨byte, hbyte, hp⟩ := h.byte c hc
      rw [List.takeWhile_cons_of_pos hc, encode_cons, hbyte, List.singleton_append,
        List.takeWhile_cons_of_pos hp, ih, List.singleton_append]
    · rw [List.takeWhile_cons_of_neg hc]
      cases hbytes : String.utf8EncodeChar c with
      | nil =>
        have hlength := String.length_utf8EncodeChar c
        have hpos := c.utf8Size_pos
        rw [hbytes, List.length_nil] at hlength
        omega
      | cons byte rest =>
        rw [List.cons_append]
        apply List.takeWhile_cons_of_neg
        intro hp
        apply hc
        apply h.char c byte _ hp
        rw [hbytes]
        exact List.mem_cons_self

theorem SameTest.head {p : UInt8 → Bool} {q : Char → Bool} (h : SameTest p q) (t : Text) :
    (encode t).head?.any p = t.head?.any q := by
  cases t with
  | nil => rfl
  | cons c t =>
    rw [encode_cons, List.head?_cons, Option.any_some]
    by_cases hc : q c = true
    · obtain ⟨byte, hbyte, hp⟩ := h.byte c hc
      rw [hbyte, hc]
      exact hp
    · rw [Bool.of_not_eq_true hc]
      cases hbytes : String.utf8EncodeChar c with
      | nil =>
        have hlength := String.length_utf8EncodeChar c
        have hpos := c.utf8Size_pos
        rw [hbytes, List.length_nil] at hlength
        omega
      | cons byte rest =>
        apply Bool.of_not_eq_true
        intro hp
        apply hc
        apply h.char c byte _ hp
        rw [hbytes]
        exact List.mem_cons_self

/-- Testing for one ASCII character. -/
theorem sameTest_eq {c : Char} {byte : UInt8} (h : String.utf8EncodeChar c = [byte])
    (hlt : byte < 128) :
    SameTest (fun x => x == byte) (fun d => d == c) where
  byte := by
    intro d hd
    rw [eq_of_beq hd]
    exact ⟨byte, h, beq_self_eq_true byte⟩
  char := by
    intro d x hx hp
    rw [eq_of_beq hp] at hx
    have hd := toNat_of_mem_encodeChar hx hlt
    have hc : c.toNat = byte.toNat := by
      apply toNat_of_mem_encodeChar _ hlt
      rw [h]
      exact List.mem_singleton_self byte
    rw [beq_iff_eq]
    exact Char.toNat_inj.mp (hd.trans hc.symm)

/-! ## The first occurrence -/

/-- A text occurs in a text that goes on behind a part of it, before that part is complete. -/
def OccursBefore (text before : Text) : Prop := text <:+: before ++ text.dropLast

theorem exists_occurrence_of_find (h : find text (a ++ (text ++ b)) = some n) :
    ∃ front back, a ++ (text ++ b) = front ++ (text ++ back) ∧ byteLen front = n ∧
      front <+: a := by
  obtain ⟨front, back, heq, rfl, hleast⟩ := find_eq_some h
  refine ⟨front, back, heq, rfl, ?_⟩
  have hle := hleast a b rfl
  rcases List.append_eq_append_iff.mp heq with ⟨middle, rfl, _⟩ | ⟨middle, rfl, _⟩
  · rw [byteLen_append] at hle
    have hnil : middle = [] := byteLen_eq_zero.mp (by omega)
    rw [hnil, List.append_nil]
  · exact List.prefix_append front middle

/-- A search finds the part it is for exactly if the part does not occur before. -/
theorem find_eq_iff (hne : text ≠ []) :
    find text (a ++ (text ++ b)) = some (byteLen a) ↔ ¬ OccursBefore text a := by
  constructor
  · intro hfind hoccurs
    obtain ⟨x, y, hxy⟩ := hoccurs
    obtain ⟨_, _, _, _, hleast⟩ := find_eq_some hfind
    have hsplit := List.dropLast_append_getLast hne
    have hwhole : a ++ (text ++ b) = x ++ (text ++ (y ++ (text.getLast hne :: b))) := by
      have hcut : a ++ (text ++ b) = (a ++ text.dropLast) ++ (text.getLast hne :: b) := by
        conv_lhs => rw [← hsplit]
        simp only [List.append_assoc, List.singleton_append]
      rw [hcut, ← hxy]
      simp only [List.append_assoc]
    have hle := hleast x _ hwhole
    have hlen := congrArg byteLen hxy
    rw [byteLen_append, byteLen_append, byteLen_append] at hlen
    have htext := congrArg byteLen hsplit
    rw [byteLen_append, byteLen_cons, byteLen_nil] at htext
    have hpos := (text.getLast hne).utf8Size_pos
    omega
  · intro hnot
    obtain ⟨n, hn⟩ := Option.isSome_iff_exists.mp (@find_isSome text a b)
    obtain ⟨front, back, heq, rfl, ⟨middle, rfl⟩⟩ := exists_occurrence_of_find hn
    cases middle with
    | nil =>
      rw [List.append_nil] at hn ⊢
      exact hn
    | cons c middle =>
      exfalso
      apply hnot
      have hrest : c :: middle ++ (text ++ b) = text ++ back := by
        rw [List.append_assoc] at heq
        exact List.append_cancel_left heq
      have hfront : text <+: c :: middle ++ text.dropLast := by
        have hleft : text <+: c :: middle ++ (text ++ b) := ⟨back, hrest.symm⟩
        have hright : c :: middle ++ text.dropLast <+: c :: middle ++ (text ++ b) := by
          apply List.prefix_append_right_inj _ |>.mpr
          exact ( List.dropLast_prefix text).trans (List.prefix_append text b)
        apply List.prefix_of_prefix_length_le hleft hright
        rw [List.length_append, List.length_cons, List.length_dropLast]
        omega
      obtain ⟨y, hy⟩ := hfront
      refine ⟨front, y, ?_⟩
      rw [List.append_assoc, hy, List.append_assoc]

end Utf8Text
