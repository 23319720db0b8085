import Mathlib.Data.List.Induction
import Mathlib.Data.List.Infix

/-!
# Text addressed by bytes

A text is a list of characters, and its positions are byte offsets of its encoding. Cutting it
inside a character is an error, so every slice is partial; searches give offsets at which a cut is
possible.
-/

set_option autoImplicit false

namespace Utf8Text

abbrev Text := List Char

def byteLen : Text → Nat
  | [] => 0
  | c :: t => c.utf8Size + byteLen t

def encode (t : Text) : List UInt8 := t.flatMap String.utf8EncodeChar

/-- `String::from_utf8` -/
def decode (bytes : List UInt8) : Option Text := bytes.toByteArray.utf8Decode?.map Array.toList

/-- Both sides of a byte offset, unless it is inside a character or beyond the end. -/
def splitAt : Text → Nat → Option (Text × Text)
  | t, 0 => some ([], t)
  | [], _ + 1 => none
  | c :: t, n + 1 =>
    if n + 1 < c.utf8Size then none
    else (splitAt t (n + 1 - c.utf8Size)).map fun (before, after) => (c :: before, after)

/-- `&t[n..]` -/
def sliceFrom (t : Text) (n : Nat) : Option Text := (splitAt t n).map (·.2)

/-- `&t[..n]` -/
def sliceTo (t : Text) (n : Nat) : Option Text := (splitAt t n).map (·.1)

/-- `&t[from..to]` -/
def slice (t : Text) (start stop : Nat) : Option Text :=
  if stop < start then none else (sliceFrom t start).bind (sliceTo · (stop - start))

/-- `t.find(pattern)`: the offset of the first occurrence. -/
def find (pattern : Text) : Text → Option Nat
  | [] => if pattern = [] then some 0 else none
  | c :: t => if pattern <+: c :: t then some 0 else (find pattern t).map (c.utf8Size + ·)

/-- `t.rfind(c)`: the offset of the last occurrence of a character. -/
def findLast (wanted : Char) : Text → Option Nat
  | [] => none
  | c :: t =>
    match findLast wanted t with
    | some n => some (c.utf8Size + n)
    | none => if c = wanted then some 0 else none

-- The counter runs over the characters of an occurrence that are still to be dropped.
def replaceFrom (pattern replacement : Text) : Nat → Text → Text
  | _, [] => []
  | dropping + 1, _ :: t => replaceFrom pattern replacement dropping t
  | 0, c :: t =>
    if pattern <+: c :: t then replacement ++ replaceFrom pattern replacement (pattern.length - 1) t
    else c :: replaceFrom pattern replacement 0 t

/-- `t.replace(pattern, replacement)` for a pattern that is not empty. -/
def replace (pattern replacement t : Text) : Text := replaceFrom pattern replacement 0 t

variable {t a b pattern : Text} {n m : Nat} {c : Char}

/-! ## Lengths -/

@[simp] theorem byteLen_nil : byteLen [] = 0 := rfl

@[simp] theorem byteLen_cons : byteLen (c :: t) = c.utf8Size + byteLen t := rfl

@[simp] theorem byteLen_append : byteLen (a ++ b) = byteLen a + byteLen b := by
  induction a with
  | nil => exact (Nat.zero_add _).symm
  | cons c a ih =>
    rw [List.cons_append, byteLen_cons, byteLen_cons, ih]
    omega

theorem byteLen_eq_zero : byteLen t = 0 ↔ t = [] := by
  cases t with
  | nil => exact iff_of_true rfl rfl
  | cons c t =>
    have := c.utf8Size_pos
    refine iff_of_false ?_ (List.cons_ne_nil c t)
    rw [byteLen_cons]
    omega

@[simp] theorem encode_append : encode (a ++ b) = encode a ++ encode b := List.flatMap_append

theorem decode_encode (t : Text) : decode (encode t) = some t := by
  have h : (encode t).toByteArray.utf8Decode? = some t.toArray := List.utf8Decode?_utf8Encode
  unfold decode
  rw [h]
  rfl

theorem encode_inj (h : encode a = encode b) : a = b := by
  have ha := decode_encode a
  rw [h, decode_encode b] at ha
  exact (Option.some.inj ha).symm

@[simp] theorem length_encode : (encode t).length = byteLen t := by
  induction t with
  | nil => rfl
  | cons c t ih =>
    change (String.utf8EncodeChar c ++ encode t).length = _
    rw [List.length_append, String.length_utf8EncodeChar, ih]
    rfl

theorem byteLen_map {f : Char → Char} (h : ∀ c, (f c).utf8Size = c.utf8Size) (t : Text) :
    byteLen (t.map f) = byteLen t := by
  induction t with
  | nil => rfl
  | cons c t ih => rw [List.map_cons, byteLen_cons, byteLen_cons, h, ih]

theorem utf8Size_toLower (c : Char) : c.toLower.utf8Size = c.utf8Size := by
  unfold Char.toLower
  split
  · rename_i h
    have hlow : 65 ≤ c.val.toNat := UInt32.le_iff_toNat_le.mp h.1
    have hhigh : c.val.toNat ≤ 90 := UInt32.le_iff_toNat_le.mp h.2
    have hdiff : ('a'.val - 'A'.val).toNat = 32 := rfl
    have hsum : (c.val + ('a'.val - 'A'.val)).toNat = c.val.toNat + 32 := by
      rw [UInt32.toNat_add, hdiff]
      exact Nat.mod_eq_of_lt (by omega)
    have hbefore : c.utf8Size = 1 :=
      Char.utf8Size_eq_one_iff.mpr (UInt32.le_iff_toNat_le.mpr (hhigh.trans (by decide)))
    rw [hbefore]
    apply Char.utf8Size_eq_one_iff.mpr
    rw [UInt32.le_iff_toNat_le, hsum]
    exact (Nat.add_le_add_right hhigh 32).trans (by decide)
  · rfl

theorem utf8Size_toUpper (c : Char) : c.toUpper.utf8Size = c.utf8Size := by
  unfold Char.toUpper
  split
  · rename_i h
    have hlow : 97 ≤ c.val.toNat := UInt32.le_iff_toNat_le.mp h.1
    have hhigh : c.val.toNat ≤ 122 := UInt32.le_iff_toNat_le.mp h.2
    have hdiff : ('A'.val - 'a'.val).toNat = 2 ^ 32 - 32 := rfl
    have hsum : (c.val + ('A'.val - 'a'.val)).toNat = c.val.toNat - 32 := by
      rw [UInt32.toNat_add, hdiff]
      omega
    have hbefore : c.utf8Size = 1 :=
      Char.utf8Size_eq_one_iff.mpr (UInt32.le_iff_toNat_le.mpr (hhigh.trans (by decide)))
    rw [hbefore]
    apply Char.utf8Size_eq_one_iff.mpr
    rw [UInt32.le_iff_toNat_le, hsum]
    have hseven : (127 : UInt32).toNat = 127 := rfl
    omega
  · rfl

/-- The bytes of a character that is not ASCII are not ASCII either. -/
theorem le_of_mem_encodeChar (h : c.utf8Size ≠ 1) {x : UInt8} (hx : x ∈ String.utf8EncodeChar c) :
    128 ≤ x := by
  have hor : ∀ (y k : UInt8), 128 ≤ k → 128 ≤ y ||| k := fun y k hk => by
    rw [UInt8.le_iff_toNat_le] at hk ⊢
    rw [UInt8.toNat_or]
    exact hk.trans Nat.right_le_or
  rcases c.utf8Size_eq with h1 | h2 | h3 | h4
  · exact absurd h1 h
  · rw [String.utf8EncodeChar_eq_cons_cons h2] at hx
    simp only [List.mem_cons, List.not_mem_nil, or_false] at hx
    rcases hx with rfl | rfl <;> exact hor _ _ (by decide)
  · rw [String.utf8EncodeChar_eq_cons_cons_cons h3] at hx
    simp only [List.mem_cons, List.not_mem_nil, or_false] at hx
    rcases hx with rfl | rfl | rfl <;> exact hor _ _ (by decide)
  · rw [String.utf8EncodeChar_eq_cons_cons_cons_cons h4] at hx
    simp only [List.mem_cons, List.not_mem_nil, or_false] at hx
    rcases hx with rfl | rfl | rfl | rfl <;> exact hor _ _ (by decide)

/-- An ASCII byte stands for its character. -/
theorem toNat_of_mem_encodeChar {x : UInt8} (hx : x ∈ String.utf8EncodeChar c) (hlt : x < 128) :
    c.toNat = x.toNat := by
  by_cases hsize : c.utf8Size = 1
  · rw [String.utf8EncodeChar_eq_singleton hsize, List.mem_singleton] at hx
    have hsmall : c.val.toNat ≤ 127 := UInt32.le_iff_toNat_le.mp (Char.utf8Size_eq_one_iff.mp hsize)
    rw [hx]
    change c.val.toNat = c.val.toUInt8.toNat
    rw [UInt32.toNat_toUInt8]
    omega
  · have hle := le_of_mem_encodeChar hsize hx
    rw [UInt8.le_iff_toNat_le] at hle
    rw [UInt8.lt_iff_toNat_lt] at hlt
    omega

theorem exists_of_mem_encode {x : UInt8} (hx : x ∈ encode t) (hlt : x < 128) :
    ∃ c ∈ t, c.toNat = x.toNat := by
  obtain ⟨c, hc, hbyte⟩ := List.mem_flatMap.mp hx
  exact ⟨c, hc, toNat_of_mem_encodeChar hbyte hlt⟩

/-! ## Cutting -/

theorem splitAt_append (a b : Text) : splitAt (a ++ b) (byteLen a) = some (a, b) := by
  induction a with
  | nil => cases b <;> rfl
  | cons c a ih =>
    have hpos := c.utf8Size_pos
    obtain ⟨k, hk⟩ : ∃ k, byteLen (c :: a) = k + 1 := ⟨byteLen (c :: a) - 1, by
      rw [byteLen_cons]
      omega⟩
    rw [hk]
    rw [byteLen_cons] at hk
    have hle : ¬ k + 1 < c.utf8Size := by omega
    have hrest : k + 1 - c.utf8Size = byteLen a := by omega
    change (if k + 1 < c.utf8Size then none
      else (splitAt (a ++ b) (k + 1 - c.utf8Size)).map fun (x, y) => (c :: x, y)) = _
    rw [if_neg hle, hrest, ih]
    rfl

theorem splitAt_eq_some : splitAt t n = some (a, b) ↔ t = a ++ b ∧ byteLen a = n := by
  constructor
  · intro h
    induction t generalizing n a with
    | nil =>
      cases n with
      | zero =>
        obtain ⟨rfl, rfl⟩ := Prod.mk.inj (Option.some.inj h)
        exact ⟨rfl, rfl⟩
      | succ n => cases h
    | cons c t ih =>
      cases n with
      | zero =>
        obtain ⟨rfl, rfl⟩ := Prod.mk.inj (Option.some.inj h)
        exact ⟨rfl, rfl⟩
      | succ n =>
        unfold splitAt at h
        split at h
        · cases h
        · rename_i hle
          obtain ⟨⟨x, y⟩, hrest, heq⟩ := Option.map_eq_some_iff.mp h
          obtain ⟨rfl, rfl⟩ := Prod.mk.inj heq
          obtain ⟨rfl, hlen⟩ := ih hrest
          refine ⟨rfl, ?_⟩
          rw [byteLen_cons, hlen]
          omega
  · rintro ⟨rfl, rfl⟩
    exact splitAt_append a b

/-- A place where the text can be cut. -/
def IsBoundary (t : Text) (n : Nat) : Prop := ∃ a b, t = a ++ b ∧ byteLen a = n

theorem isBoundary_iff : IsBoundary t n ↔ (splitAt t n).isSome := by
  rw [Option.isSome_iff_exists]
  constructor
  · rintro ⟨a, b, h⟩
    exact ⟨(a, b), splitAt_eq_some.mpr h⟩
  · rintro ⟨⟨a, b⟩, h⟩
    exact ⟨a, b, splitAt_eq_some.mp h⟩

theorem sliceFrom_append (a b : Text) : sliceFrom (a ++ b) (byteLen a) = some b := by
  unfold sliceFrom
  rw [splitAt_append]
  rfl

theorem sliceTo_append (a b : Text) : sliceTo (a ++ b) (byteLen a) = some a := by
  unfold sliceTo
  rw [splitAt_append]
  rfl

theorem sliceFrom_eq_some : sliceFrom t n = some b ↔ ∃ a, t = a ++ b ∧ byteLen a = n := by
  unfold sliceFrom
  rw [Option.map_eq_some_iff]
  constructor
  · rintro ⟨⟨a, b'⟩, h, rfl⟩
    exact ⟨a, splitAt_eq_some.mp h⟩
  · rintro ⟨a, h⟩
    exact ⟨(a, b), splitAt_eq_some.mpr h, rfl⟩

theorem slice_append (a m b : Text) :
    slice (a ++ (m ++ b)) (byteLen a) (byteLen a + byteLen m) = some m := by
  unfold slice
  rw [if_neg (by omega), sliceFrom_append]
  change sliceTo (m ++ b) (byteLen a + byteLen m - byteLen a) = some m
  rw [Nat.add_sub_cancel_left]
  exact sliceTo_append m b

theorem slice_eq_some {start stop : Nat} {m : Text} :
    slice t start stop = some m ↔
      ∃ a b, t = a ++ (m ++ b) ∧ byteLen a = start ∧ byteLen a + byteLen m = stop := by
  constructor
  · intro h
    unfold slice at h
    split at h
    · cases h
    · obtain ⟨rest, hfrom, hto⟩ := Option.bind_eq_some_iff.mp h
      obtain ⟨a, rfl, ha⟩ := sliceFrom_eq_some.mp hfrom
      obtain ⟨⟨m', b⟩, hsplit, rfl⟩ := Option.map_eq_some_iff.mp hto
      obtain ⟨rfl, hm⟩ := splitAt_eq_some.mp hsplit
      dsimp only at hm ⊢
      exact ⟨a, b, rfl, ha, by omega⟩
  · rintro ⟨a, b, rfl, rfl, rfl⟩
    exact slice_append a m b

/-- Two cuts at one offset are the same cut. -/
theorem append_inj {a' b' : Text} (h : a ++ b = a' ++ b') (hlen : byteLen a = byteLen a') :
    a = a' ∧ b = b' := by
  have hcut := splitAt_append a b
  rw [h, hlen, splitAt_append] at hcut
  obtain ⟨ha, hb⟩ := Prod.mk.inj (Option.some.inj hcut)
  exact ⟨ha.symm, hb.symm⟩

/-- Between two boundaries there is a slice. -/
theorem slice_isSome (hn : IsBoundary t n) (hm : IsBoundary t m) (hle : n ≤ m) :
    (slice t n m).isSome := by
  obtain ⟨a, b, rfl, rfl⟩ := hn
  obtain ⟨a', b', heq, rfl⟩ := hm
  rcases List.append_eq_append_iff.mp heq with ⟨l, rfl, rfl⟩ | ⟨l, rfl, rfl⟩
  · have h := slice_append a l b'
    rw [← byteLen_append] at h
    rw [h]
    rfl
  · rw [byteLen_append] at hle
    have hzero : byteLen l = 0 := by omega
    obtain rfl := byteLen_eq_zero.mp hzero
    have h := slice_append a' [] b
    rw [List.append_nil]
    rw [byteLen_nil, Nat.add_zero] at h
    rw [List.nil_append] at h
    rw [h]
    rfl

theorem IsBoundary.zero : IsBoundary t 0 := ⟨[], t, rfl, rfl⟩

theorem IsBoundary.end : IsBoundary t (byteLen t) := ⟨t, [], (List.append_nil t).symm, rfl⟩

theorem IsBoundary.of_append (a b : Text) : IsBoundary (a ++ b) (byteLen a) := ⟨a, b, rfl, rfl⟩

theorem IsBoundary.of_map {f : Char → Char} (hf : ∀ c, (f c).utf8Size = c.utf8Size)
    (h : IsBoundary (t.map f) n) : IsBoundary t n := by
  obtain ⟨a, b, heq, rfl⟩ := h
  obtain ⟨a', b', rfl, rfl, rfl⟩ := List.map_eq_append_iff.mp heq
  exact ⟨a', b', rfl, (byteLen_map hf a').symm⟩

theorem IsBoundary.le (h : IsBoundary t n) : n ≤ byteLen t := by
  obtain ⟨a, b, rfl, rfl⟩ := h
  rw [byteLen_append]
  omega

/-- A boundary is not inside a character. -/
theorem IsBoundary.outside (h : IsBoundary (a ++ c :: b) n) :
    n ≤ byteLen a ∨ byteLen a + c.utf8Size ≤ n := by
  obtain ⟨a', b', heq, rfl⟩ := h
  rcases List.append_eq_append_iff.mp heq with ⟨m, rfl, hm⟩ | ⟨m, rfl, -⟩
  · cases m with
    | nil =>
      left
      rw [List.append_nil]
    | cons d m =>
      obtain ⟨rfl, -⟩ := List.cons.inj hm
      right
      rw [byteLen_append, byteLen_cons]
      omega
  · left
    rw [byteLen_append]
    omega

/-! ## Searching -/

theorem find_eq_some (h : find pattern t = some n) :
    ∃ a b, t = a ++ (pattern ++ b) ∧ byteLen a = n ∧
      ∀ a' b', t = a' ++ (pattern ++ b') → n ≤ byteLen a' := by
  induction t generalizing n with
  | nil =>
    unfold find at h
    split at h
    · rename_i hnil
      obtain rfl := Option.some.inj h
      exact ⟨[], [], by rw [hnil]; rfl, rfl, fun _ _ _ => Nat.zero_le _⟩
    · cases h
  | cons c t ih =>
    unfold find at h
    split at h
    · rename_i hprefix
      obtain ⟨b, hb⟩ := hprefix
      obtain rfl := Option.some.inj h
      exact ⟨[], b, hb.symm, rfl, fun _ _ _ => Nat.zero_le _⟩
    · rename_i hno
      obtain ⟨m, hm, rfl⟩ := Option.map_eq_some_iff.mp h
      obtain ⟨a, b, rfl, hlen, hleast⟩ := ih hm
      refine ⟨c :: a, b, rfl, ?_, ?_⟩
      · rw [byteLen_cons, hlen]
      · intro a' b' heq
        cases a' with
        | nil => exact absurd ⟨b', heq.symm⟩ hno
        | cons d a' =>
          obtain ⟨rfl, hrest⟩ := List.cons.inj heq
          have := hleast a' b' hrest
          rw [byteLen_cons]
          omega

theorem find_eq_none (h : find pattern t = none) (a b : Text) : t ≠ a ++ (pattern ++ b) := by
  induction t generalizing a with
  | nil =>
    rintro heq
    unfold find at h
    have hnil : pattern = [] := by
      have := (List.append_eq_nil_iff.mp heq.symm).2
      exact (List.append_eq_nil_iff.mp this).1
    rw [if_pos hnil] at h
    cases h
  | cons c t ih =>
    intro heq
    unfold find at h
    split at h
    · cases h
    · rename_i hno
      have hrest : find pattern t = none := Option.map_eq_none_iff.mp h
      cases a with
      | nil => exact hno ⟨b, heq.symm⟩
      | cons d a => exact ih hrest a (List.cons.inj heq).2

theorem find_isSome (a b : Text) : (find pattern (a ++ (pattern ++ b))).isSome := by
  by_contra hnone
  exact find_eq_none (Option.not_isSome_iff_eq_none.mp hnone) a b rfl

theorem findLast_eq_some (h : findLast c t = some n) :
    ∃ a b, t = a ++ (c :: b) ∧ byteLen a = n ∧ c ∉ b := by
  induction t generalizing n with
  | nil => cases h
  | cons d t ih =>
    unfold findLast at h
    split at h
    · rename_i m hm
      obtain rfl := Option.some.inj h
      obtain ⟨a, b, rfl, rfl, hlast⟩ := ih hm
      exact ⟨d :: a, b, rfl, rfl, hlast⟩
    · rename_i hnone
      split at h
      · rename_i heq
        obtain rfl := Option.some.inj h
        refine ⟨[], t, by rw [heq]; rfl, rfl, ?_⟩
        intro hmem
        have hno : ∀ l : Text, findLast c l = none → c ∉ l := by
          intro l
          induction l with
          | nil => exact fun _ => List.not_mem_nil
          | cons e l ih' =>
            intro hl hin
            unfold findLast at hl
            split at hl
            · cases hl
            · rename_i hrest
              split at hl
              · cases hl
              · rename_i hne
                rcases List.mem_cons.mp hin with rfl | hin
                · exact hne rfl
                · exact ih' hrest hin
        exact hno t hnone hmem
      · cases h

theorem findLast_append (hb : c ∉ b) : findLast c (a ++ c :: b) = some (byteLen a) := by
  have hnone : findLast c b = none := by
    induction b with
    | nil => rfl
    | cons d b ih =>
      unfold findLast
      rw [ih fun h => hb (List.mem_cons_of_mem _ h)]
      apply if_neg
      intro h
      exact hb (h ▸ List.mem_cons_self)
  induction a with
  | nil =>
    rw [List.nil_append]
    unfold findLast
    rw [hnone]
    exact if_pos rfl
  | cons d a ih =>
    rw [List.cons_append]
    unfold findLast
    rw [ih]
    rfl

/-- The first occurrence of a character is found where it is. -/
theorem find_append (ha : c ∉ a) : find [c] (a ++ c :: b) = some (byteLen a) := by
  induction a with
  | nil =>
    rw [List.nil_append]
    unfold find
    exact if_pos ⟨b, rfl⟩
  | cons d a ih =>
    have hne : ¬ [c] <+: d :: (a ++ c :: b) := by
      rintro ⟨rest, hrest⟩
      exact ha ((List.cons.inj hrest).1 ▸ List.mem_cons_self)
    rw [List.cons_append]
    unfold find
    rw [if_neg hne, ih fun h => ha (List.mem_cons_of_mem _ h)]
    rfl

end Utf8Text
