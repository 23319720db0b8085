import CodeStory.Lib.Utf8Text

/-!
# Decoding bytes that may not be text

`lossy` is `String::from_utf8_lossy`: characters where the bytes encode them, and one replacement
character for each maximal part of a broken one. It never shrinks, it is the identity on encoded
text, and a text that is decoded in parts comes out whole only if no part begins or ends inside a
character.
-/

set_option autoImplicit false

namespace Utf8Text

def decodeChar? (bytes : List UInt8) : Option Char := bytes.toByteArray.utf8DecodeChar? 0

def replacementChar : Char := Char.ofNat 0xFFFD

def isContinuation (byte : UInt8) : Bool := byte &&& 0xC0 = 0x80

/-- The second bytes that may follow the first byte of a character of three or four bytes. -/
def secondFits (lead second : UInt8) : Bool :=
  if lead = 0xE0 then 0xA0 ≤ second && second ≤ 0xBF
  else if lead = 0xED then 0x80 ≤ second && second ≤ 0x9F
  else if lead = 0xF0 then 0x90 ≤ second && second ≤ 0xBF
  else if lead = 0xF4 then 0x80 ≤ second && second ≤ 0x8F
  else 0xE1 ≤ lead && lead ≤ 0xF3 && isContinuation second

/-- How many bytes at the front, where no character is, one replacement stands for. -/
def brokenLen : List UInt8 → Nat
  | lead :: second :: third :: _ =>
    if secondFits lead second then
      if 0xF0 ≤ lead && isContinuation third then 3 else 2
    else 1
  | [lead, second] => if secondFits lead second then 2 else 1
  | _ => 1

-- The counter runs over the bytes of a character, or of a broken one, that are still to be passed.
def lossyFrom : Nat → List UInt8 → Text
  | _, [] => []
  | passing + 1, _ :: rest => lossyFrom passing rest
  | 0, byte :: rest =>
    match decodeChar? (byte :: rest) with
    | some c => c :: lossyFrom (c.utf8Size - 1) rest
    | none => replacementChar :: lossyFrom (brokenLen (byte :: rest) - 1) rest

/-- `String::from_utf8_lossy` -/
def lossy (bytes : List UInt8) : Text := lossyFrom 0 bytes

variable {c : Char} {t : Text} {byte : UInt8} {bytes rest : List UInt8}

theorem decodeChar?_append (c : Char) (rest : List UInt8) :
    decodeChar? (String.utf8EncodeChar c ++ rest) = some c := by
  unfold decodeChar?
  rw [List.toByteArray_append]
  exact ByteArray.utf8DecodeChar?_utf8EncodeChar_append

/-- Only a first byte begins a character. -/
theorem decodeChar?_of_not_first (h : ¬ byte.IsUTF8FirstByte) :
    decodeChar? (byte :: rest) = none := by
  cases hdecode : decodeChar? (byte :: rest) with
  | none => rfl
  | some c =>
    have hfirst := ByteArray.isUTF8FirstByte_of_isSome_utf8DecodeChar?
      (Option.isSome_iff_exists.mpr ⟨c, hdecode⟩)
    exact absurd (by simpa using hfirst) h

theorem brokenLen_le (bytes : List UInt8) : brokenLen bytes ≤ 3 := by
  unfold brokenLen
  split
  · split
    · split <;> decide
    · decide
  · split <;> decide
  · decide

theorem lossyFrom_length_append (first rest : List UInt8) :
    lossyFrom first.length (first ++ rest) = lossyFrom 0 rest := by
  induction first with
  | nil => rfl
  | cons byte first ih => exact ih

theorem lossy_encodeChar_append (c : Char) (rest : List UInt8) :
    lossy (String.utf8EncodeChar c ++ rest) = c :: lossy rest := by
  obtain ⟨byte, tail, htail⟩ := List.exists_cons_of_length_pos
    (by rw [String.length_utf8EncodeChar]; exact c.utf8Size_pos :
      0 < (String.utf8EncodeChar c).length)
  have hlength : c.utf8Size - 1 = tail.length := by
    have h := String.length_utf8EncodeChar c
    rw [htail, List.length_cons] at h
    omega
  have hdecode := decodeChar?_append c rest
  rw [htail] at hdecode ⊢
  unfold lossy
  rw [List.cons_append] at hdecode ⊢
  rw [lossyFrom, hdecode]
  dsimp only
  rw [hlength]
  exact congrArg (c :: ·) (lossyFrom_length_append tail rest)

theorem lossy_encode_append (t : Text) (rest : List UInt8) :
    lossy (encode t ++ rest) = t ++ lossy rest := by
  induction t with
  | nil => rfl
  | cons c t ih =>
    have hcons : encode (c :: t) = String.utf8EncodeChar c ++ encode t := rfl
    rw [hcons, List.append_assoc, lossy_encodeChar_append, ih]
    rfl

theorem lossy_encode (t : Text) : lossy (encode t) = t := by
  have h := lossy_encode_append t []
  rwa [List.append_nil, show lossy [] = [] from rfl, List.append_nil] at h

theorem lossyFrom_length (passing : Nat) (bytes : List UInt8) :
    bytes.length ≤ byteLen (lossyFrom passing bytes) + passing := by
  induction bytes generalizing passing with
  | nil => exact Nat.zero_le _
  | cons byte rest ih =>
    cases passing with
    | succ passing =>
      have h := ih passing
      rw [lossyFrom, List.length_cons]
      omega
    | zero =>
      rw [lossyFrom, List.length_cons]
      split
      · rename_i c _
        have h := ih (c.utf8Size - 1)
        have hpos := c.utf8Size_pos
        rw [byteLen_cons]
        omega
      · have h := ih (brokenLen (byte :: rest) - 1)
        have hle := brokenLen_le (byte :: rest)
        have hsize : replacementChar.utf8Size = 3 := by decide
        rw [byteLen_cons, hsize]
        omega

/-- Nothing shrinks. -/
theorem length_le_byteLen_lossy (bytes : List UInt8) : bytes.length ≤ byteLen (lossy bytes) :=
  lossyFrom_length 0 bytes

/-- Bytes that begin inside a character grow. -/
theorem length_lt_byteLen_lossy (h : ¬ byte.IsUTF8FirstByte) :
    (byte :: rest).length < byteLen (lossy (byte :: rest)) := by
  have hbroken : brokenLen (byte :: rest) = 1 := by
    have hsecond : ∀ second, secondFits byte second = false := by
      intro second
      unfold secondFits
      have hnot : ∀ lead : UInt8, lead.IsUTF8FirstByte → byte ≠ lead := by
        intro lead hlead heq
        exact h (heq ▸ hlead)
      rw [if_neg (hnot _ (by decide)), if_neg (hnot _ (by decide)), if_neg (hnot _ (by decide)),
        if_neg (hnot _ (by decide))]
      have hall : ∀ lead : UInt8, 0xE1 ≤ lead → lead ≤ 0xF3 → lead.IsUTF8FirstByte := by
        intro lead
        have htable : ∀ n < 256, 0xE1 ≤ UInt8.ofNat n → UInt8.ofNat n ≤ 0xF3 →
            (UInt8.ofNat n).IsUTF8FirstByte := by decide +kernel
        have hlead := htable lead.toNat lead.toNat_lt
        rwa [UInt8.ofNat_toNat] at hlead
      cases hlow : decide (0xE1 ≤ byte) with
      | false => rfl
      | true =>
        cases hhigh : decide (byte ≤ 0xF3) with
        | false => rfl
        | true => exact absurd (hall byte (of_decide_eq_true hlow) (of_decide_eq_true hhigh)) h
    unfold brokenLen
    split
    · rename_i heq
      cases heq
      rw [hsecond]
      rfl
    · rename_i heq
      cases heq
      rw [hsecond]
      rfl
    · rfl
  unfold lossy
  rw [lossyFrom, decodeChar?_of_not_first h]
  have hrest := lossyFrom_length (brokenLen (byte :: rest) - 1) rest
  have hsize : replacementChar.utf8Size = 3 := by decide
  rw [hbroken] at hrest
  rw [byteLen_cons, hsize, List.length_cons, hbroken]
  omega

/-! ## Parts of a text -/

theorem not_first_of_append {first last : List UInt8} (hfirst : first ≠ [])
    (h : String.utf8EncodeChar c = first ++ byte :: last) : ¬ byte.IsUTF8FirstByte := by
  have hlt : first.length < (String.utf8EncodeChar c).length := by
    rw [h, List.length_append, List.length_cons]
    omega
  have hget : (String.utf8EncodeChar c)[first.length] = byte := by
    simp [h]
  rw [← hget, UInt8.isUTF8FirstByte_getElem_utf8EncodeChar, List.length_eq_zero_iff]
  exact hfirst

/-- A front of an encoded text ends after a character or inside one. -/
theorem front_cases {front back : List UInt8} (h : front ++ back = encode t) :
    (∃ a b, t = a ++ b ∧ front = encode a ∧ back = encode b) ∨
      ∃ byte last, back = byte :: last ∧ ¬ byte.IsUTF8FirstByte := by
  induction t generalizing front with
  | nil =>
    obtain ⟨rfl, rfl⟩ := List.append_eq_nil_iff.mp h
    exact .inl ⟨[], [], rfl, rfl, rfl⟩
  | cons c t ih =>
    have hcons : encode (c :: t) = String.utf8EncodeChar c ++ encode t := rfl
    rw [hcons] at h
    rcases List.append_eq_append_iff.mp h with ⟨inside, hchar, hback⟩ | ⟨more, hfront, hrest⟩
    · -- the front ends in this character
      cases front with
      | nil =>
        refine .inl ⟨[], c :: t, rfl, rfl, ?_⟩
        rw [hback, hcons, hchar]
        rfl
      | cons x front =>
        cases inside with
        | nil =>
          refine .inl ⟨[c], t, rfl, ?_, hback⟩
          rw [List.append_nil] at hchar
          rw [← hchar]
          exact (List.append_nil _).symm
        | cons byte last =>
          exact .inr ⟨byte, last ++ encode t, hback,
            not_first_of_append (List.cons_ne_nil x front) hchar⟩
    · rcases ih hrest.symm with ⟨a, b, rfl, rfl, hback⟩ | hinside
      · exact .inl ⟨c :: a, b, rfl, hfront, hback⟩
      · exact .inr hinside

theorem length_flatten_le_byteLen (parts : List (List UInt8)) :
    parts.flatten.length ≤ byteLen (parts.map lossy).flatten := by
  induction parts with
  | nil => exact Nat.le_refl _
  | cons part parts ih =>
    have hpart := length_le_byteLen_lossy part
    rw [List.flatten_cons, List.length_append, List.map_cons, List.flatten_cons, byteLen_append]
    omega

/-- Decoded in parts, a text comes out whole exactly when each part is a text. -/
theorem flatten_lossy_iff {parts : List (List UInt8)} (hne : ∀ part ∈ parts, part ≠ [])
    (h : parts.flatten = encode t) :
    (parts.map lossy).flatten = t ↔ ∀ part ∈ parts, ∃ a, part = encode a := by
  induction parts generalizing t with
  | nil =>
    obtain rfl : t = [] := encode_inj (b := []) h.symm
    simp
  | cons part parts ih =>
    rw [List.flatten_cons] at h
    have hne' : ∀ part ∈ parts, part ≠ [] := fun p hp => hne p (List.mem_cons_of_mem _ hp)
    rw [List.map_cons, List.flatten_cons]
    rcases front_cases h with ⟨a, b, rfl, hpart, hback⟩ | ⟨byte, last, hback, hbyte⟩
    · rw [hpart, lossy_encode, List.append_cancel_left_eq, ih hne' hback]
      constructor
      · intro hall p hp
        rcases List.mem_cons.mp hp with rfl | hp
        · exact ⟨a, rfl⟩
        · exact hall p hp
      · exact fun hall p hp => hall p (List.mem_cons_of_mem _ hp)
    · -- what follows begins inside a character
      cases parts with
      | nil => cases hback
      | cons next parts =>
        cases next with
        | nil => exact absurd rfl (hne' [] List.mem_cons_self)
        | cons first next =>
          obtain rfl : first = byte := by
            rw [List.flatten_cons] at hback
            exact (List.cons.inj hback).1
          constructor
          · intro heq
            have hpart := length_le_byteLen_lossy part
            have hnext := @length_lt_byteLen_lossy first next hbyte
            have hparts := length_flatten_le_byteLen parts
            have hbytes := congrArg List.length h
            have htotal := congrArg byteLen heq
            rw [length_encode, List.flatten_cons, List.length_append, List.length_append] at hbytes
            rw [List.map_cons, List.flatten_cons, byteLen_append, byteLen_append] at htotal
            omega
          · intro hall
            obtain ⟨a, ha⟩ := hall (first :: next) (by simp)
            cases a with
            | nil => cases ha
            | cons c a =>
              have hcons : encode (c :: a) = String.utf8EncodeChar c ++ encode a := rfl
              obtain ⟨x, tail, htail⟩ := List.exists_cons_of_length_pos
                (by rw [String.length_utf8EncodeChar]; exact c.utf8Size_pos :
                  0 < (String.utf8EncodeChar c).length)
              have hx : x.IsUTF8FirstByte := by
                have h0 := UInt8.isUTF8FirstByte_getElem_zero_utf8EncodeChar (c := c)
                simpa [htail] using h0
              rw [hcons, htail] at ha
              obtain rfl : first = x := (List.cons.inj ha).1
              exact absurd hx hbyte

end Utf8Text
