import Mathlib.Data.List.Basic
import Mathlib.Algebra.Ring.Nat

/-!
# Encodings that can be read back from a stream

An encoding is prefix free when a word at the front of a stream determines its value, or what
is asked of it, and the rest; then the concatenated words of a list determine the list. Texts
are encoded either by a terminator, which must not occur in them, or by their length in front.
-/

set_option autoImplicit false

namespace Encoding

universe u v w

section PrefixFree
variable {α : Type u} {β : Type v} {κ : Type w}

/-- A word determines what `key` says of its value, on the values that meet `P`. -/
def PrefixFree (P : α → Prop) (key : α → κ) (encode : α → List β) : Prop :=
  ∀ ⦃a b : α⦄ ⦃x y : List β⦄, P a → P b → encode a ++ x = encode b ++ y → key a = key b ∧ x = y

theorem PrefixFree.flatMap_inj {P : α → Prop} {key : α → κ} {encode : α → List β}
    (h : PrefixFree P key encode) (hne : ∀ a, encode a ≠ []) {xs ys : List α}
    (hxs : ∀ a ∈ xs, P a) (hys : ∀ a ∈ ys, P a)
    (heq : xs.flatMap encode = ys.flatMap encode) : xs.map key = ys.map key := by
  induction xs generalizing ys with
  | nil =>
    cases ys with
    | nil => rfl
    | cons b ys =>
      rw [List.flatMap_cons, List.flatMap_nil] at heq
      exact absurd (List.append_eq_nil_iff.mp heq.symm).1 (hne b)
  | cons a xs ih =>
    cases ys with
    | nil =>
      rw [List.flatMap_cons, List.flatMap_nil] at heq
      exact absurd (List.append_eq_nil_iff.mp heq).1 (hne a)
    | cons b ys =>
      rw [List.flatMap_cons, List.flatMap_cons] at heq
      obtain ⟨hkey, hrest⟩ := h (hxs a List.mem_cons_self) (hys b List.mem_cons_self) heq
      rw [List.map_cons, List.map_cons, hkey, ih (fun c hc => hxs c (List.mem_cons_of_mem _ hc))
        (fun c hc => hys c (List.mem_cons_of_mem _ hc)) hrest]

/-- A separator that does not occur before it splits a stream in one way. -/
theorem append_cons_inj {separator : β} {xs ys x y : List β} (hxs : separator ∉ xs)
    (hys : separator ∉ ys) (h : xs ++ separator :: x = ys ++ separator :: y) : xs = ys ∧ x = y := by
  induction xs generalizing ys with
  | nil =>
    cases ys with
    | nil => exact ⟨rfl, (List.cons.inj h).2⟩
    | cons b ys => exact absurd ((List.cons.inj h).1 ▸ List.mem_cons_self) hys
  | cons a xs ih =>
    cases ys with
    | nil => exact absurd ((List.cons.inj h).1 ▸ List.mem_cons_self) hxs
    | cons b ys =>
      obtain ⟨hhead, htail⟩ := List.cons.inj h
      obtain ⟨hrest, hxy⟩ := ih (fun hm => hxs (List.mem_cons_of_mem _ hm))
        (fun hm => hys (List.mem_cons_of_mem _ hm)) htail
      exact ⟨by rw [hhead, hrest], hxy⟩

end PrefixFree

/-! ## Words without marks -/

section Measured
variable {α : Type u} {β : Type v} {κ : Type w}

/-- Words of one layout have one length and tell their values apart. -/
def Measured (layout : α → κ) (encode : α → List β) : Prop :=
  ∀ ⦃a b : α⦄, layout a = layout b →
    (encode a).length = (encode b).length ∧ (encode a = encode b → a = b)

variable {layout : α → κ} {encode : α → List β}

theorem Measured.append_inj (h : Measured layout encode) {a b : α} {x y : List β}
    (hlayout : layout a = layout b) (heq : encode a ++ x = encode b ++ y) : a = b ∧ x = y := by
  obtain ⟨hlength, hinj⟩ := h hlayout
  obtain ⟨hword, hrest⟩ := List.append_inj heq hlength
  exact ⟨hinj hword, hrest⟩

theorem Measured.flatMap (h : Measured layout encode) :
    Measured (List.map layout) (List.flatMap encode) := by
  intro xs ys hlayout
  induction xs generalizing ys with
  | nil =>
    cases ys with
    | nil => exact ⟨rfl, fun _ => rfl⟩
    | cons b ys => cases hlayout
  | cons a xs ih =>
    cases ys with
    | nil => cases hlayout
    | cons b ys =>
      obtain ⟨hfirst, hrest⟩ := List.cons.inj hlayout
      obtain ⟨hlength, hinj⟩ := ih hrest
      rw [List.flatMap_cons, List.flatMap_cons, List.length_append, List.length_append, hlength,
        (h hfirst).1]
      refine ⟨rfl, fun heq => ?_⟩
      obtain ⟨hab, htail⟩ := h.append_inj hfirst heq
      rw [hab, hinj htail]

/-- A mark says whether there is a value. -/
def optionally (absent present : β) (encode : α → List β) : Option α → List β
  | none => [absent]
  | some a => present :: encode a

theorem Measured.option (h : Measured layout encode) (absent present : β) :
    Measured (Option.map layout) (optionally absent present encode) := by
  intro a b hlayout
  cases a with
  | none =>
    cases b with
    | none => exact ⟨rfl, fun _ => rfl⟩
    | some b => cases hlayout
  | some a =>
    cases b with
    | none => cases hlayout
    | some b =>
      obtain ⟨hlength, hinj⟩ := h (Option.some.inj hlayout)
      refine ⟨congrArg Nat.succ hlength, fun heq => ?_⟩
      rw [hinj (List.cons.inj heq).2]

end Measured

/-! ## Numbers of fixed width -/

def littleEndian : Nat → Nat → List UInt8
  | 0, _ => []
  | width + 1, n => UInt8.ofNat n :: littleEndian width (n / 256)

theorem length_littleEndian (width n : Nat) : (littleEndian width n).length = width := by
  induction width generalizing n with
  | zero => rfl
  | succ width ih => exact congrArg Nat.succ (ih (n / 256))

theorem littleEndian_inj {width m n : Nat} (hm : m < 256 ^ width) (hn : n < 256 ^ width)
    (h : littleEndian width m = littleEndian width n) : m = n := by
  induction width generalizing m n with
  | zero =>
    rw [Nat.pow_zero] at hm hn
    omega
  | succ width ih =>
    obtain ⟨hlow, hhigh⟩ := List.cons.inj h
    have hmod : m % 256 = n % 256 := by
      have hnat := congrArg UInt8.toNat hlow
      rwa [UInt8.toNat_ofNat', UInt8.toNat_ofNat'] at hnat
    rw [Nat.pow_succ] at hm hn
    have hdiv : m / 256 = n / 256 := by
      apply ih ?_ ?_ hhigh
      · exact Nat.div_lt_of_lt_mul (by omega)
      · exact Nat.div_lt_of_lt_mul (by omega)
    omega

/-! ## Texts -/

/-- `str::as_bytes` -/
def utf8 (text : String) : List UInt8 := text.toByteArray.data.toList

theorem utf8_injective {s t : String} (h : utf8 s = utf8 t) : s = t := by
  apply String.toByteArray_inj.mp
  apply ByteArray.ext
  exact Array.toList_inj.mp h

theorem utf8_append (s t : String) : utf8 (s ++ t) = utf8 s ++ utf8 t := by
  unfold utf8
  rw [String.toByteArray_append, ByteArray.data_append, Array.toList_append]

/-- Texts with endings of the same size are equal only when both parts are. -/
theorem append_inj_of_size {s t x y : String} (hsize : x.utf8ByteSize = y.utf8ByteSize)
    (h : s ++ x = t ++ y) : s = t ∧ x = y := by
  have hbytes := congrArg utf8 h
  rw [utf8_append, utf8_append] at hbytes
  obtain ⟨hhead, htail⟩ := List.append_inj' hbytes hsize
  exact ⟨utf8_injective hhead, utf8_injective htail⟩

/-- A text and a zero byte. -/
def terminated (text : String) : List UInt8 := utf8 text ++ [0]

theorem terminated_append_inj {s t : String} {x y : List UInt8} (hs : 0 ∉ utf8 s)
    (ht : 0 ∉ utf8 t) (h : terminated s ++ x = terminated t ++ y) : s = t ∧ x = y := by
  unfold terminated at h
  rw [List.append_assoc, List.append_assoc] at h
  obtain ⟨htext, hrest⟩ := append_cons_inj hs ht h
  exact ⟨utf8_injective htext, hrest⟩

/-- The length of a text in eight bytes, then the text. -/
def lengthPrefixed (text : String) : List UInt8 :=
  littleEndian 8 (utf8 text).length ++ utf8 text

/-- The length of the text can be written in eight bytes, as that of every text in memory. -/
def Addressable (text : String) : Prop := (utf8 text).length < 256 ^ 8

instance (text : String) : Decidable (Addressable text) :=
  inferInstanceAs (Decidable ((utf8 text).length < 256 ^ 8))

theorem prefixFree_lengthPrefixed : PrefixFree Addressable id lengthPrefixed := by
  intro s t x y hs ht h
  unfold lengthPrefixed at h
  rw [List.append_assoc, List.append_assoc] at h
  obtain ⟨hlength, hrest⟩ := List.append_inj h
    ((length_littleEndian 8 _).trans (length_littleEndian 8 _).symm)
  obtain ⟨htext, hxy⟩ := List.append_inj hrest (littleEndian_inj hs ht hlength)
  exact ⟨utf8_injective htext, hxy⟩

theorem lengthPrefixed_ne_nil (text : String) : lengthPrefixed text ≠ [] := by
  intro h
  have hlength := congrArg List.length (List.append_eq_nil_iff.mp h).1
  rw [length_littleEndian] at hlength
  exact absurd hlength (by decide)

/-! ## Decimal numbers -/

theorem toDigits_inj {m n : Nat} (h : Nat.toDigits 10 m = Nat.toDigits 10 n) : m = n := by
  have hm : Nat.ofDigitChars 10 (Nat.toDigits 10 m) 0 = m :=
    Nat.ofDigitChars_toDigits (by decide) (by decide)
  have hn : Nat.ofDigitChars 10 (Nat.toDigits 10 n) 0 = n :=
    Nat.ofDigitChars_toDigits (by decide) (by decide)
  rw [← hm, h, hn]

theorem repr_inj {m n : Nat} (h : m.repr = n.repr) : m = n := by
  apply toDigits_inj
  rw [← Nat.toList_repr, ← Nat.toList_repr, h]

theorem minus_not_mem_repr (n : Nat) : '-' ∉ n.repr.toList := by
  intro h
  rw [Nat.toList_repr] at h
  exact absurd (Nat.isDigit_of_mem_toDigits (by decide) (by decide) h) (by decide)

theorem int_repr_inj {m n : Int} (h : m.repr = n.repr) : m = n := by
  have hsign : ∀ {a b : Nat}, a.repr ≠ "-" ++ b.repr := by
    intro a b hab
    apply minus_not_mem_repr a
    rw [hab, String.toList_append]
    exact List.mem_cons_self
  cases m with
  | ofNat m =>
    cases n with
    | ofNat n => rw [repr_inj h]
    | negSucc n => exact absurd h hsign
  | negSucc m =>
    cases n with
    | ofNat n => exact absurd h.symm hsign
    | negSucc n =>
      have hlist := congrArg String.toList h
      change ("-" ++ (m.succ).repr).toList = ("-" ++ (n.succ).repr).toList at hlist
      rw [String.toList_append, String.toList_append] at hlist
      have hnat := repr_inj (String.toList_inj.mp (List.append_cancel_left hlist))
      rw [Nat.succ.inj hnat]

theorem int_repr_ne_empty (n : Int) : n.repr ≠ "" := by
  cases n with
  | ofNat n => exact Nat.repr_ne_empty
  | negSucc n =>
    intro h
    have hlist := congrArg String.toList h
    change ("-" ++ (n.succ).repr).toList = [] at hlist
    rw [String.toList_append] at hlist
    exact absurd hlist (by simp)

end Encoding
