import Mathlib.Data.List.Basic
import Mathlib.Tactic.Common

/-!
# Stored embeddings

A vector is stored as the bytes of its components, without a header, or as one byte for each
component behind a header that opens with a magic word. The decoder tells the two apart by the
first four bytes. A component is its 32-bit pattern.

The arithmetic of the one-byte formats is a parameter: no decision of the decoder looks at a
floating-point value.
-/

set_option autoImplicit false

namespace CodeStory.Store

/-! ## Little-endian words -/

def toLeBytes (pattern : UInt32) : List UInt8 :=
  [.ofNat pattern.toNat, .ofNat (pattern.toNat / 256), .ofNat (pattern.toNat / 65536),
    .ofNat (pattern.toNat / 16777216)]

def fromLeBytes (b₀ b₁ b₂ b₃ : UInt8) : UInt32 :=
  .ofNat (b₀.toNat + 256 * b₁.toNat + 65536 * b₂.toNat + 16777216 * b₃.toNat)

theorem fromLeBytes_toLeBytes (pattern : UInt32) :
    fromLeBytes (.ofNat pattern.toNat) (.ofNat (pattern.toNat / 256))
      (.ofNat (pattern.toNat / 65536)) (.ofNat (pattern.toNat / 16777216)) = pattern := by
  have hlt := pattern.toNat_lt
  apply UInt32.toNat.inj
  unfold fromLeBytes
  simp only [UInt32.toNat_ofNat', UInt8.toNat_ofNat']
  omega

/-! ## Encoding -/

inductive EmbeddingBlobEncoding where
  | float32
  | int8
deriving DecidableEq

def embeddingBlobMagic : List UInt8 := [0x43, 0x53, 0x45, 0x31]

/-- The arithmetic on stored values. -/
structure QuantizedArithmetic where
  /-- The scale of a vector, `1.0` when it is negligible. -/
  quantizationScale : List UInt32 → UInt32
  /-- `(value / scale * 127.0).round().clamp(-127.0, 127.0) as i8 as u8`. -/
  quantize : UInt32 → UInt32 → UInt8
  /-- `(byte as i8) as f32 / 127.0`. -/
  dequantize : UInt8 → UInt32
  scaleBy : UInt32 → UInt32 → UInt32
  l2Normalize : List UInt32 → List UInt32

def encodeFloat32EmbeddingBlob (values : List UInt32) : List UInt8 := values.flatMap toLeBytes

section Arithmetic
variable (ops : QuantizedArithmetic)

def encodeInt8EmbeddingBlob (values : List UInt32) : List UInt8 :=
  let scale := ops.quantizationScale values
  embeddingBlobMagic ++ [3] ++ toLeBytes scale ++ values.map (ops.quantize scale)

def encodeEmbeddingBlobWithEncoding (values : List UInt32) : EmbeddingBlobEncoding → List UInt8
  | .float32 => encodeFloat32EmbeddingBlob values
  | .int8 => encodeInt8EmbeddingBlob ops values

/-! ## Decoding -/

def legacyInt8 (payload : List UInt8) : List UInt32 :=
  ops.l2Normalize (payload.map ops.dequantize)

def scaledInt8 (scale : UInt32) (payload : List UInt8) : List UInt32 :=
  ops.l2Normalize (payload.map fun byte => ops.scaleBy (ops.dequantize byte) scale)

def decodeVersionedEmbeddingBlob : List UInt8 → Except String (List UInt32)
  | _ :: _ :: _ :: _ :: tag :: b₅ :: b₆ :: b₇ :: b₈ :: rest =>
    let dim := (fromLeBytes b₅ b₆ b₇ b₈).toNat
    if tag = 1 then
      let got := rest.length
      if got ≠ dim then
        .error s!"invalid int8 embedding blob length: expected {dim} bytes, got {got}"
      else .ok (legacyInt8 ops rest)
    else if tag = 2 then
      match rest with
      | b₉ :: b₁₀ :: b₁₁ :: b₁₂ :: payload =>
        let got := payload.length
        if got ≠ dim then
          .error s!"invalid scaled int8 embedding blob length: expected {dim} bytes, got {got}"
        else .ok (scaledInt8 ops (fromLeBytes b₉ b₁₀ b₁₁ b₁₂) payload)
      | _ => .error "invalid scaled int8 embedding blob length: incomplete header"
    else if tag = 3 then
      if rest.isEmpty then
        .error "invalid compact scaled int8 embedding blob length: empty payload"
      else .ok (scaledInt8 ops (fromLeBytes b₅ b₆ b₇ b₈) rest)
    else .error s!"unsupported embedding blob encoding tag: {tag}"
  | _ => .error "invalid embedding blob length: incomplete versioned header"

def decodeFloat32Chunks : List UInt8 → List UInt32
  | b₀ :: b₁ :: b₂ :: b₃ :: rest => fromLeBytes b₀ b₁ b₂ b₃ :: decodeFloat32Chunks rest
  | _ => []

def decodeFloat32EmbeddingBlob (blob : List UInt8) : Except String (List UInt32) :=
  if blob.length % 4 ≠ 0 then
    .error "invalid embedding blob length: expected multiple of 4 bytes"
  else .ok (decodeFloat32Chunks blob)

def isVersioned (blob : List UInt8) : Bool := embeddingBlobMagic.isPrefixOf blob

def decodeEmbeddingBlob (blob : List UInt8) : Except String (List UInt32) :=
  if isVersioned blob then decodeVersionedEmbeddingBlob ops blob
  else decodeFloat32EmbeddingBlob blob

end Arithmetic

/-! ## Round trip -/

/-- The pattern whose bytes are the magic word, about `2.9e-9` as a number. -/
def magicPattern : UInt32 := 0x31455343

theorem length_encodeFloat32 (values : List UInt32) :
    (encodeFloat32EmbeddingBlob values).length = 4 * values.length := by
  induction values with
  | nil => rfl
  | cons value values ih =>
    unfold encodeFloat32EmbeddingBlob at ih ⊢
    rw [List.flatMap_cons, List.length_append, ih, List.length_cons]
    have hword : (toLeBytes value).length = 4 := rfl
    omega

theorem decodeFloat32Chunks_encode (values : List UInt32) :
    decodeFloat32Chunks (encodeFloat32EmbeddingBlob values) = values := by
  induction values with
  | nil => rfl
  | cons value values ih =>
    have hcons : decodeFloat32Chunks (encodeFloat32EmbeddingBlob (value :: values)) =
        fromLeBytes (.ofNat value.toNat) (.ofNat (value.toNat / 256))
          (.ofNat (value.toNat / 65536)) (.ofNat (value.toNat / 16777216)) ::
          decodeFloat32Chunks (encodeFloat32EmbeddingBlob values) := rfl
    rw [hcons, ih, fromLeBytes_toLeBytes]

theorem toLeBytes_eq_magic {pattern : UInt32} :
    toLeBytes pattern = embeddingBlobMagic ↔ pattern = magicPattern := by
  constructor
  · intro h
    have hword := fromLeBytes_toLeBytes pattern
    simp only [toLeBytes, embeddingBlobMagic, List.cons.injEq, and_true] at h
    obtain ⟨h₀, h₁, h₂, h₃⟩ := h
    rw [h₀, h₁, h₂, h₃] at hword
    rw [← hword]
    rfl
  · intro h
    subst h
    rfl

/-- A vector's blob opens with the magic word exactly when its first component does. -/
theorem isVersioned_encode_iff (values : List UInt32) :
    isVersioned (encodeFloat32EmbeddingBlob values) = true ↔ values.head? = some magicPattern := by
  cases values with
  | nil => simp [isVersioned, encodeFloat32EmbeddingBlob, embeddingBlobMagic]
  | cons value values =>
    have hblob : encodeFloat32EmbeddingBlob (value :: values) =
        toLeBytes value ++ encodeFloat32EmbeddingBlob values := rfl
    rw [isVersioned, hblob, List.isPrefixOf_iff_prefix, List.head?_cons, Option.some.injEq,
      ← toLeBytes_eq_magic]
    constructor
    · intro hmagic
      have hword := List.prefix_of_prefix_length_le hmagic
        (List.prefix_append (toLeBytes value) _) (Nat.le_refl 4)
      exact (hword.eq_of_length rfl).symm
    · intro hmagic
      rw [hmagic]
      exact List.prefix_append _ _

theorem decode_encode_of_not_magic (ops : QuantizedArithmetic) {values : List UInt32}
    (h : values.head? ≠ some magicPattern) :
    decodeEmbeddingBlob ops (encodeFloat32EmbeddingBlob values) = .ok values := by
  have hplain : ¬ isVersioned (encodeFloat32EmbeddingBlob values) = true := by
    rw [isVersioned_encode_iff]
    exact h
  unfold decodeEmbeddingBlob decodeFloat32EmbeddingBlob
  rw [if_neg hplain, if_neg, decodeFloat32Chunks_encode]
  rw [length_encodeFloat32]
  omega

/-- A stored vector is read back as it was, and as a plain one, unless its first component is
the magic word. -/
theorem float32_roundTrip_iff (ops : QuantizedArithmetic) (values : List UInt32) :
    (decodeEmbeddingBlob ops (encodeFloat32EmbeddingBlob values) = .ok values ∧
        isVersioned (encodeFloat32EmbeddingBlob values) = false) ↔
      values.head? ≠ some magicPattern := by
  constructor
  · rintro ⟨-, hplain⟩ hmagic
    rw [(isVersioned_encode_iff values).mpr hmagic] at hplain
    cases hplain
  · intro h
    refine ⟨decode_encode_of_not_magic ops h, ?_⟩
    rw [← Bool.not_eq_true, isVersioned_encode_iff]
    exact h

section Inputs

/-- The inputs below never reach it. -/
def someArithmetic : QuantizedArithmetic where
  quantizationScale := fun _ => 0x3F800000
  quantize := fun _ _ => 0
  dequantize := fun _ => 0
  scaleBy := fun _ _ => 0
  l2Normalize := id

/-- One component that is the magic word, and four of which the first is. -/
theorem magic_vector_is_lost :
    decodeEmbeddingBlob someArithmetic (encodeFloat32EmbeddingBlob [magicPattern]) =
        .error "invalid embedding blob length: incomplete versioned header" ∧
      decodeEmbeddingBlob someArithmetic
          (encodeFloat32EmbeddingBlob [magicPattern, 0x3F000000, 0xBF000000, 0x3F000000]) =
        .error "unsupported embedding blob encoding tag: 0" := by
  exact ⟨rfl, rfl⟩

end Inputs

end CodeStory.Store
