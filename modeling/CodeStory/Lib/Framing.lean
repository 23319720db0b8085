import Mathlib.Data.List.Basic

/-!
# Streams decoded frame by frame

A decoder looks at the symbols that have arrived and says that it needs more, that a frame
stands at their front, or that they cannot begin a frame. More symbols do not change the last
two answers. `scan` decodes a whole stream; an incremental reader has to agree with it
whatever the pieces are in which the stream arrives.
-/

set_option autoImplicit false

namespace Framing

universe u v w
variable {α : Type u} {F : Type v} {E : Type w}

inductive Verdict (F : Type v) (E : Type w) where
  | more
  | frame (f : F) (used : Nat)
  | bad (e : E)

structure Decoder (α : Type u) (F : Type v) (E : Type w) where
  decode : List α → Verdict F E
  used_pos : ∀ {xs f n}, decode xs = .frame f n → 0 < n
  used_le : ∀ {xs f n}, decode xs = .frame f n → n ≤ xs.length
  frame_append : ∀ {xs f n}, decode xs = .frame f n → ∀ ys, decode (xs ++ ys) = .frame f n
  bad_append : ∀ {xs e}, decode xs = .bad e → ∀ ys, decode (xs ++ ys) = .bad e

/-- The frames of a stream, the error at the first piece that is none, and that piece. -/
structure Scan (α : Type u) (F : Type v) (E : Type w) where
  frames : List F
  error : Option E
  rest : List α

def Scan.cons (f : F) (s : Scan α F E) : Scan α F E := { s with frames := f :: s.frames }

namespace Decoder
variable (D : Decoder α F E)

def scan (xs : List α) : Scan α F E :=
  match _h : D.decode xs with
  | .more => ⟨[], none, xs⟩
  | .bad e => ⟨[], some e, xs⟩
  | .frame f n => (scan (xs.drop n)).cons f
termination_by xs.length
decreasing_by
  have hpos := D.used_pos _h
  have hle := D.used_le _h
  rw [List.length_drop]
  omega

variable {D} {xs : List α}

theorem scan_more (h : D.decode xs = .more) : D.scan xs = ⟨[], none, xs⟩ := by
  rw [scan]
  split
  · rfl
  · rename_i e he
    exact absurd (h.symm.trans he) (by simp)
  · rename_i f n hf
    exact absurd (h.symm.trans hf) (by simp)

/-- A refusal of the symbols at hand is a refusal of the whole stream. -/
theorem scan_bad {e : E} (h : D.decode xs = .bad e) (ys : List α) :
    D.scan (xs ++ ys) = ⟨[], some e, xs ++ ys⟩ := by
  have hwhole := D.bad_append h ys
  rw [scan]
  split
  · rename_i hmore
    exact absurd (hwhole.symm.trans hmore) (by simp)
  · rename_i e' he
    obtain rfl := Verdict.bad.inj (hwhole.symm.trans he)
    rfl
  · rename_i f n hf
    exact absurd (hwhole.symm.trans hf) (by simp)

/-- A frame at the front of the symbols at hand is the first frame of the whole stream. -/
theorem scan_frame {f : F} {n : Nat} (h : D.decode xs = .frame f n) (ys : List α) :
    D.scan (xs ++ ys) = (D.scan (xs.drop n ++ ys)).cons f := by
  have hwhole := D.frame_append h ys
  have hdrop : (xs ++ ys).drop n = xs.drop n ++ ys := List.drop_append_of_le_length (D.used_le h)
  rw [scan]
  split
  · rename_i hmore
    exact absurd (hwhole.symm.trans hmore) (by simp)
  · rename_i e he
    exact absurd (hwhole.symm.trans he) (by simp)
  · rename_i f' n' hf
    obtain ⟨rfl, rfl⟩ := Verdict.frame.inj (hwhole.symm.trans hf)
    rw [hdrop]

/-- What a scan stops at is what the decoder refuses. -/
theorem scan_error (xs : List α) {e : E} (h : (D.scan xs).error = some e) :
    D.decode (D.scan xs).rest = .bad e := by
  cases hdecoded : D.decode xs with
  | more =>
    rw [scan_more hdecoded] at h
    exact absurd h (by simp)
  | bad e' =>
    have hscan := scan_bad hdecoded []
    rw [List.append_nil] at hscan
    rw [hscan] at h ⊢
    obtain rfl := Option.some.inj h
    exact hdecoded
  | frame f n =>
    have hscan := scan_frame hdecoded []
    rw [List.append_nil, List.append_nil] at hscan
    have hpos := D.used_pos hdecoded
    have hle := D.used_le hdecoded
    rw [hscan] at h ⊢
    exact scan_error (xs.drop n) h
termination_by xs.length
decreasing_by
  rw [List.length_drop]
  omega

end Decoder

end Framing
