import CodeStory.Lib.Utf8Text

/-!
# Splitting after a separator

`splitInclusive` cuts a list after each element that passes, so nothing is lost. A list that
arrives in parts is cut part by part; `joinPieces` puts the pieces of one line together again.
-/

set_option autoImplicit false

namespace InclusiveSplit

universe u
variable {α : Type u} (p : α → Bool)

def splitInclusive : List α → List (List α)
  | [] => []
  | x :: rest =>
    if p x then [x] :: splitInclusive rest
    else
      match splitInclusive rest with
      | [] => [[x]]
      | line :: lines => (x :: line) :: lines

/-- The pieces of each line, from pieces of which none goes past the end of a line. -/
def joinPieces : List (List α) → List (List (List α))
  | [] => []
  | piece :: rest =>
    if piece.getLast?.any p then [piece] :: joinPieces rest
    else
      match joinPieces rest with
      | [] => [[piece]]
      | line :: lines => (piece :: line) :: lines

/-- The pieces of each line of a list that arrives in parts. -/
def linePieces (parts : List (List α)) : List (List (List α)) :=
  joinPieces p (parts.flatMap (splitInclusive p))

variable {p} {x : α} {a b : List α} {parts : List (List α)}

/-- What stands before the first line of what follows. -/
def prepend (a : List α) : List (List α) → List (List α)
  | [] => [a]
  | line :: lines => (a ++ line) :: lines

theorem splitInclusive_append (ha : a ≠ []) (hnot : ∀ x ∈ a, p x = false) :
    splitInclusive p (a ++ b) = prepend a (splitInclusive p b) := by
  induction a with
  | nil => exact absurd rfl ha
  | cons x a ih =>
    have hx : p x = false := hnot x List.mem_cons_self
    rw [List.cons_append, splitInclusive, hx, if_neg Bool.false_ne_true]
    cases a with
    | nil =>
      rw [List.nil_append]
      cases splitInclusive p b <;> rfl
    | cons y a =>
      rw [ih (List.cons_ne_nil y a) fun z hz => hnot z (List.mem_cons_of_mem _ hz)]
      cases splitInclusive p b <;> rfl

theorem splitInclusive_append_cons (hnot : ∀ x ∈ a, p x = false) (hx : p x = true) :
    splitInclusive p (a ++ x :: b) = (a ++ [x]) :: splitInclusive p b := by
  have hcons : splitInclusive p (x :: b) = [x] :: splitInclusive p b := by
    rw [splitInclusive, if_pos hx]
  cases a with
  | nil => exact hcons
  | cons y a =>
    rw [splitInclusive_append (List.cons_ne_nil y a) hnot, hcons]
    rfl

theorem splitInclusive_of_not (ha : a ≠ []) (hnot : ∀ x ∈ a, p x = false) :
    splitInclusive p a = [a] := by
  have h := splitInclusive_append (b := []) ha hnot
  rwa [List.append_nil] at h

theorem flatten_splitInclusive (a : List α) : (splitInclusive p a).flatten = a := by
  induction a with
  | nil => rfl
  | cons x a ih =>
    rw [splitInclusive]
    split
    · rw [List.flatten_cons, ih]
      rfl
    · cases hrest : splitInclusive p a with
      | nil =>
        rw [hrest] at ih
        rw [← ih]
        rfl
      | cons line lines =>
        rw [hrest] at ih
        rw [← ih]
        rfl

theorem ne_nil_of_mem_splitInclusive {line : List α} (h : line ∈ splitInclusive p a) :
    line ≠ [] := by
  induction a generalizing line with
  | nil => cases h
  | cons x a ih =>
    rw [splitInclusive] at h
    split at h
    · rcases List.mem_cons.mp h with rfl | h
      · exact List.cons_ne_nil _ _
      · exact ih h
    · cases hrest : splitInclusive p a with
      | nil =>
        rw [hrest, List.mem_singleton] at h
        rw [h]
        exact List.cons_ne_nil _ _
      | cons first lines =>
        rw [hrest] at h ih
        rcases List.mem_cons.mp h with rfl | h
        · exact List.cons_ne_nil _ _
        · exact ih (List.mem_cons_of_mem _ h)

/-- Only the last element of a line passes. -/
theorem dropLast_of_mem_splitInclusive {line : List α} (h : line ∈ splitInclusive p a) :
    ∀ x ∈ line.dropLast, p x = false := by
  induction a generalizing line with
  | nil => cases h
  | cons x a ih =>
    rw [splitInclusive] at h
    split at h
    · rcases List.mem_cons.mp h with rfl | h
      · simp
      · exact ih h
    · rename_i hx
      cases hrest : splitInclusive p a with
      | nil =>
        rw [hrest, List.mem_singleton] at h
        rw [h]
        simp
      | cons first lines =>
        rw [hrest] at h ih
        rcases List.mem_cons.mp h with rfl | h
        · have hfirst : first ≠ [] := by
            apply ne_nil_of_mem_splitInclusive (p := p) (a := a)
            rw [hrest]
            exact List.mem_cons_self
          rw [List.dropLast_cons_of_ne_nil hfirst]
          intro y hy
          rcases List.mem_cons.mp hy with rfl | hy
          · exact Bool.of_not_eq_true hx
          · exact ih List.mem_cons_self y hy
        · exact ih (List.mem_cons_of_mem _ h)

/-- Joined and flattened, the pieces are the lines of the whole. -/
theorem flatten_joinPieces {pieces : List (List α)} (hne : ∀ piece ∈ pieces, piece ≠ [])
    (hlast : ∀ piece ∈ pieces, ∀ x ∈ piece.dropLast, p x = false) :
    (joinPieces p pieces).map List.flatten = splitInclusive p pieces.flatten := by
  induction pieces with
  | nil => rfl
  | cons piece rest ih =>
    have ih := ih (fun q hq => hne q (List.mem_cons_of_mem _ hq))
      fun q hq => hlast q (List.mem_cons_of_mem _ hq)
    have hpiece := hne piece List.mem_cons_self
    have hbefore := hlast piece List.mem_cons_self
    have hsplit := List.dropLast_append_getLast hpiece
    rw [joinPieces, List.flatten_cons]
    by_cases hend : p (piece.getLast hpiece) = true
    · rw [List.getLast?_eq_some_getLast hpiece, Option.any_some, if_pos hend, List.map_cons, ih,
        ← hsplit, List.append_assoc, List.singleton_append,
        splitInclusive_append_cons hbefore hend, hsplit]
      simp
    · rw [List.getLast?_eq_some_getLast hpiece, Option.any_some, if_neg hend]
      have hnot : ∀ x ∈ piece, p x = false := by
        intro x hx
        rw [← hsplit] at hx
        rcases List.mem_append.mp hx with hx | hx
        · exact hbefore x hx
        · rw [List.mem_singleton.mp hx]
          exact Bool.of_not_eq_true hend
      rw [splitInclusive_append hpiece hnot, ← ih]
      cases joinPieces p rest with
      | nil => simp [prepend]
      | cons line lines => rfl

/-- Joining loses no piece. -/
theorem pieces_joinPieces (pieces : List (List α)) : (joinPieces p pieces).flatten = pieces := by
  induction pieces with
  | nil => rfl
  | cons piece rest ih =>
    rw [joinPieces]
    split
    · rw [List.flatten_cons, ih]
      rfl
    · cases hrest : joinPieces p rest with
      | nil =>
        rw [hrest] at ih
        rw [← ih]
        rfl
      | cons line lines =>
        rw [hrest] at ih
        rw [← ih]
        rfl

theorem flatten_linePieces (parts : List (List α)) :
    (linePieces p parts).map List.flatten = splitInclusive p parts.flatten := by
  have hmem : ∀ piece ∈ parts.flatMap (splitInclusive p), ∃ part,
    piece ∈ splitInclusive p part := by
    intro piece hpiece
    obtain ⟨part, _, h⟩ := List.mem_flatMap.mp hpiece
    exact ⟨part, h⟩
  have hflat : (parts.flatMap (splitInclusive p)).flatten = parts.flatten := by
    induction parts with
    | nil => rfl
    | cons part parts ih =>
      rw [List.flatMap_cons, List.flatten_append, flatten_splitInclusive, List.flatten_cons,
        ih fun piece hpiece => hmem piece (List.mem_append_right _ hpiece)]
  unfold linePieces
  rw [flatten_joinPieces, hflat]
  · intro piece hpiece
    obtain ⟨part, h⟩ := hmem piece hpiece
    exact ne_nil_of_mem_splitInclusive h
  · intro piece hpiece
    obtain ⟨part, h⟩ := hmem piece hpiece
    exact dropLast_of_mem_splitInclusive h

/-- A part that ends a line, and the rest of which begins the next. -/
theorem linePieces_of_end (hnot : ∀ x ∈ a, p x = false) (hx : p x = true) :
    linePieces p ((a ++ x :: b) :: parts) = [a ++ [x]] :: linePieces p (b :: parts) := by
  unfold linePieces
  rw [List.flatMap_cons, splitInclusive_append_cons hnot hx, List.cons_append, joinPieces]
  rw [List.getLast?_concat, Option.any_some, if_pos hx]
  rfl

/-- A piece before the pieces of the first line of what follows. -/
def prependPiece (a : List α) : List (List (List α)) → List (List (List α))
  | [] => [[a]]
  | line :: lines => (a :: line) :: lines

/-- A part within a line. -/
theorem linePieces_of_within (ha : a ≠ []) (hnot : ∀ x ∈ a, p x = false) :
    linePieces p (a :: parts) = prependPiece a (linePieces p parts) := by
  have hlast : a.getLast?.any p = false := by
    rw [List.getLast?_eq_some_getLast ha, Option.any_some]
    exact hnot _ (List.getLast_mem ha)
  unfold linePieces
  rw [List.flatMap_cons, splitInclusive_of_not ha hnot, List.singleton_append, joinPieces, hlast]
  rfl

theorem ne_nil_of_mem_linePieces {line : List (List α)} {piece : List α}
    (hline : line ∈ linePieces p parts) (hpiece : piece ∈ line) : piece ≠ [] := by
  have hjoin : ∀ pieces : List (List α), (∀ piece ∈ pieces, piece ≠ []) →
      ∀ line ∈ joinPieces p pieces, ∀ piece ∈ line, piece ≠ [] := by
    intro pieces
    induction pieces with
    | nil =>
      intro _ line hline
      cases hline
    | cons first rest ih =>
      intro hne line hline piece hpiece
      have ih := ih fun q hq => hne q (List.mem_cons_of_mem _ hq)
      have hfirst := hne first List.mem_cons_self
      rw [joinPieces] at hline
      split at hline
      · rcases List.mem_cons.mp hline with rfl | hline
        · rw [List.mem_singleton.mp hpiece]
          exact hfirst
        · exact ih line hline piece hpiece
      · cases hrest : joinPieces p rest with
        | nil =>
          rw [hrest, List.mem_singleton] at hline
          rw [hline, List.mem_singleton] at hpiece
          rw [hpiece]
          exact hfirst
        | cons next lines =>
          rw [hrest] at hline ih
          rcases List.mem_cons.mp hline with rfl | hline
          · rcases List.mem_cons.mp hpiece with rfl | hpiece
            · exact hfirst
            · exact ih next List.mem_cons_self piece hpiece
          · exact ih line (List.mem_cons_of_mem _ hline) piece hpiece
  apply hjoin _ _ line hline piece hpiece
  intro piece hpiece
  obtain ⟨part, _, h⟩ := List.mem_flatMap.mp hpiece
  exact ne_nil_of_mem_splitInclusive h

end InclusiveSplit
