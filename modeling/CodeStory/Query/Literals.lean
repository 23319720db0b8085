import CodeStory.Query.Scanning

/-!
# String literals

How a string is written between quotes, and that the three replacements of the parser, made one
after the other over the whole body, give the string back: each of them acts on backslashes that the
others leave alone.
-/

set_option autoImplicit false

namespace CodeStory.Query

open Utf8Text

inductive IsQuote : Char → Prop
  | single : IsQuote '\''
  | double : IsQuote '"'

/-- A backslash before each backslash and each quote. -/
def escape (q : Char) : Text → Text
  | [] => []
  | c :: s => (if c = '\\' ∨ c = q then ['\\', c] else [c]) ++ escape q s

theorem escape_cons (q c : Char) (s : Text) :
    escape q (c :: s) = (if c = '\\' ∨ c = q then ['\\', c] else [c]) ++ escape q s := rfl

def literal (q : Char) (s : Text) : Text := q :: (escape q s ++ [q])

/-! ## One replacement -/

section Replace

variable {x y : Char} {t : Text}

theorem replace_hit : replace [x, y] [y] (x :: y :: t) = y :: replace [x, y] [y] t := by
  change replaceFrom [x, y] [y] 0 (x :: y :: t) = _
  unfold replaceFrom
  rw [if_pos ⟨t, rfl⟩]
  rfl

theorem replace_other {c : Char} (h : c ≠ x) (replacement : Text) :
    replace [x, y] replacement (c :: t) = c :: replace [x, y] replacement t := by
  change replaceFrom [x, y] replacement 0 (c :: t) = _
  unfold replaceFrom
  rw [if_neg]
  · rfl
  · rintro ⟨rest, hrest⟩
    exact h (List.cons.inj hrest).1.symm

theorem replace_single (h : t.head? ≠ some y) (replacement : Text) :
    replace [x, y] replacement (x :: t) = x :: replace [x, y] replacement t := by
  change replaceFrom [x, y] replacement 0 (x :: t) = _
  unfold replaceFrom
  rw [if_neg]
  · rfl
  · rintro ⟨rest, hrest⟩
    rw [← (List.cons.inj hrest).2] at h
    exact h rfl

theorem replace_pair {d : Char} (h : d ≠ y) (replacement : Text) :
    replace [x, y] replacement (x :: d :: t) = x :: replace [x, y] replacement (d :: t) := by
  apply replace_single
  intro heq
  exact h (Option.some.inj heq)

end Replace

/-! ## The three replacements -/

/-- The body of a literal between the replacements. `quoted` tells whether the quotes still have
their backslash; `halved`, whether a backslash before the other quote has lost its double. -/
def between (q other : Char) (quoted halved : Bool) : Text → Text
  | [] => []
  | c :: s =>
    (if c = '\\' then if halved ∧ s.head? = some other then ['\\'] else ['\\', '\\']
      else if quoted ∧ c = q then ['\\', c] else [c]) ++ between q other quoted halved s

variable {q other : Char} {quoted halved : Bool}

theorem between_cons (c : Char) (s : Text) :
    between q other quoted halved (c :: s) =
      (if c = '\\' then if halved ∧ s.head? = some other then ['\\'] else ['\\', '\\']
        else if quoted ∧ c = q then ['\\', c] else [c]) ++ between q other quoted halved s := rfl

theorem escape_eq_between (s : Text) : escape q s = between q other true false s := by
  induction s with
  | nil => rfl
  | cons c s ih =>
    rw [between_cons, escape_cons, ← ih]
    by_cases hc : c = '\\'
    · rw [if_pos (.inl hc), if_pos hc, if_neg fun h => Bool.false_ne_true h.1, hc]
    · rw [if_neg hc]
      by_cases hq : c = q
      · rw [if_pos (.inr hq), if_pos ⟨rfl, hq⟩]
      · rw [if_neg (not_or.mpr ⟨hc, hq⟩), if_neg fun h => hq h.2]

/-- The text goes on with the other quote exactly where the string does. -/
theorem head_between (hother : other ≠ '\\') (hne : other ≠ q) (s : Text) :
    (between q other quoted halved s).head? = some other ↔ s.head? = some other := by
  cases s with
  | nil => exact Iff.rfl
  | cons c s =>
    rw [between_cons]
    by_cases hc : c = '\\'
    · rw [if_pos hc, hc]
      have hno : ¬ some '\\' = some other := fun h => hother (Option.some.inj h).symm
      split
      · exact iff_of_false hno hno
      · exact iff_of_false hno hno
    · rw [if_neg hc]
      split
      · rename_i hq
        refine iff_of_false (fun h => hother (Option.some.inj h).symm) fun h => ?_
        exact hne ((Option.some.inj h).symm.trans hq.2)
      · exact Iff.rfl

/-- While the quotes have their backslash, no quote comes first. -/
theorem head_between_quoted (hq : q ≠ '\\') (s : Text) :
    (between q other true halved s).head? ≠ some q := by
  cases s with
  | nil => exact fun h => by cases h
  | cons c s =>
    rw [between_cons]
    have hno : ¬ some '\\' = some q := fun h => hq (Option.some.inj h).symm
    by_cases hc : c = '\\'
    · rw [if_pos hc]
      split
      · exact hno
      · exact hno
    · rw [if_neg hc]
      split
      · exact hno
      · rename_i h
        exact fun heq => h ⟨rfl, Option.some.inj heq⟩

/-- The replacement for the other quote takes one backslash before each. -/
theorem replace_otherQuote (hother : other ≠ '\\') (hne : other ≠ q) (s : Text) :
    replace ['\\', other] [other] (between q other quoted false s) =
      between q other quoted true s := by
  induction s with
  | nil => rfl
  | cons c s ih =>
    rw [between_cons, between_cons]
    by_cases hc : c = '\\'
    · rw [if_pos hc, if_pos hc, if_neg fun h => Bool.false_ne_true h.1]
      have hfirst : replace ['\\', other] [other]
          (['\\', '\\'] ++ between q other quoted false s) =
            '\\' :: replace ['\\', other] [other] ('\\' :: between q other quoted false s) :=
        replace_pair hother.symm _
      rw [hfirst]
      by_cases hhead : s.head? = some other
      · rw [if_pos ⟨rfl, hhead⟩]
        obtain ⟨s', rfl⟩ : ∃ s', s = other :: s' := by
          cases s with
          | nil => cases hhead
          | cons d s' => exact ⟨s', by rw [Option.some.inj hhead]⟩
        have hplain : ∀ halved, between q other quoted halved (other :: s') =
            other :: between q other quoted halved s' := by
          intro halved
          rw [between_cons, if_neg hother, if_neg fun h => hne h.2]
          rfl
        rw [hplain, replace_other hother] at ih
        rw [hplain, replace_hit, ih]
        rfl
      · rw [if_neg fun h => hhead h.2,
          replace_single fun h => hhead ((head_between hother hne s).mp h), ih]
        rfl
    · rw [if_neg hc, if_neg hc]
      by_cases hq : quoted = true ∧ c = q
      · rw [if_pos hq]
        have hc' : ¬ c = other := fun h => hne (h.symm.trans hq.2)
        have hfirst : replace ['\\', other] [other] (['\\', c] ++ between q other quoted false s) =
            '\\' :: replace ['\\', other] [other] (c :: between q other quoted false s) :=
          replace_pair hc' _
        rw [hfirst, replace_other hc, ih]
        rfl
      · rw [if_neg hq]
        exact (replace_other hc _).trans (congrArg (c :: ·) ih)

/-- The replacement for the quote itself takes the backslash before each. -/
theorem replace_ownQuote (hq : q ≠ '\\') (s : Text) :
    replace ['\\', q] [q] (between q other true halved s) = between q other false halved s := by
  induction s with
  | nil => rfl
  | cons c s ih =>
    rw [between_cons, between_cons]
    have hback : '\\' ≠ q := hq.symm
    by_cases hc : c = '\\'
    · rw [if_pos hc, if_pos hc]
      by_cases hhalf : halved = true ∧ s.head? = some other
      · rw [if_pos hhalf]
        exact (replace_single (head_between_quoted hq s) _).trans (congrArg ('\\' :: ·) ih)
      · rw [if_neg hhalf]
        have hfirst : replace ['\\', q] [q] (['\\', '\\'] ++ between q other true halved s) =
            '\\' :: replace ['\\', q] [q] ('\\' :: between q other true halved s) :=
          replace_pair hback _
        rw [hfirst, replace_single (head_between_quoted hq s), ih]
        rfl
    · rw [if_neg hc, if_neg hc]
      by_cases hcq : c = q
      · rw [if_pos ⟨rfl, hcq⟩, if_neg fun h => Bool.false_ne_true h.1, hcq]
        exact replace_hit.trans (congrArg (q :: ·) ih)
      · rw [if_neg fun h => hcq h.2, if_neg fun h => hcq h.2]
        exact (replace_other hc _).trans (congrArg (c :: ·) ih)

/-- The last replacement leaves the string. -/
theorem replace_backslashes (hother : other ≠ '\\') (hne : other ≠ q) (s : Text) :
    replace ['\\', '\\'] ['\\'] (between q other false true s) = s := by
  induction s with
  | nil => rfl
  | cons c s ih =>
    rw [between_cons]
    by_cases hc : c = '\\'
    · rw [if_pos hc, hc]
      by_cases hhead : s.head? = some other
      · rw [if_pos ⟨rfl, hhead⟩]
        have hnot : (between q other false true s).head? ≠ some '\\' := by
          rw [(head_between hother hne s).mpr hhead]
          exact fun h => hother (Option.some.inj h)
        exact (replace_single hnot _).trans (congrArg ('\\' :: ·) ih)
      · rw [if_neg fun h => hhead h.2]
        exact replace_hit.trans (congrArg ('\\' :: ·) ih)
    · rw [if_neg hc, if_neg fun h => Bool.false_ne_true h.1]
      exact (replace_other hc _).trans (congrArg (c :: ·) ih)

theorem unescape_escape (hq : IsQuote q) (s : Text) : unescape (escape q s) = s := by
  unfold unescape
  cases hq with
  | single =>
    have hbody : escape '\'' s = between '\'' '"' true false s := escape_eq_between s
    have hown : replace "\\'".toList "'".toList (between '\'' '"' true false s) =
        between '\'' '"' false false s := replace_ownQuote (by decide) s
    have hother : replace "\\\"".toList "\"".toList (between '\'' '"' false false s) =
        between '\'' '"' false true s := replace_otherQuote (by decide) (by decide) s
    rw [hbody, hown, hother]
    exact replace_backslashes (by decide) (by decide) s
  | double =>
    have hbody : escape '"' s = between '"' '\'' true false s := escape_eq_between s
    have hother : replace "\\'".toList "'".toList (between '"' '\'' true false s) =
        between '"' '\'' true true s := replace_otherQuote (by decide) (by decide) s
    have hown : replace "\\\"".toList "\"".toList (between '"' '\'' true true s) =
        between '"' '\'' false true s := replace_ownQuote (by decide) s
    rw [hbody, hother, hown]
    exact replace_backslashes (by decide) (by decide) s

end CodeStory.Query
