import Mathlib.Data.List.Infix

/-!
# Text functions of SQLite

Only what is documented: `LIKE` folds the case of ASCII letters, `%` stands for any text and
`_` for one character; `lower` folds ASCII letters; `replace` replaces every occurrence from
the left and leaves the text alone when the pattern is empty.
-/

set_option autoImplicit false

namespace SqlText

def asciiLower (c : Char) : Char :=
  if 'A' ≤ c ∧ c ≤ 'Z' then Char.ofNat (c.toNat + 32) else c

def lower (text : String) : String := String.ofList (text.toList.map asciiLower)

def likeChars : List Char → List Char → Bool
  | [], text => text.isEmpty
  | a :: pattern, text =>
    if a = '%' then text.tails.any (likeChars pattern)
    else match text with
      | [] => false
      | c :: rest => (a = '_' || asciiLower a = asciiLower c) && likeChars pattern rest

/-- `text LIKE pattern`. -/
def like (pattern text : String) : Bool := likeChars pattern.toList text.toList

/-- A `NULL` is like nothing. -/
def likeNullable (pattern : String) (text : Option String) : Bool :=
  text.elim false (like pattern)

/-- `instr(text, part) > 0`. -/
def contains (text part : String) : Bool :=
  text.toList.tails.any fun rest => part.toList.isPrefixOf rest

-- The counter runs over the characters of a match that are still to be dropped.
def replaceChars (source target : List Char) : Nat → List Char → List Char
  | _, [] => []
  | dropping + 1, _ :: rest => replaceChars source target dropping rest
  | 0, c :: rest =>
    if source.isPrefixOf (c :: rest) then
      target ++ replaceChars source target (source.length - 1) rest
    else c :: replaceChars source target 0 rest

/-- `replace(text, source, target)`. -/
def replace (text source target : String) : String :=
  if source.toList = [] then text
  else String.ofList (replaceChars source.toList target.toList 0 text.toList)

/-! ## `LIKE` between two `%` -/

theorem likeChars_percent (pattern text : List Char) :
    likeChars ('%' :: pattern) text = text.tails.any (likeChars pattern) := by
  cases text <;> rfl

/-- A text is like its beginning followed by `%`, also where the beginning has a `_`. -/
theorem likeChars_append_percent {part : List Char} (hpart : '%' ∉ part) (rest : List Char) :
    likeChars (part ++ ['%']) (part ++ rest) = true := by
  induction part with
  | nil =>
    rw [List.nil_append, likeChars_percent, List.any_eq_true]
    exact ⟨[], (List.mem_tails _ _).mpr (List.nil_suffix), rfl⟩
  | cons a part ih =>
    obtain ⟨ha, hpart⟩ := List.ne_and_not_mem_of_not_mem_cons hpart
    rw [List.cons_append, List.cons_append, likeChars, if_neg ha.symm, ih hpart]
    simp

/-- What contains a text is like it, between two `%`. The other direction fails: case and `_`. -/
theorem like_of_contains {pattern text part : String} (hpart : '%' ∉ part.toList)
    (hpattern : pattern.toList = '%' :: (part.toList ++ ['%'])) (h : contains text part = true) :
    like pattern text = true := by
  unfold contains at h
  obtain ⟨rest, hrest, hbegins⟩ := List.any_eq_true.mp h
  obtain ⟨tail, rfl⟩ := List.isPrefixOf_iff_prefix.mp hbegins
  unfold like
  rw [hpattern, likeChars_percent, List.any_eq_true]
  exact ⟨part.toList ++ tail, hrest, likeChars_append_percent hpart tail⟩

/-! ## What `replace` changes -/

section Replace
variable {source target : List Char}

theorem contains_iff {text part : String} :
    contains text part = true ↔ part.toList <:+: text.toList := by
  unfold contains
  rw [List.any_eq_true, List.infix_iff_prefix_suffix]
  constructor
  · rintro ⟨rest, hrest, hpart⟩
    exact ⟨rest, List.isPrefixOf_iff_prefix.mp hpart, (List.mem_tails _ _).mp hrest⟩
  · rintro ⟨rest, hpart, hrest⟩
    exact ⟨rest, (List.mem_tails _ _).mpr hrest, List.isPrefixOf_iff_prefix.mpr hpart⟩

theorem replaceChars_drop (n : Nat) (text : List Char) :
    replaceChars source target n text = replaceChars source target 0 (text.drop n) := by
  induction n generalizing text with
  | zero => rfl
  | succ n ih =>
    cases text with
    | nil => rfl
    | cons c rest =>
      rw [replaceChars, ih, List.drop_succ_cons]

/-- At an occurrence the whole of it is replaced and the rest is gone through. -/
theorem replaceChars_append (hsource : source ≠ []) (rest : List Char) :
    replaceChars source target 0 (source ++ rest) =
      target ++ replaceChars source target 0 rest := by
  cases source with
  | nil => exact absurd rfl hsource
  | cons c cs =>
    have hmatch : (c :: cs).isPrefixOf (c :: (cs ++ rest)) = true :=
      List.isPrefixOf_iff_prefix.mpr (List.prefix_append (c :: cs) rest)
    rw [List.cons_append, replaceChars, if_pos hmatch, replaceChars_drop]
    have hdrop : (cs ++ rest).drop ((c :: cs).length - 1) = rest := by simp
    rw [hdrop]

theorem replaceChars_cons_of_no_match {c : Char} {rest : List Char}
    (h : ¬ source <+: c :: rest) :
    replaceChars source target 0 (c :: rest) = c :: replaceChars source target 0 rest := by
  rw [replaceChars, if_neg]
  rw [List.isPrefixOf_iff_prefix]
  exact h

variable (target) in
/-- The text up to the first occurrence stays. -/
theorem replaceChars_first (hsource : source ≠ []) {text : List Char} (h : source <:+: text) :
    ∃ before rest, text = before ++ (source ++ rest) ∧
      replaceChars source target 0 text =
        before ++ (target ++ replaceChars source target 0 rest) := by
  induction text with
  | nil => exact absurd (List.infix_nil.mp h) hsource
  | cons c text ih =>
    by_cases hhere : source <+: c :: text
    · obtain ⟨rest, hrest⟩ := hhere
      refine ⟨[], rest, hrest.symm, ?_⟩
      rw [← hrest, replaceChars_append hsource]
      rfl
    · have hlater : source <:+: text := (List.infix_cons_iff.mp h).resolve_left hhere
      obtain ⟨before, rest, htext, hreplaced⟩ := ih hlater
      refine ⟨c :: before, rest, ?_, ?_⟩
      · rw [htext]
        rfl
      · rw [replaceChars_cons_of_no_match hhere, hreplaced]
        rfl

theorem replaceChars_of_not_infix {text : List Char} (h : ¬ source <:+: text) :
    replaceChars source target 0 text = text := by
  induction text with
  | nil => rfl
  | cons c text ih =>
    rw [List.infix_cons_iff, not_or] at h
    rw [replaceChars_cons_of_no_match h.1, ih h.2]

/-- Replacing by a text of at most the length does not lengthen. -/
theorem length_replaceChars_le (hlength : target.length ≤ source.length) (n : Nat)
    (text : List Char) : (replaceChars source target n text).length ≤ text.length - n := by
  induction text generalizing n with
  | nil =>
    rw [replaceChars]
    exact Nat.zero_le _
  | cons c rest ih =>
    cases n with
    | succ n =>
      rw [replaceChars, List.length_cons]
      have := ih n
      omega
    | zero =>
      rw [replaceChars]
      split
      · rename_i hmatch
        have hfits := (List.isPrefixOf_iff_prefix.mp hmatch).length_le
        have := ih (source.length - 1)
        rw [List.length_append]
        simp only [List.length_cons] at hfits ⊢
        omega
      · have := ih 0
        simp only [List.length_cons]
        omega

/-- Replacing by a text of at least the length does not shorten. -/
theorem le_length_replaceChars (hsource : source ≠ []) (hlength : source.length ≤ target.length)
    (n : Nat) (text : List Char) :
    text.length - n ≤ (replaceChars source target n text).length := by
  have hpos := List.length_pos_of_ne_nil hsource
  induction text generalizing n with
  | nil => exact Nat.le_of_eq (Nat.zero_sub n)
  | cons c rest ih =>
    cases n with
    | succ n =>
      rw [replaceChars, List.length_cons]
      have := ih n
      omega
    | zero =>
      rw [replaceChars]
      split
      · have := ih (source.length - 1)
        rw [List.length_append]
        simp only [List.length_cons]
        omega
      · have := ih 0
        simp only [List.length_cons]
        omega

theorem replaceChars_self (hsource : source ≠ []) (n : Nat) (text : List Char) :
    replaceChars source source n text = text.drop n := by
  have hpos := List.length_pos_of_ne_nil hsource
  induction text generalizing n with
  | nil =>
    rw [replaceChars]
    exact List.drop_nil.symm
  | cons c rest ih =>
    cases n with
    | succ n => rw [replaceChars, ih, List.drop_succ_cons]
    | zero =>
      rw [replaceChars]
      split
      · rename_i hmatch
        obtain ⟨after, hafter⟩ := List.isPrefixOf_iff_prefix.mp hmatch
        have hrest : rest.drop (source.length - 1) = after := by
          have hdrop : (c :: rest).drop source.length = after := by
            rw [← hafter, List.drop_left]
          obtain ⟨k, hk⟩ := Nat.exists_eq_add_of_lt hpos
          rw [hk, List.drop_succ_cons] at hdrop
          rw [hk]
          exact hdrop
        rw [ih, hrest, hafter]
        rfl
      · rw [ih]
        rfl

/-- A replacement that changes nothing has nothing to replace or puts the same back. -/
theorem replaceChars_eq_self_iff (hsource : source ≠ []) {text : List Char} :
    replaceChars source target 0 text = text ↔ source = target ∨ ¬ source <:+: text := by
  constructor
  · intro hself
    by_cases hin : source <:+: text
    · obtain ⟨before, rest, htext, hreplaced⟩ := replaceChars_first target hsource hin
      left
      rw [hreplaced, htext, List.append_cancel_left_eq] at hself
      have hsizes := congrArg List.length hself
      rw [List.length_append, List.length_append] at hsizes
      have hequal : target.length = source.length := by
        rcases Nat.le_total target.length source.length with hle | hle
        · have := length_replaceChars_le hle 0 rest
          omega
        · have := le_length_replaceChars hsource hle 0 rest
          omega
      exact (List.append_inj_left hself hequal).symm
    · exact .inr hin
  · rintro (rfl | hout)
    · exact replaceChars_self hsource 0 text
    · exact replaceChars_of_not_infix hout

end Replace

end SqlText
