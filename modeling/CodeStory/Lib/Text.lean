import Mathlib.Data.List.TakeWhile

/-!
# Trimming, splitting and endings

What a Unicode-aware `trim` leaves of a string, repeated openings taken off, the test for an ending,
and texts split at the first or last occurrence of a character.
-/

set_option autoImplicit false

namespace Text

/-- The code points with the Unicode `White_Space` property. -/
def isWhiteSpace (c : Char) : Bool :=
  (0x9 ≤ c.toNat && c.toNat ≤ 0xD) || c.toNat == 0x20 || c.toNat == 0x85 ||
    c.toNat == 0xA0 || c.toNat == 0x1680 || (0x2000 ≤ c.toNat && c.toNat ≤ 0x200A) ||
    c.toNat == 0x2028 || c.toNat == 0x2029 || c.toNat == 0x202F || c.toNat == 0x205F ||
    c.toNat == 0x3000

/-- Deciding goes through the text, not through all there is. -/
@[reducible] def decidableAllChars (p : Char → Prop) [DecidablePred p] (t : List Char) :
    Decidable (∀ c ∈ t, p c) := List.decidableBAll p t

@[reducible] def decidableMaybeChar (p : Char → Prop) [DecidablePred p] (t : Option Char) :
    Decidable (∀ c ∈ t, p c) := Option.decidableForallMem t

/-- Trimming `s` leaves the empty string. -/
def isBlank (s : String) : Bool := s.toList.all isWhiteSpace

def trim (s : String) : String :=
  String.ofList ((s.toList.dropWhile isWhiteSpace).reverse.dropWhile isWhiteSpace).reverse

/-- `trim_start` of a list of characters. -/
def trimStartChars (t : List Char) : List Char := t.dropWhile isWhiteSpace

/-- `trim` of a list of characters. -/
def trimChars (t : List Char) : List Char :=
  (trimStartChars (trimStartChars t).reverse).reverse

-- The counter runs over the characters of an opening that are still to be dropped.
def dropOpenings (opening : List Char) : Nat → List Char → List Char
  | _, [] => []
  | dropping + 1, _ :: rest => dropOpenings opening dropping rest
  | 0, c :: rest =>
    if opening.isPrefixOf (c :: rest) then dropOpenings opening (opening.length - 1) rest
    else c :: rest

/-- Take `opening` off as often as the text starts with it. -/
def trimStartMatches (text opening : String) : String :=
  String.ofList (dropOpenings opening.toList 0 text.toList)

def endsWith (text tail : String) : Bool := tail.toList.isSuffixOf text.toList

theorem endsWith_iff {text tail : String} :
    endsWith text tail = true ↔ tail.toList <:+ text.toList :=
  List.isSuffixOf_iff_suffix

/-! ## What trimming leaves -/

/-- Nothing but white space. -/
def Blank (t : List Char) : Prop := ∀ c ∈ t, isWhiteSpace c = true

theorem Blank.nil : Blank [] := fun _ h => absurd h List.not_mem_nil

/-- Neither end is white space. -/
def Tight (t : List Char) : Prop :=
  (∀ c ∈ t.head?, isWhiteSpace c = false) ∧ ∀ c ∈ t.getLast?, isWhiteSpace c = false

theorem trimStartChars_append {w t : List Char} (hw : Blank w)
    (ht : ∀ c ∈ t.head?, isWhiteSpace c = false) : trimStartChars (w ++ t) = t := by
  unfold trimStartChars
  rw [List.dropWhile_append_of_pos hw]
  cases t with
  | nil => rfl
  | cons c t => exact List.dropWhile_cons_of_neg (by rw [ht c rfl]; exact Bool.false_ne_true)

/-- White space around a text without white space at its ends is trimmed. -/
theorem trimChars_append {w t w' : List Char} (hw : Blank w) (ht : Tight t) (hw' : Blank w') :
    trimChars (w ++ (t ++ w')) = t := by
  unfold trimChars
  cases t with
  | nil =>
    have hall : Blank (w ++ w') := fun c hc =>
      (List.mem_append.mp hc).elim (hw c) (hw' c)
    have hnone : trimStartChars (w ++ ([] ++ w')) = [] := by
      have h := trimStartChars_append (t := []) hall fun _ h => absurd h (by simp)
      rw [List.append_nil] at h
      exact h
    rw [hnone]
    rfl
  | cons c t =>
    have hback : ∀ d ∈ (c :: t).reverse.head?, isWhiteSpace d = false := by
      intro d hd
      rw [List.head?_reverse] at hd
      exact ht.2 d hd
    have hblank : Blank w'.reverse := fun d hd => hw' d (List.mem_reverse.mp hd)
    have hfront : trimStartChars (w ++ (c :: t ++ w')) = c :: t ++ w' :=
      trimStartChars_append hw fun d hd => ht.1 d hd
    rw [hfront, List.reverse_append, trimStartChars_append hblank hback, List.reverse_reverse]

theorem trimChars_blank {w : List Char} (hw : Blank w) : trimChars w = [] := by
  have hstart : trimStartChars w = [] := List.dropWhile_eq_nil_iff.mpr hw
  unfold trimChars
  rw [hstart]
  rfl

theorem Tight.trimChars {t : List Char} (ht : Tight t) : Text.trimChars t = t := by
  have h := trimChars_append Blank.nil ht Blank.nil
  rw [List.nil_append, List.append_nil] at h
  exact h

/-- Only the ends of a text matter. -/
theorem Tight.append {a m b : List Char} (ha : Tight a) (hane : a ≠ []) (hb : Tight b)
    (hbne : b ≠ []) : Tight (a ++ (m ++ b)) := by
  constructor
  · intro c hc
    obtain ⟨d, a, rfl⟩ := List.exists_cons_of_ne_nil hane
    exact ha.1 c hc
  · intro c hc
    rw [← List.append_assoc, List.getLast?_append] at hc
    cases hlast : b.getLast? with
    | none => exact absurd (List.getLast?_eq_none_iff.mp hlast) hbne
    | some d =>
      rw [hlast] at hc
      exact hb.2 c (hlast.trans hc)

/-- The trimmed text is a part of the text. -/
theorem trimChars_spec (t : List Char) :
    ∃ w w', t = w ++ (trimChars t ++ w') ∧ Blank w ∧ Blank w' ∧ Tight (trimChars t) := by
  have htake : ∀ l : List Char, Blank (l.takeWhile isWhiteSpace) := fun l c hc =>
    List.mem_takeWhile_imp hc
  have hhead : ∀ l : List Char, ∀ c ∈ (trimStartChars l).head?, isWhiteSpace c = false := by
    intro l c hc
    have h := List.head?_dropWhile_not isWhiteSpace l
    unfold trimStartChars at hc
    rw [Option.mem_def] at hc
    rw [hc] at h
    exact h
  have hrest : trimStartChars t =
      trimChars t ++ ((trimStartChars t).reverse.takeWhile isWhiteSpace).reverse := by
    unfold trimChars
    rw [← List.reverse_append]
    unfold trimStartChars
    rw [List.takeWhile_append_dropWhile, List.reverse_reverse]
  refine ⟨t.takeWhile isWhiteSpace, ((trimStartChars t).reverse.takeWhile isWhiteSpace).reverse,
    ?_, htake t, ?_, ?_, ?_⟩
  · rw [← hrest]
    exact List.takeWhile_append_dropWhile.symm
  · intro c hc
    exact htake _ c (List.mem_reverse.mp hc)
  · intro c hc
    apply hhead t c
    rw [hrest]
    cases htrim : trimChars t with
    | nil =>
      rw [htrim] at hc
      cases hc
    | cons d l =>
      rw [htrim] at hc
      exact hc
  · intro c hc
    unfold trimChars at hc
    rw [List.getLast?_reverse] at hc
    exact hhead _ c hc

/-! ## Splitting at a character -/

/-- `split_once` -/
def splitOnce (c : Char) : List Char → Option (List Char × List Char)
  | [] => none
  | d :: t => if d = c then some ([], t) else (splitOnce c t).map fun (a, b) => (d :: a, b)

/-- `rsplit_once` -/
def rsplitOnce (c : Char) (t : List Char) : Option (List Char × List Char) :=
  (splitOnce c t.reverse).map fun (a, b) => (b.reverse, a.reverse)

/-- `split_once` with a text as separator. -/
def splitOnceText (separator : List Char) : List Char → Option (List Char × List Char)
  | [] => none
  | d :: t =>
    if separator.isPrefixOf (d :: t) then some ([], (d :: t).drop separator.length)
    else (splitOnceText separator t).map fun (a, b) => (d :: a, b)

/-- `strip_prefix` -/
def stripPrefix (front t : List Char) : Option (List Char) :=
  if front.isPrefixOf t then some (t.drop front.length) else none

/-- `strip_suffix` -/
def stripSuffix (back t : List Char) : Option (List Char) :=
  if back.isSuffixOf t then some (t.take (t.length - back.length)) else none

section Splitting

variable {c : Char} {a b t : List Char}

theorem splitOnce_append (ha : c ∉ a) (b : List Char) :
    splitOnce c (a ++ c :: b) = some (a, b) := by
  induction a with
  | nil => exact if_pos rfl
  | cons d a ih =>
    have hd : d ≠ c := fun h => ha (h ▸ List.mem_cons_self)
    have hrest := ih fun h => ha (List.mem_cons_of_mem _ h)
    rw [List.cons_append]
    unfold splitOnce
    rw [if_neg hd, hrest]
    rfl

theorem splitOnce_eq_some (h : splitOnce c t = some (a, b)) : t = a ++ c :: b ∧ c ∉ a := by
  induction t generalizing a with
  | nil => cases h
  | cons d t ih =>
    unfold splitOnce at h
    by_cases hd : d = c
    · rw [if_pos hd] at h
      obtain ⟨rfl, rfl⟩ := Prod.mk.inj (Option.some.inj h)
      exact ⟨by rw [hd, List.nil_append], List.not_mem_nil⟩
    · rw [if_neg hd, Option.map_eq_some_iff] at h
      obtain ⟨⟨a', b'⟩, hsplit, heq⟩ := h
      obtain ⟨rfl, rfl⟩ := Prod.mk.inj heq
      obtain ⟨rfl, hmem⟩ := ih hsplit
      refine ⟨rfl, fun hc => ?_⟩
      rcases List.mem_cons.mp hc with rfl | hc
      · exact hd rfl
      · exact hmem hc

theorem splitOnce_eq_none : splitOnce c t = none ↔ c ∉ t := by
  constructor
  · intro h hmem
    obtain ⟨a, b, rfl, ha⟩ := List.eq_append_cons_of_mem hmem
    rw [splitOnce_append ha] at h
    cases h
  · intro h
    cases hsplit : splitOnce c t with
    | none => rfl
    | some halves =>
      obtain ⟨rfl, -⟩ := splitOnce_eq_some hsplit
      exact absurd (List.mem_append_right _ List.mem_cons_self) h

theorem rsplitOnce_append (a : List Char) (hb : c ∉ b) :
    rsplitOnce c (a ++ c :: b) = some (a, b) := by
  have hback : c ∉ b.reverse := fun h => hb (List.mem_reverse.mp h)
  unfold rsplitOnce
  rw [List.reverse_append, List.reverse_cons, List.append_assoc, List.singleton_append,
    splitOnce_append hback, Option.map_some]
  dsimp only
  rw [List.reverse_reverse, List.reverse_reverse]

theorem rsplitOnce_eq_none : rsplitOnce c t = none ↔ c ∉ t := by
  unfold rsplitOnce
  rw [Option.map_eq_none_iff, splitOnce_eq_none, List.mem_reverse]

/-- A front without the first character of the separator is passed over. -/
theorem splitOnceText_append {separator : List Char} (ha : c ∉ a) (b : List Char) :
    splitOnceText (c :: separator) (a ++ (c :: separator) ++ b) = some (a, b) := by
  induction a with
  | nil =>
    have hfront : (c :: separator).isPrefixOf (c :: (separator ++ b)) = true :=
      List.isPrefixOf_iff_prefix.mpr (List.prefix_append (c :: separator) b)
    change splitOnceText (c :: separator) (c :: (separator ++ b)) = _
    have hdrop : (c :: separator ++ b).drop (c :: separator).length = b := List.drop_left
    unfold splitOnceText
    rw [if_pos hfront]
    exact congrArg (fun t => some ([], t)) hdrop
  | cons d a ih =>
    have hd : d ≠ c := fun h => ha (h ▸ List.mem_cons_self)
    have hrest := ih fun h => ha (List.mem_cons_of_mem _ h)
    have hfront : ¬ (c :: separator).isPrefixOf (d :: (a ++ (c :: separator) ++ b)) = true := by
      intro h
      obtain ⟨rest, hrest⟩ := List.isPrefixOf_iff_prefix.mp h
      exact hd (List.cons.inj hrest).1.symm
    change splitOnceText (c :: separator) (d :: (a ++ (c :: separator) ++ b)) = _
    unfold splitOnceText
    rw [if_neg hfront, hrest]
    rfl

theorem splitOnceText_eq_some {separator : List Char}
    (h : splitOnceText separator t = some (a, b)) : t = a ++ separator ++ b := by
  induction t generalizing a with
  | nil => cases h
  | cons d t ih =>
    unfold splitOnceText at h
    split at h
    · rename_i hfront
      obtain ⟨rest, hrest⟩ := List.isPrefixOf_iff_prefix.mp hfront
      rw [← hrest, List.drop_left] at h
      obtain ⟨rfl, rfl⟩ := Prod.mk.inj (Option.some.inj h)
      rw [← hrest, List.nil_append]
    · rw [Option.map_eq_some_iff] at h
      obtain ⟨⟨a', b'⟩, hsplit, heq⟩ := h
      obtain ⟨rfl, rfl⟩ := Prod.mk.inj heq
      rw [ih hsplit]
      rfl

theorem stripPrefix_append (front t : List Char) : stripPrefix front (front ++ t) = some t := by
  unfold stripPrefix
  rw [if_pos (List.isPrefixOf_iff_prefix.mpr (List.prefix_append front t)), List.drop_left]

theorem stripPrefix_eq_some {front rest : List Char} (h : stripPrefix front t = some rest) :
    t = front ++ rest := by
  unfold stripPrefix at h
  split at h
  · rename_i hfront
    obtain ⟨rest', rfl⟩ := List.isPrefixOf_iff_prefix.mp hfront
    rw [List.drop_left] at h
    rw [Option.some.inj h]
  · cases h

theorem stripSuffix_eq_some {back front : List Char} (h : stripSuffix back t = some front) :
    t = front ++ back := by
  unfold stripSuffix at h
  split at h
  · rename_i hback
    obtain ⟨front', rfl⟩ := List.isSuffixOf_iff_suffix.mp hback
    rw [List.length_append, Nat.add_sub_cancel, List.take_left] at h
    rw [Option.some.inj h]
  · cases h

end Splitting

end Text
