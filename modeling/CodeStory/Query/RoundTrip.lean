import CodeStory.Query.Printing
import CodeStory.Query.Scanning

/-!
# A written query is read back

Each piece of a written query is quiet for the scanners that are to pass over it, so they cut the
text where it was put together; what is left for each part is to read a name, a literal or a number.
-/

set_option autoImplicit false

namespace CodeStory.Query

open Utf8Text
open CodeStory.Graph (NodeKind)

variable {P : Char → Prop} {a b t : Text}

/-! ## Values and arguments -/

/-- Letters, digits and underscores. -/
def Bare (t : Text) : Prop := t ≠ [] ∧ ∀ c ∈ t, c.isAlphanum = true ∨ c = '_'

/-- A value that can be written without quotes. -/
def Plain (t : Text) : Prop :=
  t ≠ [] ∧ Text.Tight t ∧ ∀ c ∈ t, ¬ (c = '\'' ∨ c = '"') ∧ NoBrackets c ∧ c ≠ ','

def Value.Fine : Value → Prop
  | .quoted _ => True
  | .bare t => Plain t

theorem alphanum_bounds {c : Char} (h : c.isAlphanum = true) : 48 ≤ c.toNat ∧ c.toNat ≤ 122 := by
  unfold Char.isAlphanum Char.isAlpha Char.isUpper Char.isLower Char.isDigit at h
  simp only [Bool.or_eq_true, Bool.and_eq_true, decide_eq_true_eq, ge_iff_le,
    UInt32.le_iff_toNat_le] at h
  change 48 ≤ c.val.toNat ∧ c.val.toNat ≤ 122
  rcases h with (⟨h₁, h₂⟩ | ⟨h₁, h₂⟩) | ⟨h₁, h₂⟩
  · exact ⟨le_trans (by decide) h₁, le_trans h₂ (by decide)⟩
  · exact ⟨le_trans (by decide) h₁, le_trans h₂ (by decide)⟩
  · exact ⟨le_trans (by decide) h₁, le_trans h₂ (by decide)⟩

theorem bare_not_space {c : Char} (h : c.isAlphanum = true ∨ c = '_') :
    Text.isWhiteSpace c = false := by
  rcases h with h | rfl
  · obtain ⟨hlow, hhigh⟩ := alphanum_bounds h
    unfold Text.isWhiteSpace
    simp only [Bool.or_eq_false_iff, Bool.and_eq_false_imp, decide_eq_true_eq,
      decide_eq_false_iff_not,
      beq_eq_false_iff_ne]
    omega
  · rfl

theorem bare_ne {c d : Char} (h : c.isAlphanum = true ∨ c = '_') (hd : d.isAlphanum = false)
    (hd' : d ≠ '_') : c ≠ d := by
  rintro rfl
  rcases h with h | h
  · rw [hd] at h
    cases h
  · exact hd' h

theorem bare_char {c : Char} (h : c.isAlphanum = true ∨ c = '_') :
    ¬ (c = '\'' ∨ c = '"') ∧ NoBrackets c ∧ c ≠ ',' ∧ c ≠ ':' ∧ Text.isWhiteSpace c = false := by
  have hne := fun d hd hd' => bare_ne (d := d) h hd hd'
  refine ⟨?_, ⟨?_, ?_, ?_⟩, ?_, ?_, bare_not_space h⟩
  · rintro (hc | hc)
    · exact hne _ rfl (by decide) hc
    · exact hne _ rfl (by decide) hc
  · exact hne _ rfl (by decide)
  · exact hne _ rfl (by decide)
  · exact hne _ rfl (by decide)
  · exact hne _ rfl (by decide)
  · exact hne _ rfl (by decide)

theorem tight_of_forall {t : Text} (h : ∀ c ∈ t, Text.isWhiteSpace c = false) : Text.Tight t :=
  ⟨fun c hc => h c (List.mem_of_mem_head? hc), fun c hc => h c (List.mem_of_getLast? hc)⟩

theorem Bare.plain {t : Text} (h : Bare t) : Plain t := by
  refine ⟨h.1, tight_of_forall fun c hc => bare_not_space (h.2 c hc), fun c hc => ?_⟩
  obtain ⟨hquote, hbrackets, hcomma, -⟩ := bare_char (h.2 c hc)
  exact ⟨hquote, hbrackets, hcomma⟩

theorem tight_literal {q : Char} (hq : IsQuote q) (s : Text) : Text.Tight (literal q s) := by
  have hspace : Text.isWhiteSpace q = false := by
    cases hq with
    | single => rfl
    | double => rfl
  constructor
  · intro c hc
    obtain rfl := Option.some.inj hc
    exact hspace
  · intro c hc
    unfold literal at hc
    rw [← List.cons_append, List.getLast?_append] at hc
    obtain rfl := Option.some.inj hc
    exact hspace

theorem parseValue_literal {q : Char} (hq : IsQuote q) (s source : Text) (offset : Nat) :
    parseValue source (literal q s) offset = .ok s := by
  have hsize : q.utf8Size = 1 := by
    cases hq with
    | single => rfl
    | double => rfl
  have hlen : 2 ≤ byteLen (literal q s) := by
    unfold literal
    rw [byteLen_cons, byteLen_append, byteLen_cons, byteLen_nil, hsize]
    omega
  have hlast : (literal q s).getLast? = some q := by
    unfold literal
    rw [← List.cons_append, List.getLast?_append]
    rfl
  have hends : (literal q s).head? = some '\'' ∧ (literal q s).getLast? = some '\'' ∨
      (literal q s).head? = some '"' ∧ (literal q s).getLast? = some '"' := by
    rw [hlast]
    cases hq with
    | single => exact .inl ⟨rfl, rfl⟩
    | double => exact .inr ⟨rfl, rfl⟩
  unfold parseValue
  dsimp only
  rw [(tight_literal hq s).trimChars, if_pos hlen, if_pos hends]
  have hslice : slice (literal q s) 1 (byteLen (literal q s) - 1) = some (escape q s) :=
    slice_quoted hsize (escape q s)
  rw [hslice]
  exact congrArg Except.ok (unescape_escape hq s)

theorem parseValue_plain {t : Text} (htight : Text.Tight t)
    (hplain : ∀ c ∈ t.head?, ¬ (c = '\'' ∨ c = '"')) (source : Text) (offset : Nat) :
    parseValue source t offset = .ok t := by
  have hfirst : ¬ (t.head? = some '\'' ∨ t.head? = some '"') := by
    rintro (h | h)
    · exact hplain _ h (.inl rfl)
    · exact hplain _ h (.inr rfl)
  unfold parseValue
  dsimp only
  rw [htight.trimChars]
  have hends : ¬ (t.head? = some '\'' ∧ t.getLast? = some '\'' ∨
      t.head? = some '"' ∧ t.getLast? = some '"') := by
    rintro (h | h)
    · exact hfirst (.inl h.1)
    · exact hfirst (.inr h.1)
  rw [if_neg hends, if_neg hfirst]
  split <;> rfl

/-- A written value is tight, passed over by every scanner, and read as its text. -/
theorem written_spec {value : Value} (hfine : value.Fine) {v : Text} (h : value.Written v) :
    v ≠ [] ∧ Text.Tight v ∧ Quiet (fun c => NoBrackets c ∧ c ≠ ',') v ∧
      ∀ source offset, parseValue source v offset = .ok value.text := by
  cases value with
  | quoted s =>
    obtain ⟨q, hq, rfl⟩ := h
    exact ⟨List.cons_ne_nil _ _, tight_literal hq s, .literal hq s, parseValue_literal hq s⟩
  | bare t =>
    obtain rfl : v = t := h
    obtain ⟨hne, htight, hchars⟩ := hfine
    refine ⟨hne, htight, .of_plain hchars, ?_⟩
    exact parseValue_plain htight fun c hc => (hchars c (List.mem_of_mem_head? hc)).1

def FineArg (arg : String × Value) : Prop :=
  Bare arg.1.toList ∧ asciiLower arg.1.toList = arg.1.toList ∧ arg.2.Fine

theorem findTopLevelColon_append (ha : Quiet (· ≠ ':') a) (b : Text) :
    findTopLevelColon (a ++ ':' :: b) = some (byteLen a) := by
  have hcolon : Scan.outside.pass ':' = none := rfl
  have hnone : (topLevel .outside 0 a).1.find? (·.2 = ':') = none :=
    List.find?_eq_none.mpr fun mark hmem heq => (ha 0).2 mark hmem (of_decide_eq_true heq)
  have hfirst : ∀ (i : Nat) (l : List (Nat × Char)),
      ((i, ':') :: l).find? (·.2 = ':') = some (i, ':') := fun _ _ => rfl
  unfold findTopLevelColon
  rw [topLevel_append, (ha 0).1, topLevel_look hcolon]
  dsimp only
  rw [List.find?_append, hnone, hfirst, Nat.zero_add]
  rfl

theorem blank_ne {w : Text} (h : Text.Blank w) {d : Char} (hd : Text.isWhiteSpace d = false) :
    ∀ c ∈ w, c ≠ d := by
  rintro c hc rfl
  rw [h c hc] at hd
  cases hd

theorem Quiet.white {w : Text} (h : Text.Blank w) :
    Quiet (fun c => NoBrackets c ∧ c ≠ ',' ∧ c ≠ ':') w := by
  apply Quiet.of_plain
  intro c hc
  have hne := fun d hd => blank_ne (d := d) h hd c hc
  refine ⟨?_, ⟨hne _ rfl, hne _ rfl, hne _ rfl⟩, hne _ rfl, hne _ rfl⟩
  rintro (hq | hq)
  · exact hne _ rfl hq
  · exact hne _ rfl hq

theorem Quiet.bare {t : Text} (h : Bare t) :
    Quiet (fun c => NoBrackets c ∧ c ≠ ',' ∧ c ≠ ':') t := by
  apply Quiet.of_plain
  intro c hc
  obtain ⟨hquote, hbrackets, hcomma, hcolon, -⟩ := bare_char (h.2 c hc)
  exact ⟨hquote, hbrackets, hcomma, hcolon⟩

theorem tight_bare {t : Text} (h : Bare t) : Text.Tight t :=
  tight_of_forall fun c hc => bare_not_space (h.2 c hc)

/-- A written argument, trimmed. -/
theorem parseArg_written {arg : String × Value} (harg : FineArg arg) {w₂ w₃ v : Text}
    (hw₂ : Text.Blank w₂) (hw₃ : Text.Blank w₃) (hv : arg.2.Written v) (source : Text)
    (itemOffset : Nat) :
    ∃ offset, parseArg source (arg.1.toList ++ (w₂ ++ ':' :: (w₃ ++ v))) itemOffset =
      .ok ⟨some arg.1.toList, arg.2.text, offset⟩ := by
  obtain ⟨hkey, hlower, hfine⟩ := harg
  obtain ⟨hne, htight, hquiet, hvalue⟩ := written_spec hfine hv
  have hbefore : Quiet (· ≠ ':') (arg.1.toList ++ w₂) :=
    ((Quiet.bare hkey).append (Quiet.white hw₂)).mono fun c hc => hc.2.2
  have hcolon := findTopLevelColon_append hbefore (w₃ ++ v)
  rw [List.append_assoc] at hcolon
  have hto : sliceTo (arg.1.toList ++ (w₂ ++ ':' :: (w₃ ++ v))) (byteLen (arg.1.toList ++ w₂)) =
      some (arg.1.toList ++ w₂) := by
    rw [← List.append_assoc]
    exact sliceTo_append _ _
  have hfrom : sliceFrom (arg.1.toList ++ (w₂ ++ ':' :: (w₃ ++ v)))
      (byteLen (arg.1.toList ++ w₂) + 1) = some (w₃ ++ v) := by
    have h := sliceFrom_append (arg.1.toList ++ w₂ ++ [':']) (w₃ ++ v)
    rw [byteLen_append (a := arg.1.toList ++ w₂), List.append_assoc, List.append_assoc] at h
    exact h
  have htrimKey : Text.trimChars (arg.1.toList ++ w₂) = arg.1.toList :=
    Text.trimChars_append .nil (tight_bare hkey) hw₂
  have htrimValue : Text.trimChars (w₃ ++ v) = v := by
    have h := Text.trimChars_append hw₃ htight .nil
    rw [List.append_nil] at h
    exact h
  refine ⟨itemOffset, ?_⟩
  unfold parseArg
  rw [hcolon]
  dsimp only
  rw [hto, hfrom]
  simp only [cut, bind, Except.bind]
  rw [htrimKey, htrimValue, if_neg hkey.1, if_neg hne, hvalue, hlower]

/-- A written argument with the white space around it. -/
theorem argWritten_spec {arg : String × Value} (harg : FineArg arg) {t : Text}
    (h : ArgWritten arg t) :
    Quiet (fun c => NoBrackets c ∧ c ≠ ',') t ∧ Text.trimChars t ≠ [] ∧
      ∀ source itemOffset, ∃ offset, parseArg source (Text.trimChars t) itemOffset =
        .ok ⟨some arg.1.toList, arg.2.text, offset⟩ := by
  obtain ⟨w₁, w₂, w₃, w₄, v, hw₁, hw₂, hw₃, hw₄, hv, rfl⟩ := h
  obtain ⟨hne, htight, hquiet, -⟩ := written_spec harg.2.2 hv
  have hwhole : Text.Tight (arg.1.toList ++ (w₂ ++ ':' :: (w₃ ++ v))) := by
    have h := (tight_bare harg.1).append (m := w₂ ++ ':' :: w₃) harg.1.1 htight hne
    rw [List.append_assoc] at h
    exact h
  rw [Text.trimChars_append hw₁ hwhole hw₄]
  refine ⟨?_, ?_, parseArg_written harg hw₂ hw₃ hv⟩
  · have hall : ∀ {l : Text}, Quiet (fun c => NoBrackets c ∧ c ≠ ',' ∧ c ≠ ':') l →
        Quiet (fun c => NoBrackets c ∧ c ≠ ',') l := fun hl => hl.mono fun c hc => ⟨hc.1, hc.2.1⟩
    have hcolon : NoBrackets ':' ∧ ':' ≠ ',' := by
      unfold NoBrackets
      decide
    refine (hall (.white hw₁)).append (((hall (.bare harg.1)).append
      ((hall (.white hw₂)).append (.cons (by decide) hcolon ?_))).append (hall (.white hw₄)))
    exact (hall (.white hw₃)).append hquiet
  · rw [ne_eq, List.append_eq_nil_iff]
    exact fun hnil => harg.1.1 hnil.1

/-- Keys and values, without the offsets. -/
def view (args : List ParsedArg) : List (Option Text × Text) := args.map fun a => (a.key, a.value)

def expected (arguments : List (String × Value)) : List (Option Text × Text) :=
  arguments.map fun arg => (some arg.1.toList, arg.2.text)

theorem parseParts_written {arguments : List (String × Value)}
    (hfine : ∀ arg ∈ arguments, FineArg arg)
    {parts : List Text} (h : List.Forall₂ ArgWritten arguments parts) {cuts : List (Text × Nat)}
    (hcuts : cuts.map (·.1) = parts) (source : Text) :
    ∃ args, parseParts source cuts = .ok args ∧ view args = expected arguments := by
  induction h generalizing cuts with
  | nil =>
    obtain rfl := List.map_eq_nil_iff.mp hcuts
    exact ⟨[], rfl, rfl⟩
  | @cons arg part arguments parts hwritten _ ih =>
    cases cuts with
    | nil => cases hcuts
    | cons piece cuts =>
      obtain ⟨hpiece, hrest⟩ := List.cons.inj hcuts
      obtain ⟨t, start⟩ := piece
      obtain rfl : t = part := hpiece
      obtain ⟨args, hargs, hview⟩ := ih (fun a ha => hfine a (List.mem_cons_of_mem _ ha)) hrest
      obtain ⟨-, hne, hparse⟩ := argWritten_spec (hfine arg List.mem_cons_self) hwritten
      obtain ⟨offset, hparse⟩ := hparse source (start + leadingWs t)
      refine ⟨⟨some arg.1.toList, arg.2.text, offset⟩ :: args, ?_, ?_⟩
      · unfold parseParts
        rw [if_neg hne, hparse, hargs]
        rfl
      · change (some arg.1.toList, arg.2.text) :: view args = _
        rw [hview]
        rfl

theorem exists_of_forall₂ {α β : Type} {R : α → β → Prop} {l : List α} {l' : List β}
    (h : List.Forall₂ R l l') : ∀ b ∈ l', ∃ a ∈ l, R a b := by
  induction h with
  | nil => exact fun _ hmem => absurd hmem List.not_mem_nil
  | cons hab _ ih =>
    intro b hmem
    rcases List.mem_cons.mp hmem with rfl | hmem
    · exact ⟨_, List.mem_cons_self, hab⟩
    · obtain ⟨a, ha, hr⟩ := ih b hmem
      exact ⟨a, List.mem_cons_of_mem _ ha, hr⟩

theorem parseArgs_written {arguments : List (String × Value)}
    (hfine : ∀ arg ∈ arguments, FineArg arg) {inner : Text} (h : ArgsWritten arguments inner)
    (source : Text) (argsOffset : Nat) :
    ∃ args, parseArgs source inner argsOffset = .ok args ∧ view args = expected arguments := by
  unfold parseArgs
  rcases h with ⟨rfl, hblank⟩ | ⟨hne, parts, hparts, rfl⟩
  · have hone : [inner] ≠ [] := List.cons_ne_nil _ _
    obtain ⟨cuts, hcuts, hmap⟩ := splitArgs_joined hone
      (fun part hmem => by
        obtain rfl := List.mem_singleton.mp hmem
        exact (Quiet.white hblank).mono fun c hc => hc.2.1) source argsOffset
    have hjoined : joined ',' [inner] = inner := rfl
    rw [hjoined] at hcuts
    have htrim := Text.trimChars_blank hblank
    obtain ⟨⟨piece, start⟩, rfl, hpiece⟩ := List.map_eq_singleton_iff.mp hmap
    obtain rfl : piece = inner := hpiece
    refine ⟨[], ?_, rfl⟩
    rw [hcuts]
    change parseParts source [(piece, start)] = _
    unfold parseParts
    rw [if_pos htrim]
    rfl
  · have hquiet : ∀ part ∈ parts, Quiet (· ≠ ',') part := by
      intro part hmem
      obtain ⟨arg, harg, hwritten⟩ := exists_of_forall₂ hparts part hmem
      exact (argWritten_spec (hfine arg harg) hwritten).1.mono fun c hc => hc.2
    have hpartsNe : parts ≠ [] := by
      rintro rfl
      exact hne (List.forall₂_nil_right_iff.mp hparts)
    obtain ⟨cuts, hcuts, hmap⟩ := splitArgs_joined hpartsNe hquiet source argsOffset
    obtain ⟨args, hargs, hview⟩ := parseParts_written hfine hparts hmap source
    refine ⟨args, ?_, hview⟩
    rw [hcuts]
    exact hargs

/-! ## Operations -/

theorem optionalStringArg_eq (args : List ParsedArg) (key : String) :
    optionalStringArg args key =
      ((view args).find? fun entry => entry.1 = some key.toList).map (·.2) := by
  unfold optionalStringArg view
  rw [List.find?_map, Option.map_map]
  rfl

theorem rejectUnknownArgs_ok {allowed : List String} {args : List ParsedArg}
    (h : ∀ entry ∈ view args, ∀ key ∈ entry.1, (allowed.map String.toList).contains key = true)
    (source : Text) : rejectUnknownArgs source allowed args = .ok () := by
  induction args with
  | nil => rfl
  | cons arg args ih =>
    have hrest := ih fun entry hmem => h entry (List.mem_cons_of_mem _ hmem)
    have hfirst := h (arg.key, arg.value) List.mem_cons_self
    unfold rejectUnknownArgs
    split
    · exact hrest
    · rename_i key hkey
      rw [if_pos (hfirst key hkey)]
      exact hrest

theorem parseU32_number (n : UInt32) : parseU32 (number n) = some n := by
  have hdigits : ∀ c ∈ number n, c.isDigit = true := fun c hc =>
    Nat.isDigit_of_mem_toDigits (by decide) (by decide) hc
  have hne : number n ≠ [] := by
    intro hnil
    have hpos : 0 < (number n).length := Nat.length_toDigits_pos
    rw [hnil] at hpos
    exact Nat.lt_irrefl _ hpos
  have hplus : (number n).head? ≠ some '+' := by
    intro h
    exact absurd (hdigits _ (List.mem_of_mem_head? h)) (by decide)
  have hall : (number n).all Char.isDigit = true := List.all_eq_true.mpr hdigits
  have hvalue : Nat.ofDigitChars 10 (number n) 0 = n.toNat :=
    Nat.ofDigitChars_toDigits (by decide) (by decide)
  unfold parseU32
  dsimp only
  rw [if_neg hplus, hall, hvalue, if_neg, if_pos n.toNat_lt]
  · rw [UInt32.ofNat_toNat]
  · rintro (h | h)
    · exact hne h
    · cases h

theorem directionOf_name (d : TrailDirection) : directionOf d.name = some d := by
  cases d <;> decide

theorem parseNodeKind_name (k : NodeKind) : parseNodeKind (kindName k) = some k := by
  cases k <;> decide

attribute [local instance] Text.decidableAllChars

instance (t : Text) : Decidable (Bare t) := inferInstanceAs (Decidable (t ≠ [] ∧ ∀ c ∈ t, _))

theorem fine_key : ∀ key ∈ ["symbol", "depth", "direction", "query", "kind", "file", "n"],
    Bare key.toList ∧ asciiLower key.toList = key.toList := by decide

theorem bare_number (n : UInt32) : Bare (number n) := by
  refine ⟨?_, fun c hc => .inl ?_⟩
  · intro hnil
    have hpos : 0 < (number n).length := Nat.length_toDigits_pos
    rw [hnil] at hpos
    exact Nat.lt_irrefl _ hpos
  · have hdigit : c.isDigit = true := Nat.isDigit_of_mem_toDigits (by decide) (by decide) hc
    unfold Char.isAlphanum
    rw [hdigit, Bool.or_true]

theorem bare_direction (d : TrailDirection) : Bare d.name := by
  cases d <;> decide +kernel

theorem bare_kind (k : NodeKind) : Bare (kindName k) := by
  cases k <;> decide +kernel

theorem fine_arguments (operation : GraphQueryOperation) :
    ∀ arg ∈ operation.arguments, FineArg arg := by
  have hfine : ∀ {key : String} {value : Value},
      key ∈ ["symbol", "depth", "direction", "query", "kind", "file", "n"] → value.Fine →
        FineArg (key, value) := fun hkey hvalue =>
    ⟨(fine_key _ hkey).1, (fine_key _ hkey).2, hvalue⟩
  intro arg harg
  cases operation with
  | trail sym depth direction =>
    rcases List.mem_append.mp harg with harg | harg
    · rcases List.mem_append.mp harg with harg | harg
      · obtain rfl := List.mem_singleton.mp harg
        exact hfine (by decide) trivial
      · obtain ⟨n, -, rfl⟩ := List.mem_map.mp harg
        exact hfine (by decide) (bare_number n).plain
    · obtain ⟨d, -, rfl⟩ := List.mem_map.mp harg
      exact hfine (by decide) (bare_direction d).plain
  | symbol query | search query =>
    obtain rfl := List.mem_singleton.mp harg
    exact hfine (by decide) trivial
  | filter kind file depth =>
    rcases List.mem_append.mp harg with harg | harg
    · rcases List.mem_append.mp harg with harg | harg
      · obtain ⟨k, -, rfl⟩ := List.mem_map.mp harg
        exact hfine (by decide) (bare_kind k).plain
      · obtain ⟨f, -, rfl⟩ := List.mem_map.mp harg
        exact hfine (by decide) trivial
    · obtain ⟨n, -, rfl⟩ := List.mem_map.mp harg
      exact hfine (by decide) (bare_number n).plain
  | limit count =>
    obtain rfl := List.mem_singleton.mp harg
    exact hfine (by decide) (bare_number count).plain

theorem trim_ne_nil {s : Text} (h : ¬ Text.Blank s) : Text.trimChars s ≠ [] := by
  intro hnil
  obtain ⟨w, w', hs, hw, hw', -⟩ := Text.trimChars_spec s
  rw [hnil] at hs
  apply h
  intro c hc
  rw [hs] at hc
  exact (List.mem_append.mp hc).elim (hw c) (hw' c)

/-- The value of an argument of the operation. -/
def valueOf (arguments : List (String × Value)) (key : String) : Option Text :=
  (arguments.find? (·.1 = key)).map (·.2.text)

section Written

variable {arguments : List (String × Value)} {args : List ParsedArg}

theorem optionalStringArg_written (hview : view args = expected arguments) (key : String) :
    optionalStringArg args key = valueOf arguments key := by
  have hsame : ∀ arg : String × Value,
      decide (some arg.1.toList = some key.toList) = decide (arg.1 = key) := by
    intro arg
    apply decide_eq_decide.mpr
    rw [Option.some.injEq]
    exact String.toList_inj
  rw [optionalStringArg_eq, hview]
  unfold expected valueOf
  rw [List.find?_map, Option.map_map]
  congr 1
  exact congrArg (List.find? · arguments) (funext hsame)

theorem rejectUnknownArgs_written (hview : view args = expected arguments) {allowed : List String}
    (h : ∀ arg ∈ arguments, arg.1 ∈ allowed) (source : Text) :
    rejectUnknownArgs source allowed args = .ok () := by
  apply rejectUnknownArgs_ok
  rw [hview]
  intro entry hentry key hkey
  obtain ⟨arg, harg, rfl⟩ := List.mem_map.mp hentry
  obtain rfl := Option.some.inj hkey
  exact List.contains_iff_mem.mpr (List.mem_map.mpr ⟨arg.1, h arg harg, rfl⟩)

theorem requiredStringArg_written (hview : view args = expected arguments) (key : String) {s : Text}
    (hvalue : valueOf arguments key = some s) (hs : ¬ Text.Blank s) (source : Text)
    (index offset : Nat) : requiredStringArg source args key index offset = .ok s := by
  unfold requiredStringArg
  rw [optionalStringArg_written hview, hvalue, Option.some_or, Option.filter_some,
    if_pos (decide_eq_true (trim_ne_nil hs))]

theorem optionalU32Arg_written (hview : view args = expected arguments) (key : String)
    {n : Option UInt32} (hvalue : valueOf arguments key = n.map number) (source : Text) :
    optionalU32Arg source args key = .ok n := by
  unfold optionalU32Arg
  rw [optionalStringArg_written hview, hvalue]
  cases n with
  | none => rfl
  | some n =>
    dsimp only [Option.map_some]
    rw [parseU32_number]

end Written

variable {args : List ParsedArg} (source : Text) (segmentOffset argsOffset : Nat)

theorem buildTrail_written {sym : Text} {depth : Option UInt32} {direction : Option TrailDirection}
    (h : ¬ Text.Blank sym)
    (hview : view args = expected (GraphQueryOperation.trail sym depth direction).arguments) :
    buildOperation source segmentOffset "trail".toList args argsOffset =
      .ok (.trail sym depth direction) := by
  have hreject : rejectUnknownArgs source ["symbol", "depth", "direction"] args = .ok () := by
    apply rejectUnknownArgs_written hview
    cases depth <;> cases direction <;> simp [GraphQueryOperation.arguments]
  have hsym := requiredStringArg_written hview "symbol"
    (by simp [valueOf, GraphQueryOperation.arguments, Value.text]) h source 0 argsOffset
  have hdepthValue : valueOf (GraphQueryOperation.trail sym depth direction).arguments "depth" =
      depth.map number := by
    cases depth <;> cases direction <;> simp [valueOf, GraphQueryOperation.arguments, Value.text]
  have hdepth := optionalU32Arg_written hview "depth" hdepthValue source
  have hdirection : optionalDirectionArg source args "direction" = .ok direction := by
    have hvalue : valueOf (GraphQueryOperation.trail sym depth direction).arguments "direction" =
        direction.map TrailDirection.name := by
      cases depth <;> cases direction <;> simp [valueOf, GraphQueryOperation.arguments, Value.text]
    unfold optionalDirectionArg
    rw [optionalStringArg_written hview, hvalue]
    cases direction with
    | none => rfl
    | some d =>
      dsimp only [Option.map_some]
      rw [directionOf_name]
  unfold buildOperation
  rw [if_pos rfl, hreject]
  simp only [bind, Except.bind, hsym, hdepth, hdirection]

theorem buildSymbol_written {query : Text} (h : ¬ Text.Blank query)
    (hview : view args = expected (GraphQueryOperation.symbol query).arguments) :
    buildOperation source segmentOffset "symbol".toList args argsOffset = .ok (.symbol query) := by
  have hreject : rejectUnknownArgs source ["query"] args = .ok () :=
    rejectUnknownArgs_written hview (by simp [GraphQueryOperation.arguments]) source
  have hquery := requiredStringArg_written hview "query"
    (by simp [valueOf, GraphQueryOperation.arguments, Value.text]) h source 0 argsOffset
  unfold buildOperation
  rw [if_neg (by decide), if_pos rfl, hreject]
  simp only [bind, Except.bind, hquery]

theorem buildSearch_written {query : Text} (h : ¬ Text.Blank query)
    (hview : view args = expected (GraphQueryOperation.search query).arguments) :
    buildOperation source segmentOffset "search".toList args argsOffset = .ok (.search query) := by
  have hreject : rejectUnknownArgs source ["query"] args = .ok () :=
    rejectUnknownArgs_written hview (by simp [GraphQueryOperation.arguments]) source
  have hquery := requiredStringArg_written hview "query"
    (by simp [valueOf, GraphQueryOperation.arguments, Value.text]) h source 0 argsOffset
  unfold buildOperation
  rw [if_neg (by decide), if_neg (by decide), if_pos rfl, hreject]
  simp only [bind, Except.bind, hquery]

theorem buildFilter_written {kind : Option NodeKind} {file : Option Text} {depth : Option UInt32}
    (hview : view args = expected (GraphQueryOperation.filter kind file depth).arguments) :
    buildOperation source segmentOffset "filter".toList args argsOffset =
      .ok (.filter kind file depth) := by
  have hreject : rejectUnknownArgs source ["kind", "file", "depth"] args = .ok () := by
    apply rejectUnknownArgs_written hview
    cases kind <;> cases file <;> cases depth <;> simp [GraphQueryOperation.arguments]
  have hkind : optionalKindArg source args "kind" = .ok kind := by
    have hvalue : valueOf (GraphQueryOperation.filter kind file depth).arguments "kind" =
        kind.map kindName := by
      cases kind <;> cases file <;> cases depth <;>
        simp [valueOf, GraphQueryOperation.arguments, Value.text]
    unfold optionalKindArg
    rw [optionalStringArg_written hview, hvalue]
    cases kind with
    | none => rfl
    | some k =>
      dsimp only [Option.map_some]
      rw [parseNodeKind_name]
  have hfile : optionalStringArg args "file" = file := by
    rw [optionalStringArg_written hview]
    cases kind <;> cases file <;> cases depth <;>
      simp [valueOf, GraphQueryOperation.arguments, Value.text]
  have hdepthValue : valueOf (GraphQueryOperation.filter kind file depth).arguments "depth" =
      depth.map number := by
    cases kind <;> cases file <;> cases depth <;>
      simp [valueOf, GraphQueryOperation.arguments, Value.text]
  have hdepth := optionalU32Arg_written hview "depth" hdepthValue source
  unfold buildOperation
  rw [if_neg (by decide), if_neg (by decide), if_neg (by decide), if_pos rfl, hreject]
  simp only [bind, Except.bind, hkind, hdepth, hfile]

theorem buildLimit_written {count : UInt32}
    (hview : view args = expected (GraphQueryOperation.limit count).arguments) :
    buildOperation source segmentOffset "limit".toList args argsOffset = .ok (.limit count) := by
  have hreject : rejectUnknownArgs source ["n"] args = .ok () :=
    rejectUnknownArgs_written hview (by simp [GraphQueryOperation.arguments]) source
  have hcount : requiredU32Arg source args "n" 0 argsOffset = .ok count := by
    have hvalue : valueOf (GraphQueryOperation.limit count).arguments "n" =
      some (number count) := by
      simp [valueOf, GraphQueryOperation.arguments, Value.text]
    unfold requiredU32Arg
    rw [optionalStringArg_written hview, hvalue, Option.some_or]
    dsimp only
    rw [parseU32_number]
  unfold buildOperation
  rw [if_neg (by decide), if_neg (by decide), if_neg (by decide), if_neg (by decide), if_pos rfl,
    hreject]
  simp only [bind, Except.bind, hcount]

theorem buildOperation_written {operation : GraphQueryOperation} (h : operation.Complete)
    (hview : view args = expected operation.arguments) :
    buildOperation source segmentOffset operation.name args argsOffset = .ok operation := by
  cases operation with
  | trail sym depth direction => exact buildTrail_written _ _ _ h hview
  | symbol query => exact buildSymbol_written _ _ _ h hview
  | search query => exact buildSearch_written _ _ _ h hview
  | filter kind file depth => exact buildFilter_written _ _ _ hview
  | limit count => exact buildLimit_written _ _ _ hview

/-! ## Pipelines -/

theorem fine_name : ∀ name ∈ ["trail", "symbol", "search", "filter", "limit"],
    Bare name.toList ∧ asciiLower name.toList = name.toList := by decide

theorem bare_name (operation : GraphQueryOperation) :
    Bare operation.name ∧ asciiLower operation.name = operation.name := by
  cases operation with
  | trail sym depth direction => exact fine_name "trail" (by decide)
  | symbol query => exact fine_name "symbol" (by decide)
  | search query => exact fine_name "search" (by decide)
  | filter kind file depth => exact fine_name "filter" (by decide)
  | limit count => exact fine_name "limit" (by decide)

/-- The name, the arguments and the brackets of a trimmed operation are found where they are. -/
theorem parseOperation_call {name w₂ inner : Text} (hname : Bare name) (hw₂ : Text.Blank w₂) :
    parseOperation source (name ++ w₂ ++ '(' :: (inner ++ [')'])) segmentOffset =
      (do
        let argsOffset := segmentOffset + byteLen (name ++ w₂) + 1
        let args ← parseArgs source inner argsOffset
        buildOperation source segmentOffset (asciiLower name) args argsOffset) := by
  have hfront : '(' ∉ name ++ w₂ := by
    intro hmem
    rcases List.mem_append.mp hmem with hmem | hmem
    · exact (bare_char (hname.2 _ hmem)).2.1.1 rfl
    · exact absurd (hw₂ _ hmem) (by decide)
  have hopening := find_append (b := inner ++ [')']) hfront
  have hsize : byteLen (name ++ w₂ ++ ['(']) = byteLen (name ++ w₂) + 1 := byteLen_append
  have hwhole : name ++ w₂ ++ '(' :: (inner ++ [')']) =
      name ++ w₂ ++ ['('] ++ (inner ++ [')']) := by
    rw [List.append_assoc (name ++ w₂)]
    rfl
  have hclose : findLast ')' (name ++ w₂ ++ '(' :: (inner ++ [')'])) =
      some (byteLen (name ++ w₂) + 1 + byteLen inner) := by
    have h := findLast_append (a := name ++ w₂ ++ ['('] ++ inner) (b := []) (c := ')')
      List.not_mem_nil
    rw [byteLen_append, hsize, List.append_assoc, ← hwhole] at h
    exact h
  have hafter : sliceFrom (name ++ w₂ ++ '(' :: (inner ++ [')']))
      (byteLen (name ++ w₂) + 1 + byteLen inner + 1) = some [] := by
    have h := sliceFrom_append (name ++ w₂ ++ ['('] ++ (inner ++ [')'])) []
    have hlast : byteLen [')'] = 1 := rfl
    have hlen : byteLen (name ++ w₂ ++ ['('] ++ (inner ++ [')'])) =
        byteLen (name ++ w₂) + 1 + byteLen inner + 1 := by
      rw [byteLen_append (a := name ++ w₂ ++ ['(']), hsize, byteLen_append (a := inner), hlast]
      omega
    rw [List.append_nil, hlen, ← hwhole] at h
    exact h
  have hbefore := sliceTo_append (name ++ w₂) ('(' :: (inner ++ [')']))
  have hinner : slice (name ++ w₂ ++ '(' :: (inner ++ [')'])) (byteLen (name ++ w₂) + 1)
      (byteLen (name ++ w₂) + 1 + byteLen inner) = some inner := by
    have h := slice_append (name ++ w₂ ++ ['(']) inner [')']
    rw [hsize, ← hwhole] at h
    exact h
  have htrim : Text.trimChars (name ++ w₂) = name :=
    Text.trimChars_append .nil (tight_bare hname) hw₂
  have hempty : Text.trimChars [] = [] := rfl
  unfold parseOperation
  rw [hopening, hclose]
  dsimp only
  rw [if_neg (by omega), hafter, hbefore, hinner]
  simp only [cut, bind, Except.bind]
  rw [hempty, htrim]
  rfl

theorem Quiet.joined {separator : Char} (hquote : ¬ (separator = '\'' ∨ separator = '"'))
    (hp : P separator) {parts : List Text} (h : ∀ part ∈ parts, Quiet P part) :
    Quiet P (CodeStory.Query.joined separator parts) := by
  induction parts with
  | nil => exact .nil
  | cons part later ih =>
    have hpart := h part List.mem_cons_self
    have hlater := ih fun part' hmem => h part' (List.mem_cons_of_mem _ hmem)
    cases later with
    | nil => exact hpart
    | cons next later => exact hpart.append (.cons hquote hp hlater)

theorem quiet_args {arguments : List (String × Value)} (hfine : ∀ arg ∈ arguments, FineArg arg)
    {inner : Text} (h : ArgsWritten arguments inner) : Quiet NoBrackets inner := by
  rcases h with ⟨-, hblank⟩ | ⟨-, parts, hparts, rfl⟩
  · exact (Quiet.white hblank).mono fun c hc => hc.1
  · have hcomma : NoBrackets ',' := by
      unfold NoBrackets
      decide
    apply Quiet.joined (by decide) hcomma
    intro part hmem
    obtain ⟨arg, harg, hwritten⟩ := exists_of_forall₂ hparts part hmem
    exact (argWritten_spec (hfine arg harg) hwritten).1.mono fun c hc => hc.1

/-- A written operation is closed, and it is read back once it is trimmed. -/
theorem operationWritten_spec {operation : GraphQueryOperation} (hcomplete : operation.Complete)
    {t : Text} (h : OperationWritten operation t) :
    Closed t ∧ Text.trimChars t ≠ [] ∧ ∀ source segmentOffset,
      parseOperation source (Text.trimChars t) segmentOffset = .ok operation := by
  obtain ⟨w₁, w₂, w₃, inner, hw₁, hw₂, hw₃, hinner, rfl⟩ := h
  obtain ⟨hname, hlower⟩ := bare_name operation
  have hfine := fine_arguments operation
  have hwhole : Text.Tight (operation.name ++ w₂ ++ '(' :: (inner ++ [')'])) := by
    have hlast : Text.Tight [')'] := tight_of_forall fun c hc => by
      obtain rfl := List.mem_singleton.mp hc
      rfl
    have h := (tight_bare hname).append (m := w₂ ++ '(' :: inner) hname.1 hlast
      (List.cons_ne_nil _ _)
    rw [List.append_assoc w₂] at h
    rw [List.append_assoc]
    exact h
  rw [Text.trimChars_append hw₁ hwhole hw₃]
  refine ⟨?_, ?_, fun source segmentOffset => ?_⟩
  · have hall : ∀ {l : Text}, Quiet (fun c => NoBrackets c ∧ c ≠ ',' ∧ c ≠ ':') l →
        Quiet NoBrackets l := fun hl => hl.mono fun c hc => hc.1
    have hfront : Quiet NoBrackets (w₁ ++ (operation.name ++ w₂)) :=
      (hall (.white hw₁)).append ((hall (.bare hname)).append (hall (.white hw₂)))
    have hclosed := closed_call hfront (quiet_args hfine hinner) (hall (.white hw₃))
    have heq : w₁ ++ (operation.name ++ w₂ ++ '(' :: (inner ++ [')']) ++ w₃) =
        w₁ ++ (operation.name ++ w₂) ++ '(' :: (inner ++ ')' :: w₃) := by
      rw [List.append_assoc w₁, List.append_assoc (operation.name ++ w₂), List.cons_append,
        List.append_assoc inner]
      rfl
    rw [heq]
    exact hclosed
  · intro hnil
    rw [List.append_eq_nil_iff] at hnil
    exact List.cons_ne_nil _ _ hnil.2
  · rw [parseOperation_call source segmentOffset hname hw₂]
    obtain ⟨args, hargs, hview⟩ := parseArgs_written hfine hinner source
      (segmentOffset + byteLen (operation.name ++ w₂) + 1)
    simp only [bind, Except.bind]
    rw [hargs, hlower]
    exact buildOperation_written _ _ _ hcomplete hview

theorem parseSegments_written {operations : List GraphQueryOperation}
    (hcomplete : ∀ operation ∈ operations, operation.Complete) {parts : List Text}
    (h : List.Forall₂ OperationWritten operations parts) {cuts : List (Text × Nat)}
    (hcuts : cuts.map (·.1) = parts) (source : Text) :
    parseSegments source cuts = .ok operations := by
  induction h generalizing cuts with
  | nil =>
    obtain rfl := List.map_eq_nil_iff.mp hcuts
    rfl
  | @cons operation part operations parts hwritten _ ih =>
    cases cuts with
    | nil => cases hcuts
    | cons piece cuts =>
      obtain ⟨hpiece, hrest⟩ := List.cons.inj hcuts
      obtain ⟨t, start⟩ := piece
      obtain rfl : t = part := hpiece
      have hlater := ih (fun o ho => hcomplete o (List.mem_cons_of_mem _ ho)) hrest
      obtain ⟨-, hne, hparse⟩ :=
        operationWritten_spec (hcomplete operation List.mem_cons_self) hwritten
      unfold parseSegments
      rw [if_neg hne, hparse, hlater]
      rfl

theorem parseGraphQuery_written {ast : GraphQueryAst} (hne : ast.operations ≠ [])
    (hcomplete : ∀ operation ∈ ast.operations, operation.Complete) {t : Text}
    (h : AstWritten ast t) : parseGraphQuery t = .ok ast := by
  obtain ⟨parts, hparts, rfl⟩ := h
  have hclosed : ∀ part ∈ parts, Closed part := by
    intro part hmem
    obtain ⟨operation, hoperation, hwritten⟩ := exists_of_forall₂ hparts part hmem
    exact (operationWritten_spec (hcomplete operation hoperation) hwritten).1
  have hpartsNe : parts ≠ [] := by
    rintro rfl
    exact hne (List.forall₂_nil_right_iff.mp hparts)
  obtain ⟨cuts, hcuts, hmap⟩ := splitPipeline_joined hpartsNe hclosed
  have hsegments := parseSegments_written hcomplete hparts hmap (joined '|' parts)
  unfold parseGraphQuery
  rw [hcuts]
  simp only [bind, Except.bind]
  rw [hsegments]
  exact if_neg hne

/-! ## One way to print -/

/-- Every string between quotes of the kind, a blank after each colon and around each bar. -/
def Value.print (q : Char) : Value → Text
  | .quoted s => literal q s
  | .bare t => t

def printArg (q : Char) (arg : String × Value) : Text :=
  arg.1.toList ++ (':' :: ' ' :: arg.2.print q)

def printOperation (q : Char) (operation : GraphQueryOperation) : Text :=
  ' ' :: (operation.name ++ '(' :: (joined ',' (operation.arguments.map (printArg q)) ++ [')'])) ++
    [' ']

def printAst (q : Char) (ast : GraphQueryAst) : Text :=
  joined '|' (ast.operations.map (printOperation q))

theorem blank_space : Text.Blank [' '] := by
  intro c hc
  obtain rfl := List.mem_singleton.mp hc
  rfl

theorem argWritten_print {q : Char} (hq : IsQuote q) (arg : String × Value) :
    ArgWritten arg (printArg q arg) := by
  refine ⟨[], [], [' '], [], arg.2.print q, .nil, .nil, blank_space, .nil, ?_, ?_⟩
  · cases arg.2 with
    | quoted s => exact ⟨q, hq, rfl⟩
    | bare t => rfl
  · rw [List.append_nil]
    rfl

theorem operationWritten_print {q : Char} (hq : IsQuote q) (operation : GraphQueryOperation) :
    OperationWritten operation (printOperation q operation) := by
  refine ⟨[' '], [], [' '], joined ',' (operation.arguments.map (printArg q)), blank_space, .nil,
    blank_space, ?_, ?_⟩
  · by_cases hnil : operation.arguments = []
    · rw [hnil]
      exact .inl ⟨rfl, .nil⟩
    · exact .inr ⟨hnil, _, List.forall₂_map_right_iff.mpr
        (List.forall₂_same.mpr fun arg _ => argWritten_print hq arg), rfl⟩
  · rw [List.append_nil]
    rfl

theorem astWritten_print {q : Char} (hq : IsQuote q) (ast : GraphQueryAst) :
    AstWritten ast (printAst q ast) :=
  ⟨_, List.forall₂_map_right_iff.mpr
    (List.forall₂_same.mpr fun step _ => operationWritten_print hq step), rfl⟩

/-- However a query is written it is read back, and no text makes the parser panic. -/
theorem written_queries_are_read_back :
    (∀ ast t, ast.operations ≠ [] → (∀ operation ∈ ast.operations, operation.Complete) →
      AstWritten ast t → parseGraphQuery t = .ok ast) ∧
    (∀ ast q, IsQuote q → AstWritten ast (printAst q ast)) ∧
    ∀ source, parseGraphQuery source ≠ .error .panicked :=
  ⟨fun _ _ hne hcomplete h => parseGraphQuery_written hne hcomplete h,
    fun ast _ hq => astWritten_print hq ast, calm_parseGraphQuery⟩

/-- Strings with both quotes, backslashes, brackets, bars, commas and colons. -/
theorem nasty_strings_are_read_back :
    parseGraphQuery (printAst '"'
      ⟨[.trail "\\'a\"|(".toList (some 4294967295) (some .both),
        .filter none (some "src\\, b: 'c')".toList) none, .filter none none none, .limit 0]⟩) =
      .ok ⟨[.trail "\\'a\"|(".toList (some 4294967295) (some .both),
        .filter none (some "src\\, b: 'c')".toList) none, .filter none none none, .limit 0]⟩ := by
  apply written_queries_are_read_back.1
  · exact List.cons_ne_nil _ _
  · intro operation hmem
    cases operation with
    | trail sym depth direction =>
      rcases List.mem_cons.mp hmem with heq | hlater
      · obtain ⟨rfl, -⟩ := GraphQueryOperation.trail.inj heq
        exact fun h => absurd (h '\'' (by decide)) (by decide)
      · simp at hlater
    | symbol query => simp at hmem
    | search query => simp at hmem
    | filter kind file depth => trivial
    | limit count => trivial
  · exact written_queries_are_read_back.2.1 _ _ .double

end CodeStory.Query
