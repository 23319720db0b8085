import CodeStory.Lib.Utf8Text

/-!
# JSON texts

The grammar of JSON as syntax trees that keep every character, white space included: a tree says
how a text is derived, and `text` is the text. A key of an object is found with what stands before
its first character.
-/

set_option autoImplicit false

namespace JsonText

open Utf8Text (Text)

inductive Blank where
  | space | tab | lineFeed | carriageReturn
  deriving DecidableEq, Repr

def Blank.char : Blank → Char
  | .space => ' '
  | .tab => '\t'
  | .lineFeed => '\n'
  | .carriageReturn => '\r'

def blanks (b : List Blank) : Text := b.map Blank.char

inductive Word where
  | nullWord | trueWord | falseWord
  deriving DecidableEq, Repr

def Word.text : Word → Text
  | .nullWord => "null".toList
  | .trueWord => "true".toList
  | .falseWord => "false".toList

/-! ## Numbers -/

def digits (ds : List (Fin 10)) : Text := ds.map fun d : Fin 10 => Nat.digitChar d.val

structure Digits where
  first : Fin 10
  rest : List (Fin 10)
  deriving DecidableEq, Repr

def Digits.text (d : Digits) : Text := digits (d.first :: d.rest)

structure Exponent where
  capital : Bool
  minus : Option Bool
  digits : Digits
  deriving DecidableEq, Repr

structure Number where
  negative : Bool
  whole : Digits
  fraction : Option Digits
  exponent : Option Exponent
  leading : whole.first = 0 → whole.rest = []
  deriving DecidableEq, Repr

def Exponent.text (e : Exponent) : Text :=
  (if e.capital then 'E' else 'e') ::
    ((match e.minus with
      | none => []
      | some true => ['-']
      | some false => ['+']) ++ e.digits.text)

def Number.text (n : Number) : Text :=
  (if n.negative then ['-'] else []) ++ n.whole.text ++
    ((n.fraction.map fun f => '.' :: f.text).getD []) ++ ((n.exponent.map Exponent.text).getD [])

/-! ## Strings -/

inductive Escape where
  | quote | backslash | slash | backspace | formFeed | lineFeed | carriageReturn | tab
  deriving DecidableEq, Repr

def Escape.letter : Escape → Char
  | .quote => '"'
  | .backslash => '\\'
  | .slash => '/'
  | .backspace => 'b'
  | .formFeed => 'f'
  | .lineFeed => 'n'
  | .carriageReturn => 'r'
  | .tab => 't'

def Escape.value : Escape → Char
  | .quote => '"'
  | .backslash => '\\'
  | .slash => '/'
  | .backspace => Char.ofNat 8
  | .formFeed => Char.ofNat 12
  | .lineFeed => '\n'
  | .carriageReturn => '\r'
  | .tab => '\t'

structure HexDigit where
  value : Fin 16
  capital : Bool
  deriving DecidableEq, Repr

def HexDigit.char (d : HexDigit) : Char :=
  if d.capital then (Nat.digitChar d.value).toUpper else Nat.digitChar d.value

/-- The four digits behind `\u`. -/
structure CodeUnit where
  a : HexDigit
  b : HexDigit
  c : HexDigit
  d : HexDigit
  deriving DecidableEq, Repr

namespace CodeUnit

def value (u : CodeUnit) : Nat :=
  4096 * u.a.value + 256 * u.b.value + 16 * u.c.value + u.d.value

def text (u : CodeUnit) : Text := ['\\', 'u', u.a.char, u.b.char, u.c.char, u.d.char]

def IsHigh (u : CodeUnit) : Prop := 0xD800 ≤ u.value ∧ u.value < 0xDC00

def IsLow (u : CodeUnit) : Prop := 0xDC00 ≤ u.value ∧ u.value < 0xE000

end CodeUnit

/-- A character in a string literal. -/
inductive Item where
  | plain (c : Char) (noQuote : c ≠ '"') (noBackslash : c ≠ '\\') (noControl : 32 ≤ c.toNat)
  | escaped (e : Escape)
  | unit (u : CodeUnit) (noHigh : ¬ u.IsHigh) (noLow : ¬ u.IsLow)
  | pair (high low : CodeUnit) (isHigh : high.IsHigh) (isLow : low.IsLow)

def Item.text : Item → Text
  | .plain c _ _ _ => [c]
  | .escaped e => ['\\', e.letter]
  | .unit u _ _ => u.text
  | .pair high low _ _ => high.text ++ low.text

def Item.value : Item → Char
  | .plain c _ _ _ => c
  | .escaped e => e.value
  | .unit u _ _ => Char.ofNat u.value
  | .pair high low _ _ =>
    Char.ofNat (0x10000 + 0x400 * (high.value - 0xD800) + (low.value - 0xDC00))

/-- What stands between the quotes of a string literal. -/
abbrev Body := List Item

def Body.text (body : Body) : Text := body.flatMap Item.text

def Body.value (body : Body) : Text := body.map Item.value

def Body.quoted (body : Body) : Text := '"' :: (body.text ++ ['"'])

/-! ## Values -/

mutual

inductive Value where
  | word (w : Word)
  | number (n : Number)
  | string (body : Body)
  | emptyArray (inside : List Blank)
  | array (elements : Elements)
  | emptyObject (inside : List Blank)
  | object (members : Members)

/-- Elements of an array, each with the blanks around it, and commas between them. -/
inductive Elements where
  | last (before : List Blank) (value : Value) (after : List Blank)
  | more (before : List Blank) (value : Value) (after : List Blank) (rest : Elements)

inductive Members where
  | last (before : List Blank) (key : Body) (afterKey beforeValue : List Blank) (value : Value)
      (after : List Blank)
  | more (before : List Blank) (key : Body) (afterKey beforeValue : List Blank) (value : Value)
      (after : List Blank) (rest : Members)

end

mutual

def Value.text : Value → Text
  | .word w => w.text
  | .number n => n.text
  | .string body => body.quoted
  | .emptyArray inside => '[' :: (blanks inside ++ [']'])
  | .array elements => '[' :: (elements.text ++ [']'])
  | .emptyObject inside => '{' :: (blanks inside ++ ['}'])
  | .object members => '{' :: (members.text ++ ['}'])

def Elements.text : Elements → Text
  | .last before value after => blanks before ++ (value.text ++ blanks after)
  | .more before value after rest =>
    blanks before ++ (value.text ++ (blanks after ++ ',' :: rest.text))

def Members.text : Members → Text
  | .last before key afterKey beforeValue value after =>
    blanks before ++ (key.quoted ++ (blanks afterKey ++ ':' :: (blanks beforeValue ++
      (value.text ++ blanks after))))
  | .more before key afterKey beforeValue value after rest =>
    blanks before ++ (key.quoted ++ (blanks afterKey ++ ':' :: (blanks beforeValue ++
      (value.text ++ (blanks after ++ ',' :: rest.text)))))

end

/-- A key with all that stands before it, its opening quote included. -/
structure KeyAt where
  before : Text
  body : Body

mutual

/-- The keys of the objects in a value, in the order of the text. -/
def Value.keys (before : Text) : Value → List KeyAt
  | .word _ | .number _ | .string _ | .emptyArray _ | .emptyObject _ => []
  | .array elements => elements.keys (before ++ ['['])
  | .object members => members.keys (before ++ ['{'])

def Elements.keys (before : Text) : Elements → List KeyAt
  | .last front value _ => value.keys (before ++ blanks front)
  | .more front value after rest =>
    value.keys (before ++ blanks front) ++
      rest.keys (before ++ (blanks front ++ (value.text ++ (blanks after ++ [',']))))

def Members.keys (before : Text) : Members → List KeyAt
  | .last front key afterKey beforeValue value _ =>
    ⟨before ++ (blanks front ++ ['"']), key⟩ ::
      value.keys (before ++ (blanks front ++ (key.quoted ++ (blanks afterKey ++ ':' ::
        blanks beforeValue))))
  | .more front key afterKey beforeValue value after rest =>
    ⟨before ++ (blanks front ++ ['"']), key⟩ ::
      (value.keys (before ++ (blanks front ++ (key.quoted ++ (blanks afterKey ++ ':' ::
        blanks beforeValue)))) ++
      rest.keys (before ++ (blanks front ++ (key.quoted ++ (blanks afterKey ++ ':' ::
        (blanks beforeValue ++ (value.text ++ (blanks after ++ [',']))))))))

end

/-! ## Streams -/

/-- Values one after another, with blanks before, between and after them. -/
structure Document where
  before : List Blank
  first : Value
  after : List Blank
  later : List (Value × List Blank)

def laterText : List (Value × List Blank) → Text
  | [] => []
  | (value, after) :: rest => value.text ++ (blanks after ++ laterText rest)

def laterKeys (before : Text) : List (Value × List Blank) → List KeyAt
  | [] => []
  | (value, after) :: rest =>
    value.keys before ++ laterKeys (before ++ (value.text ++ blanks after)) rest

def Document.text (doc : Document) : Text :=
  blanks doc.before ++ laterText ((doc.first, doc.after) :: doc.later)

def Document.keys (doc : Document) : List KeyAt :=
  laterKeys (blanks doc.before) ((doc.first, doc.after) :: doc.later)

/-! ## Where keys are -/

/-- The key is a literal of the text that stands behind `before`. -/
def Occurs (before t : Text) (key : KeyAt) : Prop :=
  ∃ front after, key.before = before ++ (front ++ ['"']) ∧ t = front ++ (key.body.quoted ++ after)

theorem Occurs.widen {before a t : Text} {key : KeyAt} (h : Occurs (before ++ a) t key) (b : Text) :
    Occurs before (a ++ (t ++ b)) key := by
  obtain ⟨front, after, hbefore, rfl⟩ := h
  refine ⟨a ++ front, after ++ b, ?_, ?_⟩
  · rw [hbefore]
    simp only [List.append_assoc]
  · simp only [List.append_assoc]

theorem occurs_key (before a : Text) (body : Body) (b : Text) :
    Occurs before (a ++ (body.quoted ++ b)) ⟨before ++ (a ++ ['"']), body⟩ :=
  ⟨a, b, rfl, rfl⟩

mutual

theorem Value.occurs : (v : Value) → ∀ before, ∀ key ∈ v.keys before, Occurs before v.text key
  | .word _, _, _, hkey => absurd hkey List.not_mem_nil
  | .number _, _, _, hkey => absurd hkey List.not_mem_nil
  | .string _, _, _, hkey => absurd hkey List.not_mem_nil
  | .emptyArray _, _, _, hkey => absurd hkey List.not_mem_nil
  | .emptyObject _, _, _, hkey => absurd hkey List.not_mem_nil
  | .array elements, before, key, hkey => (elements.occurs (before ++ ['[']) key hkey).widen [']']
  | .object members, before, key, hkey => (members.occurs (before ++ ['{']) key hkey).widen ['}']

theorem Elements.occurs : (e : Elements) → ∀ before, ∀ key ∈ e.keys before,
    Occurs before e.text key
  | .last front value after, before, key, hkey =>
    (value.occurs (before ++ blanks front) key hkey).widen (blanks after)
  | .more front value after rest, before, key, hkey => by
    unfold Elements.text
    unfold Elements.keys at hkey
    rcases List.mem_append.mp hkey with hkey | hkey
    · exact (value.occurs (before ++ blanks front) key hkey).widen _
    · have h := (rest.occurs _ key hkey).widen []
      simp only [List.append_nil, List.append_assoc, List.cons_append, List.nil_append] at h
      exact h

theorem Members.occurs : (m : Members) → ∀ before, ∀ key ∈ m.keys before,
    Occurs before m.text key
  | .last front body afterKey beforeValue value after, before, key, hkey => by
    unfold Members.text
    unfold Members.keys at hkey
    rcases List.mem_cons.mp hkey with rfl | hkey
    · exact occurs_key before (blanks front) body _
    · have h := (value.occurs _ key hkey).widen (blanks after)
      simp only [List.append_assoc, List.cons_append] at h
      exact h
  | .more front body afterKey beforeValue value after rest, before, key, hkey => by
    unfold Members.text
    unfold Members.keys at hkey
    rcases List.mem_cons.mp hkey with rfl | hkey
    · exact occurs_key before (blanks front) body _
    · rcases List.mem_append.mp hkey with hkey | hkey
      · have h := (value.occurs _ key hkey).widen (blanks after ++ ',' :: rest.text)
        simp only [List.append_assoc, List.cons_append] at h
        exact h
      · have h := (rest.occurs _ key hkey).widen []
        simp only [List.append_nil, List.append_assoc, List.cons_append, List.nil_append] at h
        exact h

end

theorem occurs_later : ∀ (later : List (Value × List Blank)) before,
    ∀ key ∈ laterKeys before later, Occurs before (laterText later) key := by
  intro later
  induction later with
  | nil => exact fun _ _ hkey => absurd hkey List.not_mem_nil
  | cons pair later ih =>
    obtain ⟨value, after⟩ := pair
    intro before key hkey
    unfold laterKeys at hkey
    unfold laterText
    rcases List.mem_append.mp hkey with hkey | hkey
    · obtain ⟨front, behind, hbefore, htext⟩ := value.occurs before key hkey
      refine ⟨front, behind ++ (blanks after ++ laterText later), hbefore, ?_⟩
      rw [htext]
      simp only [List.append_assoc]
    · have h := (ih _ key hkey).widen []
      simp only [List.append_nil, List.append_assoc] at h
      exact h

/-- A key of a document stands in its text, right behind a quote and before another. -/
theorem Document.key_text (doc : Document) {key : KeyAt} (hkey : key ∈ doc.keys) :
    ∃ front after, key.before = front ++ ['"'] ∧
      doc.text = key.before ++ (key.body.text ++ '"' :: after) := by
  obtain ⟨front, after, hbefore, htext⟩ := occurs_later _ _ key hkey
  refine ⟨blanks doc.before ++ front, after, ?_, ?_⟩
  · rw [hbefore, List.append_assoc]
  · unfold Document.text
    rw [htext, hbefore]
    unfold Body.quoted
    simp only [List.append_assoc, List.cons_append, List.nil_append]

end JsonText
