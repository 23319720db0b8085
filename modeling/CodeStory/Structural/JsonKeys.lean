import CodeStory.Lib.JsonText
import CodeStory.Structural.Anchors

/-!
# Anchors of JSON keys

`collect_json_entities`: a flat scan for quotes that takes a string for a key when a colon follows.
On every text of the grammar it finds the keys of the objects and no other string. Whether a text
is accepted and what a string literal stands for is left to the JSON library.
-/

set_option autoImplicit false

namespace CodeStory.Structural

open Utf8Text JsonText
open CodeStory.Graph (NodeKind)

/-- The JSON library: the number of values of a stream and the text of a string literal. -/
structure SerdeJson where
  stream : Text → Except String Nat
  string : Text → Except String Text

def quote : UInt8 := 34

def backslash : UInt8 := 92

def colon : UInt8 := 58

/-- `u8::is_ascii_whitespace` -/
def isAsciiWhitespace (byte : UInt8) : Bool :=
  byte = 32 || byte = 9 || byte = 10 || byte = 12 || byte = 13

/-- The bytes before the quote that closes a string; the flag says that the next is escaped. -/
def closingQuote : Bool → List UInt8 → Option Nat
  | _, [] => none
  | true, _ :: rest => (closingQuote false rest).map (1 + ·)
  | false, byte :: rest =>
    if byte = backslash then (closingQuote true rest).map (1 + ·)
    else if byte = quote then some 0
    else (closingQuote false rest).map (1 + ·)

/-- The loop over the bytes; `none` is a slice that would panic. -/
def scanKeys (serde : SerdeJson) (path source : Text) (cursor ordinal : Nat)
    (storage : List Anchor) : Option (Except StructuralCollectionError (List Anchor)) :=
  if h : cursor < (encode source).length then
    if (encode source)[cursor] ≠ quote then scanKeys serde path source (cursor + 1) ordinal storage
    else
      let rawStart := cursor + 1
      match closingQuote false ((encode source).drop rawStart) with
      | none => some (.ok storage)
      | some rawLength =>
        let quoteEnd := rawStart + rawLength
        let blank := ((encode source).drop (quoteEnd + 1)).takeWhile isAsciiWhitespace
        if (encode source)[quoteEnd + 1 + blank.length]? ≠ some colon then
          scanKeys serde path source (quoteEnd + 1) ordinal storage
        else
          match slice source cursor (quoteEnd + 1) with
          | none => none
          | some quoted =>
            match serde.string quoted with
            | .error error => some (.error (.malformed ("invalid JSON object key: " ++ error)))
            | .ok label =>
              let (line, col) := lineColForByteOffset (encode source) rawStart
              scanKeys serde path source (quoteEnd + 1) (ordinal + 1)
                (storage ++ [anchor path .annotationNode "object-key" label (ordinal + 1) line col
                  (quoteEnd - rawStart)])
  else some (.ok storage)
termination_by byteLen source - cursor
decreasing_by
  all_goals
    rw [length_encode] at h
    omega

def collectJsonEntities (serde : SerdeJson) (path source : Text) :
    Option (Except StructuralCollectionError (List Anchor)) :=
  match serde.stream source with
  | .error error => some (.error (.malformed ("invalid JSON syntax: " ++ error)))
  | .ok 0 =>
    some (.error (.malformed "invalid JSON syntax: expected at least one JSON value"))
  | .ok (_ + 1) => scanKeys serde path source 0 0 []

/-! ## Bytes of literals -/

theorem closingQuote_plain {bytes : List UInt8} (h : ∀ x ∈ bytes, x ≠ backslash ∧ x ≠ quote)
    (rest : List UInt8) :
    closingQuote false (bytes ++ rest) = (closingQuote false rest).map (bytes.length + ·) := by
  induction bytes with
  | nil =>
    cases hrest : closingQuote false rest with
    | none => simp [hrest]
    | some n => simp [hrest]
  | cons x bytes ih =>
    obtain ⟨hbackslash, hquote⟩ := h x List.mem_cons_self
    rw [List.cons_append, closingQuote, if_neg hbackslash, if_neg hquote,
      ih fun y hy => h y (List.mem_cons_of_mem x hy), Option.map_map]
    congr 1
    funext n
    change 1 + (bytes.length + n) = bytes.length + 1 + n
    omega

theorem closingQuote_escaped (x : UInt8) (rest : List UInt8) :
    closingQuote false (backslash :: x :: rest) = (closingQuote false rest).map (2 + ·) := by
  rw [closingQuote, if_pos rfl, closingQuote, Option.map_map]
  congr 1
  funext n
  change 1 + (1 + n) = 2 + n
  omega

/-- A text without quotes and backslashes has none among its bytes. -/
theorem plain_encode {t : Text} (hquote : '"' ∉ t) (hbackslash : '\\' ∉ t) :
    ∀ x ∈ encode t, x ≠ backslash ∧ x ≠ quote := by
  intro x hx
  constructor
  · rintro rfl
    obtain ⟨c, hc, hvalue⟩ := exists_of_mem_encode hx (by decide)
    have heq : c = '\\' := Char.toNat_inj.mp hvalue
    exact hbackslash (heq ▸ hc)
  · rintro rfl
    obtain ⟨c, hc, hvalue⟩ := exists_of_mem_encode hx (by decide)
    have heq : c = '"' := Char.toNat_inj.mp hvalue
    exact hquote (heq ▸ hc)

theorem hexDigit_plain (d : HexDigit) : d.char ≠ '"' ∧ d.char ≠ '\\' := by
  have h : ∀ (value : Fin 16) (capital : Bool),
      (HexDigit.mk value capital).char ≠ '"' ∧ (HexDigit.mk value capital).char ≠ '\\' := by
    decide
  exact h d.value d.capital

theorem closingQuote_unit (u : CodeUnit) (rest : List UInt8) :
    closingQuote false (encode u.text ++ rest) =
      (closingQuote false rest).map (byteLen u.text + ·) := by
  have hdigits : ∀ x ∈ encode [u.a.char, u.b.char, u.c.char, u.d.char],
      x ≠ backslash ∧ x ≠ quote := by
    apply plain_encode
    · simp only [List.mem_cons, List.not_mem_nil, or_false, not_or]
      exact ⟨(hexDigit_plain u.a).1.symm, (hexDigit_plain u.b).1.symm,
        (hexDigit_plain u.c).1.symm, (hexDigit_plain u.d).1.symm⟩
    · simp only [List.mem_cons, List.not_mem_nil, or_false, not_or]
      exact ⟨(hexDigit_plain u.a).2.symm, (hexDigit_plain u.b).2.symm,
        (hexDigit_plain u.c).2.symm, (hexDigit_plain u.d).2.symm⟩
  have hbytes : encode u.text ++ rest = backslash :: 117 ::
      (encode [u.a.char, u.b.char, u.c.char, u.d.char] ++ rest) := rfl
  have hlength : byteLen u.text = 2 + byteLen [u.a.char, u.b.char, u.c.char, u.d.char] := by
    have hsplit : u.text = ['\\', 'u'] ++ [u.a.char, u.b.char, u.c.char, u.d.char] := rfl
    rw [hsplit, byteLen_append]
    rfl
  rw [hbytes, closingQuote_escaped, closingQuote_plain hdigits, Option.map_map, length_encode,
    hlength]
  congr 1
  funext n
  exact (Nat.add_assoc _ _ _).symm

theorem closingQuote_item (item : Item) (rest : List UInt8) :
    closingQuote false (encode item.text ++ rest) =
      (closingQuote false rest).map (byteLen item.text + ·) := by
  cases item with
  | plain c noQuote noBackslash noControl =>
    rw [closingQuote_plain, length_encode]
    apply plain_encode
    · exact fun hmem => noQuote (List.mem_singleton.mp hmem).symm
    · exact fun hmem => noBackslash (List.mem_singleton.mp hmem).symm
  | escaped e =>
    cases e <;> exact closingQuote_escaped _ _
  | unit u noHigh noLow => exact closingQuote_unit u rest
  | pair high low isHigh isLow =>
    change closingQuote false (encode (high.text ++ low.text) ++ rest) =
      (closingQuote false rest).map (byteLen (high.text ++ low.text) + ·)
    rw [encode_append, List.append_assoc, closingQuote_unit, closingQuote_unit, Option.map_map,
      byteLen_append]
    congr 1
    funext n
    exact (Nat.add_assoc _ _ _).symm

/-- The quote behind a body is the first one that is not escaped. -/
theorem closingQuote_body (body : Body) (rest : List UInt8) :
    closingQuote false (encode body.text ++ quote :: rest) = some (byteLen body.text) := by
  induction body with
  | nil => rfl
  | cons item body ih =>
    have hsplit : Body.text (item :: body) = item.text ++ Body.text body := rfl
    rw [hsplit, encode_append, List.append_assoc, closingQuote_item, ih, byteLen_append]
    rfl

theorem getElem?_length_takeWhile (p : UInt8 → Bool) (bytes : List UInt8) :
    bytes[(bytes.takeWhile p).length]? = (bytes.dropWhile p).head? := by
  induction bytes with
  | nil => rfl
  | cons x bytes ih =>
    by_cases hx : p x = true
    · rw [List.takeWhile_cons_of_pos hx, List.dropWhile_cons_of_pos hx, List.length_cons,
        List.getElem?_cons_succ]
      exact ih
    · rw [List.takeWhile_cons_of_neg hx, List.dropWhile_cons_of_neg hx]
      rfl

/-! ## Stretches of the scan -/

/-- The anchor of a key, which has so many anchors before it. -/
def keyAnchor (path : Text) (earlier : Nat) (key : KeyAt) : Anchor :=
  anchor path .annotationNode "object-key" key.body.value (earlier + 1)
    (clampU32 (lineBehind key.before)) (columnBehind key.before) (byteLen key.body.text)

def keyAnchors (path : Text) (earlier : Nat) (keys : List KeyAt) : List Anchor :=
  keys.mapIdx fun i key => keyAnchor path (earlier + i) key

theorem keyAnchors_append (path : Text) (earlier : Nat) (keys later : List KeyAt) :
    keyAnchors path earlier (keys ++ later) =
      keyAnchors path earlier keys ++ keyAnchors path (earlier + keys.length) later := by
  unfold keyAnchors
  rw [List.mapIdx_append]
  congr 2
  funext i key
  rw [Nat.add_assoc, Nat.add_comm i]

section Scan
variable (serde : SerdeJson) (path source : Text)

/-- Between two places of the source the scan finds these keys. -/
def Scans (start stop : Text) (keys : List KeyAt) : Prop :=
  ∀ ordinal storage, scanKeys serde path source (byteLen start) ordinal storage =
    scanKeys serde path source (byteLen stop) (ordinal + keys.length)
      (storage ++ keyAnchors path ordinal keys)

variable {serde path source} {start middle stop : Text} {keys later : List KeyAt}

theorem Scans.trans (h : Scans serde path source start middle keys)
    (h' : Scans serde path source middle stop later) :
    Scans serde path source start stop (keys ++ later) := by
  intro ordinal storage
  rw [h, h', keyAnchors_append, List.length_append, Nat.add_assoc, List.append_assoc]

theorem scanKeys_step {cursor : Nat} {byte : UInt8} (hget : (encode source)[cursor]? = some byte)
    (hne : byte ≠ quote) (ordinal : Nat) (storage : List Anchor) :
    scanKeys serde path source cursor ordinal storage =
      scanKeys serde path source (cursor + 1) ordinal storage := by
  obtain ⟨hlt, hbyte⟩ := List.getElem?_eq_some_iff.mp hget
  rw [scanKeys, dif_pos hlt, hbyte, if_pos hne]

variable (serde path) in
theorem scanKeys_bytes {bytes : List UInt8} (h : ∀ x ∈ bytes, x ≠ quote) :
    ∀ front back, encode source = front ++ (bytes ++ back) → ∀ ordinal storage,
      scanKeys serde path source front.length ordinal storage =
        scanKeys serde path source (front.length + bytes.length) ordinal storage := by
  induction bytes with
  | nil => exact fun _ _ _ _ _ => rfl
  | cons x bytes ih =>
    intro front back hsource ordinal storage
    have hget : (encode source)[front.length]? = some x := by
      rw [hsource, List.getElem?_append_right (Nat.le_refl _), Nat.sub_self]
      rfl
    have hnext : encode source = (front ++ [x]) ++ (bytes ++ back) := by
      rw [hsource, List.append_assoc]
      rfl
    have hrest := ih (fun y hy => h y (List.mem_cons_of_mem x hy)) (front ++ [x]) back hnext
      ordinal storage
    rw [List.length_append, List.length_singleton] at hrest
    rw [scanKeys_step hget (h x List.mem_cons_self), hrest, List.length_cons]
    congr 1
    omega

/-- No key is found where there is no quote. -/
theorem Scans.skip {t : Text} (rest : Text) (hsource : source = start ++ (t ++ rest))
    (hquote : '"' ∉ t) : Scans serde path source start (start ++ t) [] := by
  intro ordinal storage
  have hbytes : ∀ x ∈ encode t, x ≠ quote := by
    rintro x hx rfl
    obtain ⟨c, hc, hvalue⟩ := exists_of_mem_encode hx (by decide)
    have heq : c = '"' := Char.toNat_inj.mp hvalue
    exact hquote (heq ▸ hc)
  have hsplit : encode source = encode start ++ (encode t ++ encode rest) := by
    rw [hsource, encode_append, encode_append]
  have hscan := scanKeys_bytes serde path hbytes _ _ hsplit ordinal storage
  rw [length_encode, length_encode, ← byteLen_append] at hscan
  rw [hscan]
  exact congrArg _ (List.append_nil storage).symm

/-- What the scan does at a string literal. -/
theorem scanKeys_quoted {body : Body} {rest : Text}
    (hsource : source = start ++ (body.quoted ++ rest)) (ordinal : Nat) (storage : List Anchor) :
    scanKeys serde path source (byteLen start) ordinal storage =
      if ((encode rest).dropWhile isAsciiWhitespace).head? ≠ some colon then
        scanKeys serde path source (byteLen (start ++ body.quoted)) ordinal storage
      else
        match serde.string body.quoted with
        | .error error => some (.error (.malformed ("invalid JSON object key: " ++ error)))
        | .ok label =>
          scanKeys serde path source (byteLen (start ++ body.quoted)) (ordinal + 1)
            (storage ++ [anchor path .annotationNode "object-key" label (ordinal + 1)
              (clampU32 (lineBehind (start ++ ['"']))) (columnBehind (start ++ ['"']))
              (byteLen body.text)]) := by
  have hquotedBytes : encode body.quoted = quote :: (encode body.text ++ [quote]) := by
    change encode (['"'] ++ (body.text ++ ['"'])) = _
    rw [encode_append, encode_append]
    rfl
  have hquotedLength : byteLen body.quoted = byteLen body.text + 2 := by
    rw [← length_encode, hquotedBytes, List.length_cons, List.length_append, length_encode]
    rfl
  have hbytes : encode source = encode start ++ quote :: (encode body.text ++
      quote :: encode rest) := by
    rw [hsource, encode_append, encode_append, hquotedBytes]
    simp only [List.cons_append, List.append_assoc, List.nil_append]
  have hlt : byteLen start < (encode source).length := by
    rw [hbytes, List.length_append, length_encode, List.length_cons]
    omega
  have hget : (encode source)[byteLen start] = quote := by
    have h : (encode source)[byteLen start]? = some quote := by
      rw [hbytes, ← length_encode (t := start), List.getElem?_append_right (Nat.le_refl _),
        Nat.sub_self]
      rfl
    exact (List.getElem?_eq_some_iff.mp h).2
  have hopen : (encode source).drop (byteLen start + 1) =
      encode body.text ++ quote :: encode rest := by
    rw [hbytes, ← length_encode (t := start), List.drop_append]
    simp
  have hclose : (encode source).drop (byteLen start + 1 + byteLen body.text + 1) =
      encode rest := by
    have hlength : byteLen start + 1 + byteLen body.text + 1 =
        byteLen start + 1 + (byteLen body.text + 1) := by omega
    rw [hlength, ← List.drop_drop, hopen, ← length_encode (t := body.text), List.drop_append]
    simp
  have hend : byteLen (start ++ body.quoted) = byteLen start + 1 + byteLen body.text + 1 := by
    rw [byteLen_append, hquotedLength]
    omega
  have hslice : slice source (byteLen start) (byteLen start + 1 + byteLen body.text + 1) =
      some body.quoted := by
    rw [← hend, byteLen_append, hsource]
    exact slice_append start body.quoted rest
  have hafter : (encode source)[byteLen start + 1 + byteLen body.text + 1 +
      ((encode rest).takeWhile isAsciiWhitespace).length]? =
        ((encode rest).dropWhile isAsciiWhitespace).head? := by
    rw [← List.getElem?_drop, hclose, getElem?_length_takeWhile]
  have hposition : lineColForByteOffset (encode source) (byteLen start + 1) =
      (clampU32 (lineBehind (start ++ ['"'])), columnBehind (start ++ ['"'])) := by
    have hstart : byteLen start + 1 = byteLen (start ++ ['"']) := by
      rw [byteLen_append]
      rfl
    have hwhole : source = (start ++ ['"']) ++ (body.text ++ ['"'] ++ rest) := by
      rw [hsource]
      unfold Body.quoted
      simp only [List.cons_append, List.append_assoc, List.nil_append]
    rw [hstart, hwhole]
    exact lineColForByteOffset_append _ _
  have hlengthKey : byteLen start + 1 + byteLen body.text - (byteLen start + 1) =
      byteLen body.text := by omega
  rw [scanKeys, dif_pos hlt, hget, if_neg (fun h => h rfl)]
  dsimp only
  rw [hopen, closingQuote_body]
  dsimp only
  rw [hclose, hafter, hslice, hposition, hlengthKey, hend]

/-- No colon comes next, blanks aside. -/
def NoColon (rest : Text) : Prop :=
  ((encode rest).dropWhile isAsciiWhitespace).head? ≠ some colon

/-- The first byte of the text is no blank and no colon. -/
theorem noColon_cons {c : Char} {t : Text}
    (h : c.toNat ≠ 58 ∧ c.toNat ≠ 32 ∧ c.toNat ≠ 9 ∧ c.toNat ≠ 10 ∧ c.toNat ≠ 12 ∧ c.toNat ≠ 13) :
    NoColon (c :: t) := by
  obtain ⟨hcolon, hspace, htab, hline, hfeed, hreturn⟩ := h
  have hpos : 0 < (String.utf8EncodeChar c).length := by
    rw [String.length_utf8EncodeChar]
    exact Char.utf8Size_pos c
  cases hbytes : String.utf8EncodeChar c with
  | nil =>
    rw [hbytes] at hpos
    exact absurd hpos (Nat.lt_irrefl 0)
  | cons x bytes =>
    have hx : ∀ y : UInt8, y < 128 → c.toNat ≠ y.toNat → x ≠ y := by
      rintro y hy hne rfl
      exact hne (toNat_of_mem_encodeChar (hbytes ▸ List.mem_cons_self) hy)
    have hencode : encode (c :: t) = x :: (bytes ++ encode t) := by
      change String.utf8EncodeChar c ++ encode t = _
      rw [hbytes]
      rfl
    have hblank : ¬ isAsciiWhitespace x = true := by
      unfold isAsciiWhitespace
      simp only [Bool.or_eq_true, decide_eq_true_eq, not_or]
      exact ⟨⟨⟨⟨hx 32 (by decide) hspace, hx 9 (by decide) htab⟩, hx 10 (by decide) hline⟩,
        hx 12 (by decide) hfeed⟩, hx 13 (by decide) hreturn⟩
    unfold NoColon
    rw [hencode, List.dropWhile_cons_of_neg hblank, List.head?_cons]
    exact fun heq => hx 58 (by decide) hcolon (Option.some.inj heq)

theorem dropWhile_blanks (b : List Blank) (rest : Text) :
    (encode (blanks b ++ rest)).dropWhile isAsciiWhitespace =
      (encode rest).dropWhile isAsciiWhitespace := by
  induction b with
  | nil => rfl
  | cons blank b ih => cases blank <;> exact ih

theorem NoColon.blanks {rest : Text} (h : NoColon rest) (b : List Blank) :
    NoColon (JsonText.blanks b ++ rest) := by
  unfold NoColon
  rw [dropWhile_blanks]
  exact h

/-- A string literal that is a value is passed over. -/
theorem Scans.string {body : Body} {rest : Text}
    (hsource : source = start ++ (body.quoted ++ rest)) (hrest : NoColon rest) :
    Scans serde path source start (start ++ body.quoted) [] := by
  intro ordinal storage
  unfold NoColon at hrest
  rw [scanKeys_quoted hsource, if_pos hrest]
  exact congrArg _ (List.append_nil storage).symm

theorem Scans.key {body : Body} (gap : List Blank) (rest : Text)
    (hsource : source = start ++ (body.quoted ++ (blanks gap ++ ':' :: rest)))
    (hlabel : serde.string body.quoted = .ok body.value) :
    Scans serde path source start (start ++ body.quoted) [⟨start ++ ['"'], body⟩] := by
  intro ordinal storage
  have hcolon : ((encode (blanks gap ++ ':' :: rest)).dropWhile isAsciiWhitespace).head? =
      some colon := by
    rw [dropWhile_blanks]
    rfl
  rw [scanKeys_quoted hsource, if_neg (fun hne => hne hcolon), hlabel]
  rfl

/-! ## Values of the grammar -/

theorem quote_not_mem_blanks (b : List Blank) : '"' ∉ blanks b := by
  intro hmem
  obtain ⟨blank, -, heq⟩ := List.mem_map.mp hmem
  cases blank <;> exact absurd heq (by decide)

theorem digit_mem {ds : List (Fin 10)} {c : Char} (h : c ∈ digits ds) :
    48 ≤ c.toNat ∧ c.toNat ≤ 57 := by
  obtain ⟨d, -, rfl⟩ := List.mem_map.mp h
  have hall : ∀ d : Fin 10, 48 ≤ (Nat.digitChar d).toNat ∧ (Nat.digitChar d).toNat ≤ 57 := by decide
  exact hall d

theorem noColon_digit {c : Char} {t : Text} (h : 48 ≤ c.toNat ∧ c.toNat ≤ 57) :
    NoColon (c :: t) := by
  apply noColon_cons
  omega

theorem quote_not_mem_digits (d : Digits) : '"' ∉ d.text :=
  fun h => absurd (digit_mem h).1 (by decide)

theorem quote_not_mem_number (n : Number) : '"' ∉ n.text := by
  unfold Number.text
  simp only [List.mem_append, not_or]
  refine ⟨⟨⟨?_, quote_not_mem_digits _⟩, ?_⟩, ?_⟩
  · split <;> decide
  · cases n.fraction with
    | none => exact List.not_mem_nil
    | some f =>
      intro hmem
      rcases List.mem_cons.mp hmem with heq | hmem
      · exact absurd heq (by decide)
      · exact quote_not_mem_digits f hmem
  · cases n.exponent with
    | none => exact List.not_mem_nil
    | some e =>
      intro hmem
      change '"' ∈ e.text at hmem
      unfold Exponent.text at hmem
      rw [List.mem_cons, List.mem_append] at hmem
      rcases hmem with heq | hmem | hmem
      · split at heq <;> exact absurd heq (by decide)
      · split at hmem <;> exact absurd hmem (by decide)
      · exact quote_not_mem_digits _ hmem

/-- What a value begins with is no colon. -/
theorem noColon_value (v : Value) (rest : Text) : NoColon (v.text ++ rest) := by
  cases v with
  | word w => cases w <;> exact noColon_cons (by decide)
  | number n =>
    unfold Value.text Number.text
    cases n.negative with
    | true => exact noColon_cons (by decide)
    | false =>
      have hfirst : Nat.digitChar n.whole.first ∈ digits (n.whole.first :: n.whole.rest) :=
        List.mem_cons_self
      exact noColon_digit (digit_mem hfirst)
  | string body | emptyArray inside | array elements | emptyObject inside | object members =>
    exact noColon_cons (by decide)

/-- Text without quotes on both sides of what is scanned adds no key. -/
theorem Scans.enclosed {a t b : Text} (rest : Text)
    (hsource : source = start ++ (a ++ (t ++ (b ++ rest)))) (ha : '"' ∉ a) (hb : '"' ∉ b)
    (h : Scans serde path source (start ++ a) ((start ++ a) ++ t) keys) :
    Scans serde path source start (start ++ (a ++ (t ++ b))) keys := by
  have hopen : Scans serde path source start (start ++ a) [] := Scans.skip _ hsource ha
  have hclose : Scans serde path source ((start ++ a) ++ t) ((start ++ a) ++ t ++ b) [] :=
    Scans.skip rest (by simp [hsource]) hb
  have hall := (hopen.trans h).trans hclose
  simp only [List.nil_append, List.append_nil, List.append_assoc] at hall
  exact hall

/-- A member up to its value. -/
theorem Scans.front {before afterKey beforeValue : List Blank} {key : Body} {rest : Text}
    (hsource : source = start ++ (blanks before ++ (key.quoted ++
      (blanks afterKey ++ ':' :: (blanks beforeValue ++ rest)))))
    (hdecoded : serde.string key.quoted = .ok key.value) :
    Scans serde path source start (start ++ (blanks before ++ (key.quoted ++
      (blanks afterKey ++ ':' :: blanks beforeValue))))
      [⟨start ++ (blanks before ++ ['"']), key⟩] := by
  have hbefore : Scans serde path source start (start ++ blanks before) [] :=
    Scans.skip _ hsource (quote_not_mem_blanks before)
  have hkey : Scans serde path source (start ++ blanks before)
      ((start ++ blanks before) ++ key.quoted) [⟨(start ++ blanks before) ++ ['"'], key⟩] :=
    Scans.key afterKey (blanks beforeValue ++ rest) (by simp [hsource]) hdecoded
  have hgap : Scans serde path source ((start ++ blanks before) ++ key.quoted)
      (((start ++ blanks before) ++ key.quoted) ++ (blanks afterKey ++ ':' ::
        blanks beforeValue)) [] :=
    Scans.skip rest (by simp [hsource]) (by simp [quote_not_mem_blanks])
  have hall := hbefore.trans (hkey.trans hgap)
  simp only [List.nil_append, List.append_nil, List.append_assoc] at hall
  exact hall

mutual

theorem scans_value : (v : Value) → ∀ start rest, source = start ++ (v.text ++ rest) →
    NoColon rest → (∀ key ∈ v.keys start, serde.string key.body.quoted = .ok key.body.value) →
    Scans serde path source start (start ++ v.text) (v.keys start)
  | .word w, start, rest, hsource, _, _ => by
    apply Scans.skip rest hsource
    cases w <;> decide
  | .number n, start, rest, hsource, _, _ => Scans.skip rest hsource (quote_not_mem_number n)
  | .string body, start, rest, hsource, hrest, _ => Scans.string hsource hrest
  | .emptyArray inside, start, rest, hsource, _, _ => by
    apply Scans.skip rest hsource
    unfold Value.text
    simp [quote_not_mem_blanks]
  | .emptyObject inside, start, rest, hsource, _, _ => by
    apply Scans.skip rest hsource
    unfold Value.text
    simp [quote_not_mem_blanks]
  | .array elements, start, rest, hsource, hrest, hdecoded => by
    unfold Value.text at hsource ⊢
    have hinside := scans_elements elements (start ++ ['[']) (']' :: rest) (by simp [hsource])
      (noColon_cons (by decide)) hdecoded
    exact hinside.enclosed rest (by simp [hsource]) (by decide) (by decide)
  | .object members, start, rest, hsource, hrest, hdecoded => by
    unfold Value.text at hsource ⊢
    have hinside := scans_members members (start ++ ['{']) ('}' :: rest) (by simp [hsource])
      (noColon_cons (by decide)) hdecoded
    exact hinside.enclosed rest (by simp [hsource]) (by decide) (by decide)

theorem scans_elements : (e : Elements) → ∀ start rest, source = start ++ (e.text ++ rest) →
    NoColon rest → (∀ key ∈ e.keys start, serde.string key.body.quoted = .ok key.body.value) →
    Scans serde path source start (start ++ e.text) (e.keys start)
  | .last before value after, start, rest, hsource, hrest, hdecoded => by
    unfold Elements.text at hsource ⊢
    have hvalue := scans_value value (start ++ blanks before) (blanks after ++ rest)
      (by simp [hsource]) (hrest.blanks after) hdecoded
    exact hvalue.enclosed rest (by simp [hsource]) (quote_not_mem_blanks before)
      (quote_not_mem_blanks after)
  | .more before value after others, start, rest, hsource, hrest, hdecoded => by
    unfold Elements.text at hsource ⊢
    unfold Elements.keys at hdecoded ⊢
    have hvalue := scans_value value (start ++ blanks before)
      (blanks after ++ ',' :: (others.text ++ rest)) (by simp [hsource])
      ((noColon_cons (by decide)).blanks after)
      fun key hkey => hdecoded key (List.mem_append_left _ hkey)
    have hfirst := @Scans.enclosed _ _ _ _ _ _ _ (blanks after ++ [',']) (others.text ++ rest)
      (by simp [hsource]) (quote_not_mem_blanks before) (by simp [quote_not_mem_blanks]) hvalue
    have hothers := scans_elements others
      (start ++ (blanks before ++ (value.text ++ (blanks after ++ [','])))) rest
      (by simp [hsource]) hrest fun key hkey => hdecoded key (List.mem_append_right _ hkey)
    have hall := hfirst.trans hothers
    simp only [List.append_assoc, List.singleton_append] at hall
    exact hall

theorem scans_members : (m : Members) → ∀ start rest, source = start ++ (m.text ++ rest) →
    NoColon rest → (∀ key ∈ m.keys start, serde.string key.body.quoted = .ok key.body.value) →
    Scans serde path source start (start ++ m.text) (m.keys start)
  | .last before key afterKey beforeValue value after, start, rest, hsource, hrest, hdecoded => by
    unfold Members.text at hsource ⊢
    unfold Members.keys at hdecoded ⊢
    have hfront := @Scans.front serde path source start before afterKey beforeValue key
      (value.text ++ (blanks after ++ rest)) (by simp [hsource]) (hdecoded _ List.mem_cons_self)
    have hvalue := scans_value value (start ++ (blanks before ++ (key.quoted ++ (blanks afterKey ++
      ':' :: blanks beforeValue)))) (blanks after ++ rest) (by simp [hsource])
      (hrest.blanks after) fun other hother => hdecoded other (List.mem_cons_of_mem _ hother)
    have hafter : Scans serde path source ((start ++ (blanks before ++ (key.quoted ++
        (blanks afterKey ++ ':' :: blanks beforeValue)))) ++ value.text) _ [] :=
      @Scans.skip serde path source _ (blanks after) rest (by simp [hsource])
        (quote_not_mem_blanks after)
    have hall := hfront.trans (hvalue.trans hafter)
    simp only [List.append_assoc, List.cons_append, List.append_nil, List.nil_append] at hall
    exact hall
  | .more before key afterKey beforeValue value after others, start, rest, hsource, hrest,
    hdecoded => by
    unfold Members.text at hsource ⊢
    unfold Members.keys at hdecoded ⊢
    have hfront := @Scans.front serde path source start before afterKey beforeValue key
      (value.text ++ (blanks after ++ ',' :: (others.text ++ rest))) (by simp [hsource])
      (hdecoded _ List.mem_cons_self)
    have hvalue := scans_value value (start ++ (blanks before ++ (key.quoted ++ (blanks afterKey ++
      ':' :: blanks beforeValue)))) (blanks after ++ ',' :: (others.text ++ rest))
      (by simp [hsource]) ((noColon_cons (by decide)).blanks after) fun other hother =>
        hdecoded other (List.mem_cons_of_mem _ (List.mem_append_left _ hother))
    have hafter : Scans serde path source ((start ++ (blanks before ++ (key.quoted ++
        (blanks afterKey ++ ':' :: blanks beforeValue)))) ++ value.text) _ [] :=
      @Scans.skip serde path source _ (blanks after ++ [',']) (others.text ++ rest)
        (by simp [hsource]) (by simp [quote_not_mem_blanks])
    have hothers := scans_members others (start ++ (blanks before ++ (key.quoted ++
      (blanks afterKey ++ ':' :: (blanks beforeValue ++ (value.text ++ (blanks after ++ [','])))))))
      rest (by simp [hsource]) hrest fun other hother =>
        hdecoded other (List.mem_cons_of_mem _ (List.mem_append_right _ hother))
    simp only [List.append_assoc, List.cons_append] at hfront hvalue hafter hothers
    have hall := hfront.trans (hvalue.trans (hafter.trans hothers))
    simp only [List.cons_append, List.nil_append] at hall
    exact hall

end

theorem noColon_later : ∀ later : List (Value × List Blank), NoColon (laterText later)
  | [] => by
    unfold NoColon
    decide
  | (value, _) :: _ => noColon_value value _

/-- The values of a stream one after another. -/
theorem scans_later : ∀ (later : List (Value × List Blank)) start,
    source = start ++ laterText later →
    (∀ key ∈ laterKeys start later, serde.string key.body.quoted = .ok key.body.value) →
    Scans serde path source start source (laterKeys start later) := by
  intro later
  induction later with
  | nil =>
    intro start hsource _
    have heq : source = start := by rw [hsource]; exact List.append_nil start
    rw [heq]
    intro ordinal storage
    exact congrArg _ (List.append_nil storage).symm
  | cons pair later ih =>
    obtain ⟨value, after⟩ := pair
    intro start hsource hdecoded
    unfold laterText at hsource
    unfold laterKeys at hdecoded ⊢
    have hvalue : Scans serde path source start (start ++ value.text) (value.keys start) :=
      scans_value value start (blanks after ++ laterText later) hsource
        ((noColon_later later).blanks after)
        fun key hkey => hdecoded key (List.mem_append_left _ hkey)
    have hafter : Scans serde path source (start ++ value.text)
        (start ++ value.text ++ blanks after) [] :=
      Scans.skip (laterText later) (by simp [hsource]) (quote_not_mem_blanks after)
    have hlater := ih (start ++ (value.text ++ blanks after)) (by simp [hsource])
      fun key hkey => hdecoded key (List.mem_append_right _ hkey)
    simp only [List.append_assoc] at hafter hlater
    have hall := hvalue.trans (hafter.trans hlater)
    simp only [List.nil_append] at hall
    exact hall

end Scan

theorem scanKeys_document (serde : SerdeJson) (path : Text) (doc : Document)
    (hdecoded : ∀ key ∈ doc.keys, serde.string key.body.quoted = .ok key.body.value) :
    scanKeys serde path doc.text 0 0 [] = some (.ok (keyAnchors path 0 doc.keys)) := by
  have hbefore : Scans serde path doc.text [] ([] ++ blanks doc.before) [] :=
    Scans.skip (laterText ((doc.first, doc.after) :: doc.later)) rfl
      (quote_not_mem_blanks doc.before)
  have hlater : Scans serde path doc.text (blanks doc.before) doc.text doc.keys :=
    scans_later _ (blanks doc.before) rfl hdecoded
  have hend := hbefore.trans hlater 0 []
  rw [List.nil_append, Nat.zero_add, List.nil_append] at hend
  change scanKeys serde path doc.text 0 0 [] = _ at hend
  rw [hend, scanKeys, dif_neg]
  rw [length_encode]
  exact Nat.lt_irrefl _

theorem lineBehind_le (t : Text) : lineBehind t ≤ byteLen t + 1 := by
  unfold lineBehind
  apply Nat.succ_le_succ
  induction t with
  | nil => exact Nat.le_refl 0
  | cons c t ih =>
    rw [List.count_cons, byteLen_cons]
    have := Char.utf8Size_pos c
    split
    · omega
    · omega

theorem columnBehind_le (t : Text) : columnBehind t ≤ byteLen t := by
  have hsplit : t = (t.reverse.dropWhile (· ≠ '\n')).reverse ++
      (t.reverse.takeWhile (· ≠ '\n')).reverse := by
    rw [← List.reverse_append, List.takeWhile_append_dropWhile, List.reverse_reverse]
  have hlength := congrArg byteLen hsplit
  rw [byteLen_append] at hlength
  unfold columnBehind
  omega

/-- In a source that the collector takes, no line or column reaches the end of its range. -/
theorem keyAnchor_span (path : Text) (earlier : Nat) {key : KeyAt} {after : Text}
    (hne : key.body ≠ [])
    (hsize : byteLen (key.before ++ (key.body.text ++ '"' :: after)) ≤ maxStructuralSourceBytes) :
    (keyAnchor path earlier key).span =
      ⟨lineBehind key.before, columnBehind key.before + 1, lineBehind key.before,
        columnBehind key.before + byteLen key.body.text⟩ := by
  have hline := lineBehind_le key.before
  have hcolumn := columnBehind_le key.before
  have hpositive : 0 < byteLen key.body.text := by
    apply Nat.pos_of_ne_zero
    intro hzero
    cases hbody : key.body with
    | nil => exact hne hbody
    | cons item body =>
      rw [hbody, byteLen_eq_zero] at hzero
      have hitem : item.text = [] := (List.append_eq_nil_iff.mp hzero).1
      cases item <;> cases hitem
  rw [byteLen_append, byteLen_append] at hsize
  have hmax : maxStructuralSourceBytes = 1048576 := rfl
  rw [hmax] at hsize
  unfold keyAnchor anchor StructuralSourceSpan.token clampU32
  dsimp only
  rw [Nat.max_eq_left hpositive, Nat.min_eq_left (by omega), Nat.min_eq_left (by omega),
    Nat.min_eq_left (by omega)]

/-- The anchors are those of the object keys, in their order. -/
theorem json_anchors_are_the_object_keys (serde : SerdeJson) (path : Text) (doc : Document)
    (count : Nat) (haccepted : serde.stream doc.text = .ok (count + 1))
    (hdecoded : ∀ key ∈ doc.keys, serde.string key.body.quoted = .ok key.body.value) :
    collectJsonEntities serde path doc.text = some (.ok (keyAnchors path 0 doc.keys)) ∧
      (∀ key ∈ doc.keys, ∃ front after, key.before = front ++ ['"'] ∧
        doc.text = key.before ++ (key.body.text ++ '"' :: after)) ∧
      (byteLen doc.text ≤ maxStructuralSourceBytes → ∀ key ∈ doc.keys, key.body ≠ [] →
        ∀ earlier, (keyAnchor path earlier key).span =
          ⟨lineBehind key.before, columnBehind key.before + 1, lineBehind key.before,
            columnBehind key.before + byteLen key.body.text⟩) := by
  refine ⟨?_, fun key hkey => doc.key_text hkey, ?_⟩
  · unfold collectJsonEntities
    rw [haccepted]
    exact scanKeys_document serde path doc hdecoded
  · intro hsize key hkey hne earlier
    obtain ⟨front, after, -, htext⟩ := doc.key_text hkey
    rw [htext] at hsize
    exact keyAnchor_span path earlier hne hsize

/-- `a\u0062` as a key. -/
def escapedKey : Body :=
  [.plain 'a' (by decide) (by decide) (by decide),
    .unit ⟨⟨0, false⟩, ⟨0, false⟩, ⟨6, false⟩, ⟨2, false⟩⟩ (by unfold CodeUnit.IsHigh; decide)
      (by unfold CodeUnit.IsLow; decide)]

/-- A string that looks like a member. -/
def deceptiveString : Body :=
  [.escaped .quote, .plain ':' (by decide) (by decide) (by decide), .escaped .backslash]

def sampleDocument : Document where
  before := []
  first := .object (.last [.lineFeed] escapedKey [.space] [.space]
    (.array (.more [] (.string deceptiveString) [] (.last [.space]
      (.object (.last [] [] [] [] (.word .nullWord) [])) []))) [])
  after := [.lineFeed]
  later := [(.string deceptiveString, [])]

def sampleSerde : SerdeJson where
  stream := fun source => if source = sampleDocument.text then .ok 2 else .error "unknown"
  string := fun quoted =>
    if quoted = escapedKey.quoted then .ok "ab".toList
    else if quoted = ['"', '"'] then .ok [] else .error "unknown"

theorem sample_anchors_are_the_object_keys :
    sampleDocument.keys.map (fun key => (key.body.value, lineBehind key.before)) =
        [("ab".toList, 2), ([], 2)] ∧
      collectJsonEntities sampleSerde "a.json".toList sampleDocument.text =
        some (.ok (keyAnchors "a.json".toList 0 sampleDocument.keys)) := by
  have hdecoded : ∀ key ∈ sampleDocument.keys,
      sampleSerde.string key.body.quoted = .ok key.body.value := by
    intro key hkey
    rcases List.mem_cons.mp hkey with rfl | hkey
    · rfl
    · rcases List.mem_cons.mp hkey with rfl | hkey
      · rfl
      · exact absurd hkey List.not_mem_nil
  have haccepted : sampleSerde.stream sampleDocument.text = .ok (1 + 1) := by
    unfold sampleSerde
    dsimp only
    rw [if_pos rfl]
  exact ⟨by decide, (json_anchors_are_the_object_keys sampleSerde "a.json".toList sampleDocument 1
    haccepted hdecoded).1⟩

end CodeStory.Structural
