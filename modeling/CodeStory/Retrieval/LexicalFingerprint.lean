import Mathlib.Algebra.Ring.Nat
import CodeStory.Lib.Encoding
import CodeStory.Retrieval.Manifest

/-!
# The fingerprint of the lexical documents

What `hash_lexical_document` feeds to the hash, and what of the documents a fingerprint
determines. The digest is a parameter; the coverage record enters as the JSON text that is
appended to the stream.
-/

set_option autoImplicit false

namespace CodeStory.Retrieval

open Encoding

inductive LexicalDocumentSource where
  | lexicalSource
  | symbolDoc
  | componentReport
  deriving DecidableEq, Repr

def LexicalDocumentSource.provenanceLabel : LexicalDocumentSource → String
  | .lexicalSource => "lexical_source"
  | .symbolDoc => "symbol_doc"
  | .componentReport => "component_report"

structure LexicalDocument where
  path : String
  content : String
  source : LexicalDocumentSource
  nodeId : Option String
  symbolName : Option String
  startLine : Option UInt32
  deriving DecidableEq

/-- The bytes that `hash_lexical_document` adds. -/
def hashLexicalDocument (document : LexicalDocument) : List UInt8 :=
  terminated document.path ++ (terminated document.content ++
    (terminated document.source.provenanceLabel ++ (terminated (document.nodeId.getD "") ++
      (terminated (document.symbolName.getD "") ++
        littleEndian 4 (document.startLine.getD 0).toNat))))

/-- Everything that is hashed: the opening, the documents and the coverage. -/
def lexicalPreimage (documents : List LexicalDocument) (coverageJson : String) : List UInt8 :=
  utf8 "codestory-sqlite-lexical-v1" ++ utf8 lexicalIndexVersion ++
    documents.flatMap hashLexicalDocument ++ utf8 coverageJson

structure LexicalInputFingerprint where
  fileCount : Nat
  hash : String
  coverageJson : String
  deriving DecidableEq

/-- The count saturates at `u32::MAX`. -/
def lexicalInputFingerprint (sha256 : List UInt8 → String) (documents : List LexicalDocument)
    (coverageJson : String) : LexicalInputFingerprint where
  fileCount := min documents.length (2 ^ 32 - 1)
  hash := sha256 (lexicalPreimage documents coverageJson)
  coverageJson := coverageJson

/-- The last check of `validate_open_database_metadata`. -/
def matchesLexicalInput (shard expected : LexicalInputFingerprint) : Bool :=
  shard.fileCount = expected.fileCount && shard.hash = expected.hash

/-- The document with its optional fields as they are hashed. -/
def LexicalDocument.hashed (document : LexicalDocument) : LexicalDocument :=
  { document with
    nodeId := some (document.nodeId.getD "")
    symbolName := some (document.symbolName.getD "")
    startLine := some (document.startLine.getD 0) }

/-- No text of the document holds the separator. -/
def LexicalDocument.NulFree (document : LexicalDocument) : Prop :=
  0 ∉ utf8 document.path ∧ 0 ∉ utf8 document.content ∧ 0 ∉ utf8 (document.nodeId.getD "") ∧
    0 ∉ utf8 (document.symbolName.getD "")

instance (document : LexicalDocument) : Decidable document.NulFree :=
  inferInstanceAs (Decidable (_ ∧ _ ∧ _ ∧ _))

theorem nulFree_provenanceLabel (source : LexicalDocumentSource) :
    0 ∉ utf8 source.provenanceLabel := by
  cases source <;> decide

theorem provenanceLabel_inj {source source' : LexicalDocumentSource}
    (h : source.provenanceLabel = source'.provenanceLabel) : source = source' := by
  cases source <;> cases source' <;> first | rfl | exact absurd h (by decide)

/-- A document at the front of a stream is read back up to its optional fields. -/
theorem prefixFree_hashLexicalDocument :
    PrefixFree LexicalDocument.NulFree LexicalDocument.hashed hashLexicalDocument := by
  intro document document' x y hfree hfree' h
  obtain ⟨hpath, hcontent, hnode, hsymbol⟩ := hfree
  obtain ⟨hpath', hcontent', hnode', hsymbol'⟩ := hfree'
  unfold hashLexicalDocument at h
  simp only [List.append_assoc] at h
  obtain ⟨hp, h⟩ := terminated_append_inj hpath hpath' h
  obtain ⟨hc, h⟩ := terminated_append_inj hcontent hcontent' h
  obtain ⟨hl, h⟩ := terminated_append_inj (nulFree_provenanceLabel _) (nulFree_provenanceLabel _) h
  obtain ⟨hn, h⟩ := terminated_append_inj hnode hnode' h
  obtain ⟨hs, h⟩ := terminated_append_inj hsymbol hsymbol' h
  obtain ⟨hline, hrest⟩ := List.append_inj h
    ((length_littleEndian 4 _).trans (length_littleEndian 4 _).symm)
  have hstart : document.startLine.getD 0 = document'.startLine.getD 0 :=
    UInt32.toNat_inj.mp (littleEndian_inj (UInt32.toNat_lt _) (UInt32.toNat_lt _) hline)
  refine ⟨?_, hrest⟩
  unfold LexicalDocument.hashed
  rw [hn, hs, hstart, hp, hc, provenanceLabel_inj hl]

theorem hashLexicalDocument_ne_nil (document : LexicalDocument) :
    hashLexicalDocument document ≠ [] := by
  unfold hashLexicalDocument terminated
  simp

theorem documents_of_preimage_eq {documents documents' : List LexicalDocument}
    {coverageJson : String}
    (h : lexicalPreimage documents coverageJson = lexicalPreimage documents' coverageJson) :
    documents.flatMap hashLexicalDocument = documents'.flatMap hashLexicalDocument := by
  unfold lexicalPreimage at h
  exact List.append_cancel_left (List.append_cancel_right h)

/-- Documents without zero bytes are determined by their bytes, up to what absent fields are
hashed as, and with a digest that does not confuse the two inputs a shard that matches the
current input was built from the same documents. -/
theorem fingerprint_determines_documents (documents documents' : List LexicalDocument)
    (hfree : ∀ d ∈ documents, d.NulFree) (hfree' : ∀ d ∈ documents', d.NulFree) :
    (documents.flatMap hashLexicalDocument = documents'.flatMap hashLexicalDocument →
      documents.map (·.hashed) = documents'.map (·.hashed)) ∧
    ∀ (sha256 : List UInt8 → String) (coverageJson : String),
      (sha256 (lexicalPreimage documents coverageJson) =
          sha256 (lexicalPreimage documents' coverageJson) →
        lexicalPreimage documents coverageJson = lexicalPreimage documents' coverageJson) →
      matchesLexicalInput (lexicalInputFingerprint sha256 documents coverageJson)
        (lexicalInputFingerprint sha256 documents' coverageJson) = true →
      documents.map (·.hashed) = documents'.map (·.hashed) := by
  have hstream : documents.flatMap hashLexicalDocument = documents'.flatMap hashLexicalDocument →
      documents.map (·.hashed) = documents'.map (·.hashed) :=
    prefixFree_hashLexicalDocument.flatMap_inj hashLexicalDocument_ne_nil hfree hfree'
  refine ⟨hstream, ?_⟩
  intro sha256 coverageJson hcollision hmatch
  have hhash : sha256 (lexicalPreimage documents coverageJson) =
      sha256 (lexicalPreimage documents' coverageJson) :=
    of_decide_eq_true (Bool.and_eq_true_iff.mp hmatch).2
  exact hstream (documents_of_preimage_eq (hcollision hhash))

/-- A source file. -/
def sourceDocument (path content : String) : LexicalDocument :=
  ⟨path, content, .lexicalSource, none, none, none⟩

/-- A symbol with or without a line. -/
def symbolAt (startLine : Option UInt32) : LexicalDocument :=
  ⟨"a.rs", "fn f", .symbolDoc, some "7", some "f", startLine⟩

/-- A source file and a symbol of it. -/
def fileAndSymbol (startLine : Option UInt32) : List LexicalDocument :=
  [sourceDocument "a.rs" "fn f() {}", symbolAt startLine]

theorem fingerprint_determines_documents_symbol :
    ((fileAndSymbol none).flatMap hashLexicalDocument =
        (fileAndSymbol (some 0)).flatMap hashLexicalDocument →
      (fileAndSymbol none).map (·.hashed) = (fileAndSymbol (some 0)).map (·.hashed)) ∧
    ∀ (sha256 : List UInt8 → String) (coverageJson : String),
      (sha256 (lexicalPreimage (fileAndSymbol none) coverageJson) =
          sha256 (lexicalPreimage (fileAndSymbol (some 0)) coverageJson) →
        lexicalPreimage (fileAndSymbol none) coverageJson =
          lexicalPreimage (fileAndSymbol (some 0)) coverageJson) →
      matchesLexicalInput (lexicalInputFingerprint sha256 (fileAndSymbol none) coverageJson)
        (lexicalInputFingerprint sha256 (fileAndSymbol (some 0)) coverageJson) = true →
      (fileAndSymbol none).map (·.hashed) = (fileAndSymbol (some 0)).map (·.hashed) :=
  fingerprint_determines_documents (fileAndSymbol none) (fileAndSymbol (some 0))
    (by decide) (by decide)

/-- The framing of a source document between its content and the path of the next. -/
def sourceFraming : String := "\x00lexical_source\x00\x00\x00\x00\x00\x00\x00"

/-- An absent line is hashed as line 0, and the content of a file can imitate the end of one
document and the beginning of the next. -/
theorem different_documents_with_equal_bytes :
    ([symbolAt none].flatMap hashLexicalDocument = [symbolAt (some 0)].flatMap hashLexicalDocument ∧
      [symbolAt none] ≠ [symbolAt (some 0)]) ∧
    ([sourceDocument "a.rs" ("x" ++ sourceFraming ++ "b.rs\x00y"),
        sourceDocument "c.rs" "z"].flatMap hashLexicalDocument =
      [sourceDocument "a.rs" "x",
        sourceDocument "b.rs" ("y" ++ sourceFraming ++ "c.rs\x00z")].flatMap
          hashLexicalDocument ∧
      [sourceDocument "a.rs" ("x" ++ sourceFraming ++ "b.rs\x00y"), sourceDocument "c.rs" "z"].map
          (·.hashed) ≠
        [sourceDocument "a.rs" "x",
          sourceDocument "b.rs" ("y" ++ sourceFraming ++ "c.rs\x00z")].map (·.hashed)) := by
  decide

end CodeStory.Retrieval
