import CodeStory.Graph.Tables
import CodeStory.Lib.Encoding
import CodeStory.Lib.SortedMap
import CodeStory.Retrieval.FileRoles
import Mathlib.Data.String.Basic

/-!
# The fingerprint of the sidecar inputs

`compute_sidecar_input_fingerprint_with_lexical_source`: what is fed to the hash, and what of the
inputs it determines. The symbol docs and the dense anchors are lists in the order in which the
batches of the store return them. The digest and the JSON text of the reason counts are
parameters; the lexical fingerprint enters as its count and hash. Columns that are not hashed are
left out.
-/

set_option autoImplicit false

namespace CodeStory.Retrieval

open Encoding

structure CorePublication where
  generationId : String
  runId : String
  deriving DecidableEq

structure SidecarEmbeddingContract where
  backend : String
  dimension : Int
  producerCompatibilityIdentity : String
  deriving DecidableEq

structure DenseAnchorInput where
  nodeId : Int
  kind : Graph.NodeKind
  displayName : String
  qualifiedName : Option String
  filePath : Option String
  startLine : Option Nat
  endLine : Option Nat
  fileRole : FileRole
  sourceProvenance : String
  text : String
  documentHash : String
  selectionReason : String
  policyVersion : String
  deriving DecidableEq

structure SymbolSearchDoc where
  nodeId : Int
  fileNodeId : Option Int
  kind : Graph.NodeKind
  displayName : String
  qualifiedName : Option String
  filePath : Option String
  startLine : Option Nat
  docVersion : Nat
  docHash : String
  policyVersion : String
  sourceProvenance : String
  deriving DecidableEq

structure SidecarInputs where
  projectId : String
  publication : Option CorePublication
  lexicalFileCount : Nat
  lexicalHash : String
  embedding : SidecarEmbeddingContract
  symbolDocs : List SymbolSearchDoc
  anchors : List DenseAnchorInput

def FileRole.asStr : FileRole → String
  | .source => "source"
  | .entrypoint => "entrypoint"
  | .test => "test"
  | .docs => "docs"
  | .benchmark => "benchmark"
  | .generated => "generated"
  | .vendor => "vendor"

/-! ## Paths -/

/-- A segment that is no component of a path. -/
def isTrivialSegment (segment : List Char) : Bool := segment = [] || segment = ['.']

/-- `strip_prefix` on the segments of an absolute path. -/
def stripSegments : List (List Char) → List (List Char) → Option (List (List Char))
  | [], segments => some segments
  | _ :: _, [] => none
  | component :: root, segment :: segments =>
    if isTrivialSegment segment then stripSegments (component :: root) segments
    else if segment = component then stripSegments root segments
    else none

def segmentsOf (path : String) : List (List Char) := path.toList.splitOnP (· = '/')

/-- The remaining components as text, without separators around them. -/
def remainingPath (segments : List (List Char)) : List Char :=
  ['/'].intercalate
    ((segments.dropWhile isTrivialSegment).reverse.dropWhile isTrivialSegment).reverse

def normalizeSidecarFilePath (projectRoot path : String) : Option String :=
  if ['/'].isPrefixOf path.toList then
    if ['/'].isPrefixOf projectRoot.toList then
      (stripSegments ((segmentsOf projectRoot).filter fun s => !isTrivialSegment s)
        (segmentsOf path)).map fun rest => String.ofList (forwardSlashes (remainingPath rest))
    else none
  else some (String.ofList (forwardSlashes path.toList))

def hashedPath (projectRoot : String) (filePath : Option String) : String :=
  (filePath.bind (normalizeSidecarFilePath projectRoot)).getD ""

def hashedRole (path : String) : String :=
  if path = "" then "" else (FileRole.classifyPath path).asStr

/-! ## The parts -/

/-- `to_string` of an optional number, or nothing. -/
def optionalNumber (number : Option Nat) : String := (number.map Nat.repr).getD ""

def kindNumber (kind : Graph.NodeKind) : String := kind.ctorIdx.repr

def symbolParts (projectRoot : String) (doc : SymbolSearchDoc) : List String :=
  let filePath := hashedPath projectRoot doc.filePath
  [doc.nodeId.repr, (doc.fileNodeId.map Int.repr).getD "", kindNumber doc.kind, doc.displayName,
    doc.qualifiedName.getD "", filePath, hashedRole filePath, optionalNumber doc.startLine,
    doc.docVersion.repr, doc.docHash, doc.policyVersion, doc.sourceProvenance]

def anchorParts (projectRoot : String) (doc : DenseAnchorInput) : List String :=
  let filePath := hashedPath projectRoot doc.filePath
  [doc.nodeId.repr, kindNumber doc.kind, doc.displayName, doc.qualifiedName.getD "", filePath,
    hashedRole filePath, optionalNumber doc.startLine, optionalNumber doc.endLine,
    doc.fileRole.asStr, doc.sourceProvenance, doc.text, doc.documentHash, doc.selectionReason,
    doc.policyVersion]

def observePolicyVersion (observed : List String) (policy : String) : List String :=
  let trimmed := trim policy
  if trimmed = "" ∨ trimmed ∈ observed then observed else observed ++ [trimmed]

def semanticPolicyVersion (inputs : SidecarInputs) : String :=
  match (inputs.symbolDocs.map (·.policyVersion) ++ inputs.anchors.map (·.policyVersion)).foldl
      observePolicyVersion [] with
  | [] => "graph_first_v2"
  | [policy] => policy
  | _ => "mixed"

def denseReasonCounts (anchors : List DenseAnchorInput) : SortedMap String Nat :=
  anchors.foldl (fun counts doc =>
    counts.put doc.selectionReason ((counts.get doc.selectionReason).getD 0 + 1)) SortedMap.empty

section Preimage
variable (sha256 : List UInt8 → String) (toJson : SortedMap String Nat → String)
  (projectRoot : String)

def hashParts (parts : List String) : List UInt8 := parts.flatMap lengthPrefixed

def graphParts (inputs : SidecarInputs) : List String :=
  "codestory-symbol-search-docs-v1" :: inputs.symbolDocs.flatMap (symbolParts projectRoot)

def graphArtifactHash (inputs : SidecarInputs) : String :=
  sha256 (hashParts (graphParts projectRoot inputs))

/-- The ids of the core publication, or the placeholder for both. -/
def coreIds (publication : Option CorePublication) : String × String :=
  ((publication.map (·.generationId)).getD "<missing>",
    (publication.map (·.runId)).getD "<missing>")

def headerParts (inputs : SidecarInputs) : List String :=
  ["codestory-sidecar-input-v10", inputs.projectId, (coreIds inputs.publication).1,
    (coreIds inputs.publication).2, sidecarSchemaVersion.repr, lexicalIndexVersion,
    inputs.lexicalFileCount.repr, inputs.lexicalHash, inputs.embedding.backend,
    inputs.embedding.dimension.repr, inputs.embedding.producerCompatibilityIdentity,
    "dense-anchor-inputs-v1", "scip-symbols-json-v1", inputs.symbolDocs.length.repr,
    graphArtifactHash sha256 projectRoot inputs]

def trailerParts (inputs : SidecarInputs) : List String :=
  [semanticPolicyVersion inputs, inputs.anchors.length.repr,
    toJson (denseReasonCounts inputs.anchors)]

/-- The values of all calls of `hash_part`, in order. -/
def sidecarParts (inputs : SidecarInputs) : List String :=
  headerParts sha256 projectRoot inputs ++
    (inputs.anchors.flatMap (anchorParts projectRoot) ++ trailerParts toJson inputs)

def sidecarPreimage (inputs : SidecarInputs) : List UInt8 :=
  hashParts (sidecarParts sha256 toJson projectRoot inputs)

end Preimage
/-! ## Reading the parts back -/

/-- The anchor with the optional texts as they are hashed. -/
def DenseAnchorInput.hashed (projectRoot : String) (doc : DenseAnchorInput) : DenseAnchorInput :=
  { doc with
    qualifiedName := some (doc.qualifiedName.getD "")
    filePath := some (hashedPath projectRoot doc.filePath) }

def SymbolSearchDoc.hashed (projectRoot : String) (doc : SymbolSearchDoc) : SymbolSearchDoc :=
  { doc with
    qualifiedName := some (doc.qualifiedName.getD "")
    filePath := some (hashedPath projectRoot doc.filePath) }

theorem kindNumber_inj {kind kind' : Graph.NodeKind} (h : kindNumber kind = kindNumber kind') :
    kind = kind' := by
  have hindex : kind.ctorIdx = kind'.ctorIdx := repr_inj h
  rw [← Graph.NodeKind.ofNat_ctorIdx kind, hindex, Graph.NodeKind.ofNat_ctorIdx]

theorem optionalNumber_inj {m n : Option Nat} (h : optionalNumber m = optionalNumber n) :
    m = n := by
  cases m with
  | none =>
    cases n with
    | none => rfl
    | some n => exact absurd h.symm Nat.repr_ne_empty
  | some m =>
    cases n with
    | none => exact absurd h Nat.repr_ne_empty
    | some n => exact congrArg some (repr_inj h)

theorem optionalId_inj {m n : Option Int}
    (h : (m.map Int.repr).getD "" = (n.map Int.repr).getD "") : m = n := by
  cases m with
  | none =>
    cases n with
    | none => rfl
    | some n => exact absurd h.symm (int_repr_ne_empty n)
  | some m =>
    cases n with
    | none => exact absurd h (int_repr_ne_empty m)
    | some n => exact congrArg some (int_repr_inj h)

theorem asStr_inj {role role' : FileRole} (h : role.asStr = role'.asStr) : role = role' := by
  cases role <;> cases role' <;> first | rfl | exact absurd h (by decide)

section Records
variable (projectRoot : String)

theorem length_anchorParts (doc : DenseAnchorInput) : (anchorParts projectRoot doc).length = 14 :=
  rfl

theorem length_symbolParts (doc : SymbolSearchDoc) : (symbolParts projectRoot doc).length = 12 :=
  rfl

/-- Fourteen parts determine an anchor. -/
theorem prefixFree_anchorParts :
    PrefixFree (fun _ => True) (DenseAnchorInput.hashed projectRoot)
      (anchorParts projectRoot) := by
  intro doc doc' x y _ _ h
  obtain ⟨hparts, hrest⟩ := List.append_inj h
    ((length_anchorParts projectRoot doc).trans (length_anchorParts projectRoot doc').symm)
  refine ⟨?_, hrest⟩
  unfold anchorParts at hparts
  simp only [List.cons.injEq, and_true] at hparts
  obtain ⟨hnode, hkind, hname, hqualified, hpath, _, hstart, hend, hrole, hprovenance, htext,
    hhash, hreason, hpolicy⟩ := hparts
  unfold DenseAnchorInput.hashed
  rw [int_repr_inj hnode, kindNumber_inj hkind, hname, hqualified, hpath,
    optionalNumber_inj hstart, optionalNumber_inj hend, asStr_inj hrole, hprovenance, htext, hhash,
    hreason, hpolicy]

/-- Twelve parts determine a symbol doc. -/
theorem prefixFree_symbolParts :
    PrefixFree (fun _ => True) (SymbolSearchDoc.hashed projectRoot) (symbolParts projectRoot) := by
  intro doc doc' x y _ _ h
  obtain ⟨hparts, hrest⟩ := List.append_inj h
    ((length_symbolParts projectRoot doc).trans (length_symbolParts projectRoot doc').symm)
  refine ⟨?_, hrest⟩
  unfold symbolParts at hparts
  simp only [List.cons.injEq, and_true] at hparts
  obtain ⟨hnode, hfile, hkind, hname, hqualified, hpath, _, hstart, hversion, hhash, hpolicy,
    hprovenance⟩ := hparts
  unfold SymbolSearchDoc.hashed
  rw [int_repr_inj hnode, optionalId_inj hfile, kindNumber_inj hkind, hname, hqualified, hpath,
    optionalNumber_inj hstart, repr_inj hversion, hhash, hpolicy, hprovenance]

theorem length_flatMap_anchorParts (anchors : List DenseAnchorInput) :
    (anchors.flatMap (anchorParts projectRoot)).length = 14 * anchors.length := by
  induction anchors with
  | nil => rfl
  | cons doc rest ih =>
    rw [List.flatMap_cons, List.length_append, length_anchorParts, ih, List.length_cons]
    omega

theorem anchorParts_ne_nil (doc : DenseAnchorInput) : anchorParts projectRoot doc ≠ [] :=
  List.cons_ne_nil _ _

theorem symbolParts_ne_nil (doc : SymbolSearchDoc) : symbolParts projectRoot doc ≠ [] :=
  List.cons_ne_nil _ _

end Records

theorem hashParts_inj {parts parts' : List String} (haddressable : ∀ p ∈ parts, Addressable p)
    (haddressable' : ∀ p ∈ parts', Addressable p) (h : hashParts parts = hashParts parts') :
    parts = parts' := by
  have hmap := prefixFree_lengthPrefixed.flatMap_inj lengthPrefixed_ne_nil haddressable
    haddressable' h
  rwa [List.map_id, List.map_id] at hmap

section Fingerprint
variable {sha256 : List UInt8 → String} {toJson : SortedMap String Nat → String}
  {projectRoot : String}

/-- The records between the header and the trailer are cut by counting parts. -/
theorem sidecarParts_inj {inputs inputs' : SidecarInputs}
    (h : sidecarParts sha256 toJson projectRoot inputs =
      sidecarParts sha256 toJson projectRoot inputs') :
    headerParts sha256 projectRoot inputs = headerParts sha256 projectRoot inputs' ∧
      inputs.anchors.length = inputs'.anchors.length ∧
      inputs.anchors.map (·.hashed projectRoot) = inputs'.anchors.map (·.hashed projectRoot) := by
  unfold sidecarParts at h
  obtain ⟨hheader, hrest⟩ := List.append_inj h rfl
  have hlength := congrArg List.length hrest
  rw [List.length_append, List.length_append, length_flatMap_anchorParts,
    length_flatMap_anchorParts] at hlength
  have htrailer : (trailerParts toJson inputs).length = (trailerParts toJson inputs').length := rfl
  have hcount : inputs.anchors.length = inputs'.anchors.length := by omega
  obtain ⟨hanchors, _⟩ := List.append_inj hrest (by
    rw [length_flatMap_anchorParts, length_flatMap_anchorParts, hcount])
  refine ⟨hheader, hcount, ?_⟩
  exact (prefixFree_anchorParts projectRoot).flatMap_inj (anchorParts_ne_nil projectRoot)
    (fun _ _ => trivial) (fun _ _ => trivial) hanchors

theorem symbolDocs_of_graphParts_eq {inputs inputs' : SidecarInputs}
    (h : graphParts projectRoot inputs = graphParts projectRoot inputs') :
    inputs.symbolDocs.map (·.hashed projectRoot) =
      inputs'.symbolDocs.map (·.hashed projectRoot) :=
  (prefixFree_symbolParts projectRoot).flatMap_inj (symbolParts_ne_nil projectRoot)
    (fun _ _ => trivial) (fun _ _ => trivial) (List.cons.inj h).2

/-- Equal, or both hashed as the placeholder. -/
def SameCore (publication publication' : Option CorePublication) : Prop :=
  publication = publication' ∨
    (coreIds publication = ("<missing>", "<missing>") ∧
      coreIds publication' = ("<missing>", "<missing>"))

theorem sameCore_of_coreIds_eq {publication publication' : Option CorePublication}
    (h : coreIds publication = coreIds publication') : SameCore publication publication' := by
  cases publication with
  | none => exact Or.inr ⟨rfl, h.symm⟩
  | some p =>
    cases publication' with
    | none => exact Or.inr ⟨h, rfl⟩
    | some p' =>
      left
      obtain ⟨generationId, runId⟩ := p
      obtain ⟨generationId', runId'⟩ := p'
      have hgeneration : generationId = generationId' := congrArg Prod.fst h
      have hrun : runId = runId' := congrArg Prod.snd h
      rw [hgeneration, hrun]

end Fingerprint

/-- Equal preimages come from equal inputs, up to absent texts and an absent publication; the
symbol docs enter through the digest of their own stream. -/
theorem sidecar_preimage_determines_inputs (sha256 : List UInt8 → String)
    (toJson : SortedMap String Nat → String) (projectRoot : String)
    (inputs inputs' : SidecarInputs)
    (haddressable : ∀ p ∈ sidecarParts sha256 toJson projectRoot inputs, Addressable p)
    (haddressable' : ∀ p ∈ sidecarParts sha256 toJson projectRoot inputs', Addressable p)
    (hgraph : ∀ p ∈ graphParts projectRoot inputs, Addressable p)
    (hgraph' : ∀ p ∈ graphParts projectRoot inputs', Addressable p)
    (h : sidecarPreimage sha256 toJson projectRoot inputs =
      sidecarPreimage sha256 toJson projectRoot inputs') :
    inputs.projectId = inputs'.projectId ∧ SameCore inputs.publication inputs'.publication ∧
    inputs.lexicalFileCount = inputs'.lexicalFileCount ∧
    inputs.lexicalHash = inputs'.lexicalHash ∧ inputs.embedding = inputs'.embedding ∧
    inputs.anchors.length = inputs'.anchors.length ∧
    inputs.anchors.map (·.hashed projectRoot) = inputs'.anchors.map (·.hashed projectRoot) ∧
    ((graphArtifactHash sha256 projectRoot inputs = graphArtifactHash sha256 projectRoot inputs' →
        hashParts (graphParts projectRoot inputs) = hashParts (graphParts projectRoot inputs')) →
      inputs.symbolDocs.map (·.hashed projectRoot) =
        inputs'.symbolDocs.map (·.hashed projectRoot)) := by
  obtain ⟨hheader, hcount, hanchors⟩ :=
    sidecarParts_inj (hashParts_inj haddressable haddressable' h)
  unfold headerParts at hheader
  simp only [List.cons.injEq, and_true, true_and] at hheader
  obtain ⟨hproject, hgeneration, hrun, hfiles, hlexical, hbackend, hdimension, hproducer, _,
    hhash⟩ := hheader
  have hembedding : inputs.embedding = inputs'.embedding := by
    cases he : inputs.embedding with
    | mk backend dimension producer =>
      cases he' : inputs'.embedding with
      | mk backend' dimension' producer' =>
        rw [he, he'] at hbackend hdimension hproducer
        rw [show backend = backend' from hbackend, show producer = producer' from hproducer,
          show dimension = dimension' from int_repr_inj hdimension]
  refine ⟨hproject, sameCore_of_coreIds_eq (Prod.ext hgeneration hrun), repr_inj hfiles, hlexical,
    hembedding, hcount, hanchors, ?_⟩
  intro hcollision
  exact symbolDocs_of_graphParts_eq (hashParts_inj hgraph hgraph' (hcollision hhash))

/-- One anchor, of a qualified name or without one. -/
def anchorInputs (publication : Option CorePublication) (qualifiedName : Option String) :
    SidecarInputs where
  projectId := "demo"
  publication := publication
  lexicalFileCount := 0
  lexicalHash := "l"
  embedding := ⟨"onnx", 384, "p"⟩
  symbolDocs := []
  anchors := [⟨7, .functionNode, "f", qualifiedName, some "src/a.rs", some 1, none, .source,
    "graph", "fn f", "d", "public_api", "graph_first_v2"⟩]

/-- The digest of the stream without symbol docs. -/
def emptyGraphDigest : List UInt8 → String := fun _ =>
  "57c60afe3c3196e0d4d9a354bbfc98fb692c83adce372aaf29486e676a29fd07"

/-- The counts of one anchor selected as public API. -/
def publicApiCounts : SortedMap String Nat → String := fun _ => "\x7b\"public_api\":1\x7d"

theorem sidecar_preimage_determines_inputs_anchor :
    SameCore (anchorInputs none none).publication (anchorInputs none (some "")).publication ∧
    (anchorInputs none none).anchors.map (·.hashed "/p") =
      (anchorInputs none (some "")).anchors.map (·.hashed "/p") := by
  obtain ⟨_, hcore, _, _, _, _, hanchors, _⟩ :=
    sidecar_preimage_determines_inputs emptyGraphDigest publicApiCounts "/p"
      (anchorInputs none none) (anchorInputs none (some "")) (by decide +kernel)
      (by decide +kernel) (by decide) (by decide) (by decide +kernel)
  exact ⟨hcore, hanchors⟩

/-- No publication, and one whose ids are the placeholder. -/
theorem missing_publication_is_hashed_as_its_placeholder :
    (∀ (sha256 : List UInt8 → String) (toJson : SortedMap String Nat → String)
      (projectRoot : String),
      sidecarPreimage sha256 toJson projectRoot (anchorInputs none none) =
        sidecarPreimage sha256 toJson projectRoot
          (anchorInputs (some ⟨"<missing>", "<missing>"⟩) none)) ∧
    (anchorInputs none none).publication ≠
      (anchorInputs (some ⟨"<missing>", "<missing>"⟩) none).publication := by
  refine ⟨?_, by decide⟩
  intro sha256 toJson projectRoot
  rfl

end CodeStory.Retrieval
