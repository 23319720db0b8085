import CodeStory.Lib.Text
import CodeStory.Lib.Utf8Text

/-!
# Resource URIs

`StdioResource` of the stdio transport: the fixed resources, the resources of a node, the project
selector, and the strict percent encoding of both. An error is its outermost message.
-/

set_option autoImplicit false

namespace CodeStory.Stdio

open Utf8Text
open Text (splitOnce stripPrefix Tight trimChars)

inductive StdioResource where
  | status
  | retrievalEngineDiagnostics
  | agentGuide
  | project
  | grounding
  | rootSymbols
  | symbol (nodeId : Text)
  | references (nodeId : Text)
  | snippet (nodeId : Text)
  | trail (nodeId : Text)
  deriving DecidableEq

structure ParsedStdioResource where
  resource : StdioResource
  project : Option Text
  uri : Text
  deriving DecidableEq

/-! ## Components -/

/-- ASCII letters and digits, and `-`, `.`, `_`, `~`. -/
def isUnreserved (byte : UInt8) : Bool :=
  (48 ≤ byte && byte ≤ 57) || (65 ≤ byte && byte ≤ 90) || (97 ≤ byte && byte ≤ 122) ||
    byte == 45 || byte == 46 || byte == 95 || byte == 126

def hexDigit (n : Nat) : Char := if n < 10 then Char.ofNat (48 + n) else Char.ofNat (55 + n)

def encodeByte (byte : UInt8) : Text :=
  if isUnreserved byte then [Char.ofNat byte.toNat]
  else ['%', hexDigit (byte.toNat / 16), hexDigit (byte.toNat % 16)]

def strictUriComponentEncode (value : Text) : Text := (encode value).flatMap encodeByte

def canonicalHexValue (byte : UInt8) : Option UInt8 :=
  if 48 ≤ byte && byte ≤ 57 then some (byte - 48)
  else if 65 ≤ byte && byte ≤ 70 then some (byte - 65 + 10)
  else none

def decodeBytes (label : String) : List UInt8 → Except String (List UInt8)
  | [] => .ok []
  | byte :: rest =>
    if isUnreserved byte then do
      let decoded ← decodeBytes label rest
      .ok (byte :: decoded)
    else
      match rest with
      | first :: second :: rest =>
        if byte ≠ 37 then .error (label ++ " uses a non-canonical URI encoding")
        else
          match canonicalHexValue first, canonicalHexValue second with
          | some high, some low => do
            let decoded ← decodeBytes label rest
            .ok ((high <<< 4 ||| low) :: decoded)
          | _, _ => .error (label ++ " contains an invalid percent escape")
      | _ => .error (label ++ " uses a non-canonical URI encoding")

def strictUriComponentDecode (value : Text) (label : String) : Except String Text := do
  let bytes ← decodeBytes label (encode value)
  match decode bytes with
  | none => .error (label ++ " is not valid UTF-8")
  | some decoded =>
    if strictUriComponentEncode decoded ≠ value then
      .error (label ++ " uses a non-canonical URI encoding")
    else .ok decoded

/-! ## Resources -/

def StdioResource.baseUri : StdioResource → Text
  | .status => "codestory://status".toList
  | .retrievalEngineDiagnostics => "codestory://diagnostics/retrieval-engine".toList
  | .agentGuide => "codestory://agent-guide".toList
  | .project => "codestory://project".toList
  | .grounding => "codestory://grounding".toList
  | .rootSymbols => "codestory://symbols/root".toList
  | .symbol nodeId => "codestory://symbol/".toList ++ strictUriComponentEncode nodeId
  | .references nodeId => "codestory://references/".toList ++ strictUriComponentEncode nodeId
  | .snippet nodeId => "codestory://snippet/".toList ++ strictUriComponentEncode nodeId
  | .trail nodeId => "codestory://trail/".toList ++ strictUriComponentEncode nodeId

def StdioResource.uri (resource : StdioResource) (project : Option Text) : Text :=
  match project with
  | some project => resource.baseUri ++ "?project=".toList ++ strictUriComponentEncode project
  | none => resource.baseUri

def parseResourceProjectQuery (query : Option Text) : Except String (Option Text) :=
  match query with
  | none => .ok none
  | some query =>
    if query = [] ∨ '&' ∈ query then
      .error ("resource_project_conflict: project-scoped resource URI must include exactly one " ++
        "`project` query selector")
    else
      match stripPrefix "project=".toList query with
      | none => .error "resource_project_malformed: expected `project` query selector"
      | some project =>
        if project = [] ∨ '=' ∈ project then
          .error "resource_project_malformed: project selector is empty or malformed"
        else do
          let project ← strictUriComponentDecode project "resource project"
          .ok (some project)

/-- The resources of a node. -/
def parseNodeResource (baseUri : Text) : Except String StdioResource :=
  match (stripPrefix "codestory://".toList baseUri).bind (splitOnce '/') with
  | none => .error "unknown resource"
  | some (kind, nodeId) => do
    let nodeId ← strictUriComponentDecode nodeId "resource node id"
    if trimChars nodeId = [] ∨ nodeId ≠ trimChars nodeId then .error "unknown resource"
    else if kind = "symbol".toList then .ok (.symbol nodeId)
    else if kind = "references".toList then .ok (.references nodeId)
    else if kind = "snippet".toList then .ok (.snippet nodeId)
    else if kind = "trail".toList then .ok (.trail nodeId)
    else .error "unknown resource"

/-- The resource of a URI without its query. -/
def parseBaseUri (baseUri : Text) : Except String StdioResource :=
  if baseUri = "codestory://status".toList then .ok .status
  else if baseUri = "codestory://diagnostics/retrieval-engine".toList then
    .ok .retrievalEngineDiagnostics
  else if baseUri = "codestory://agent-guide".toList then .ok .agentGuide
  else if baseUri = "codestory://project".toList then .ok .project
  else if baseUri = "codestory://grounding".toList then .ok .grounding
  else if baseUri = "codestory://symbols/root".toList then .ok .rootSymbols
  else parseNodeResource baseUri

def splitQuery (uri : Text) : Except String (Text × Option Text) :=
  match splitOnce '?' uri with
  | some (baseUri, query) =>
    if '?' ∈ query then
      .error "resource_project_malformed: resource URI contains multiple queries"
    else .ok (baseUri, some query)
  | none => .ok (uri, none)

def StdioResource.parse (uri : Text) : Except String ParsedStdioResource := do
  let (baseUri, query) ← splitQuery uri
  let resource ← parseBaseUri baseUri
  if resource = .agentGuide then
    if query.isSome then
      .error ("resource_project_unexpected: codestory://agent-guide is static and does not " ++
        "accept a project selector")
    else .ok ⟨resource, none, resource.baseUri⟩
  else
    let project ← parseResourceProjectQuery query
    .ok ⟨resource, project, resource.uri project⟩

/-! ## The strict encoding -/

attribute [local instance] Text.decidableAllChars

/-- What one byte is encoded as. -/
theorem encodeByte_table : ∀ n < 256,
    let byte := UInt8.ofNat n
    (∀ c ∈ encodeByte byte, c ≠ '?' ∧ c ≠ '/' ∧ c ≠ '&' ∧ c ≠ '=') ∧
      if isUnreserved byte then encode (encodeByte byte) = [byte]
      else ∃ first ∈ (encode (encodeByte byte))[1]?, ∃ second ∈ (encode (encodeByte byte))[2]?,
        encode (encodeByte byte) = [37, first, second] ∧
        ∃ high ∈ canonicalHexValue first, ∃ low ∈ canonicalHexValue second,
          high <<< 4 ||| low = byte := by
  decide +kernel

theorem encodeByte_plain (byte : UInt8) :
    ∀ c ∈ encodeByte byte, c ≠ '?' ∧ c ≠ '/' ∧ c ≠ '&' ∧ c ≠ '=' := by
  have h := (encodeByte_table byte.toNat byte.toNat_lt).1
  rw [UInt8.ofNat_toNat] at h
  exact h

theorem decodeBytes_encodeByte (label : String) (byte : UInt8) (rest : List UInt8) :
    decodeBytes label (encode (encodeByte byte) ++ rest) =
      (decodeBytes label rest).map (byte :: ·) := by
  have h := (encodeByte_table byte.toNat byte.toNat_lt).2
  rw [UInt8.ofNat_toNat] at h
  by_cases hplain : isUnreserved byte = true
  · rw [if_pos hplain] at h
    rw [h, List.singleton_append]
    conv_lhs => unfold decodeBytes
    rw [if_pos hplain]
    cases decodeBytes label rest with
    | error e => rfl
    | ok decoded => rfl
  · rw [if_neg hplain] at h
    obtain ⟨first, -, second, -, hbytes, high, hhigh, low, hlow, rfl⟩ := h
    rw [hbytes]
    change decodeBytes label (37 :: first :: second :: rest) = _
    conv_lhs => unfold decodeBytes
    rw [if_neg (by decide)]
    dsimp only
    rw [if_neg (fun hne => hne rfl), Option.mem_def.mp hhigh, Option.mem_def.mp hlow]
    cases decodeBytes label rest with
    | error e => rfl
    | ok decoded => rfl

theorem decodeBytes_encode (label : String) (bytes : List UInt8) :
    decodeBytes label (encode (bytes.flatMap encodeByte)) = .ok bytes := by
  induction bytes with
  | nil => rfl
  | cons byte bytes ih =>
    rw [List.flatMap_cons, encode_append, decodeBytes_encodeByte, ih]
    rfl

/-- An encoded text is decoded to itself. -/
theorem decode_strictUriComponentEncode (value : Text) (label : String) :
    strictUriComponentDecode (strictUriComponentEncode value) label = .ok value := by
  have hbytes : decodeBytes label (encode (strictUriComponentEncode value)) = .ok (encode value) :=
    decodeBytes_encode label (encode value)
  unfold strictUriComponentDecode
  rw [hbytes]
  simp only [bind, Except.bind]
  rw [decode_encode]
  exact if_neg fun hne => hne rfl

/-- Only encoded texts are decoded. -/
theorem encode_of_decode {value decoded : Text} {label : String}
    (h : strictUriComponentDecode value label = .ok decoded) :
    strictUriComponentEncode decoded = value := by
  unfold strictUriComponentDecode at h
  cases hbytes : decodeBytes label (encode value) with
  | error e =>
    rw [hbytes] at h
    cases h
  | ok bytes =>
    rw [hbytes] at h
    simp only [bind, Except.bind] at h
    cases hdecode : decode bytes with
    | none =>
      rw [hdecode] at h
      cases h
    | some text =>
      rw [hdecode] at h
      dsimp only at h
      by_cases hne : strictUriComponentEncode text ≠ value
      · rw [if_pos hne] at h
        cases h
      · rw [if_neg hne] at h
        rw [← Except.ok.inj h]
        exact not_not.mp hne

theorem encode_plain (value : Text) :
    ∀ c ∈ strictUriComponentEncode value, c ≠ '?' ∧ c ≠ '/' ∧ c ≠ '&' ∧ c ≠ '=' := by
  intro c hc
  obtain ⟨byte, -, hc⟩ := List.mem_flatMap.mp hc
  exact encodeByte_plain byte c hc

theorem encode_ne_nil {value : Text} (h : value ≠ []) : strictUriComponentEncode value ≠ [] := by
  intro hnil
  have hback := decode_strictUriComponentEncode value ""
  rw [hnil] at hback
  have hempty : strictUriComponentDecode [] "" = .ok [] :=
    decode_strictUriComponentEncode [] ""
  rw [hempty] at hback
  exact h (Except.ok.inj hback).symm

/-! ## Printing and parsing -/

/-- The node ids that requests can name. -/
def StdioResource.WellFormed : StdioResource → Prop
  | .symbol nodeId => nodeId ≠ [] ∧ Tight nodeId
  | .references nodeId => nodeId ≠ [] ∧ Tight nodeId
  | .snippet nodeId => nodeId ≠ [] ∧ Tight nodeId
  | .trail nodeId => nodeId ≠ [] ∧ Tight nodeId
  | _ => True

/-- The name in front of the node id. -/
theorem parseNodeResource_append {kind nodeId : Text} (hkind : '/' ∉ kind) (hne : nodeId ≠ [])
    (htight : Tight nodeId) :
    parseNodeResource ("codestory://".toList ++ (kind ++ '/' :: strictUriComponentEncode nodeId)) =
      if kind = "symbol".toList then .ok (.symbol nodeId)
      else if kind = "references".toList then .ok (.references nodeId)
      else if kind = "snippet".toList then .ok (.snippet nodeId)
      else if kind = "trail".toList then .ok (.trail nodeId)
      else .error "unknown resource" := by
  have htrim := htight.trimChars
  have hbad : ¬ (trimChars nodeId = [] ∨ nodeId ≠ trimChars nodeId) := by
    rw [htrim]
    exact fun h => h.elim hne fun hsame => hsame rfl
  unfold parseNodeResource
  rw [Text.stripPrefix_append, Option.bind_some, Text.splitOnce_append hkind]
  dsimp only
  rw [decode_strictUriComponentEncode]
  simp only [bind, Except.bind]
  rw [if_neg hbad]

/-- A text that starts unlike the fixed resources is read as a resource of a node. -/
theorem parseBaseUri_node {front : Text} (rest : Text)
    (h : ∀ name ∈ ["codestory://status", "codestory://diagnostics/retrieval-engine",
      "codestory://agent-guide", "codestory://project", "codestory://grounding",
      "codestory://symbols/root"], ¬ front <+: name.toList) :
    parseBaseUri (front ++ rest) = parseNodeResource (front ++ rest) := by
  have hne : ∀ name ∈ ["codestory://status", "codestory://diagnostics/retrieval-engine",
      "codestory://agent-guide", "codestory://project", "codestory://grounding",
      "codestory://symbols/root"], front ++ rest ≠ name.toList := by
    intro name hname heq
    exact h name hname (heq ▸ List.prefix_append front rest)
  unfold parseBaseUri
  rw [if_neg (hne _ (by decide)), if_neg (hne _ (by decide)), if_neg (hne _ (by decide)),
    if_neg (hne _ (by decide)), if_neg (hne _ (by decide)), if_neg (hne _ (by decide))]

/-- The URI of a node's resource, cut where it is parsed. -/
theorem node_base {name kind : String}
    (hname : name.toList = "codestory://".toList ++ (kind.toList ++ ['/'])) (encoded : Text) :
    name.toList ++ encoded = "codestory://".toList ++ (kind.toList ++ '/' :: encoded) := by
  rw [hname, List.append_assoc, List.append_assoc, List.singleton_append]

namespace StdioResource

theorem symbol_base (nodeId : Text) : (symbol nodeId).baseUri =
    "codestory://".toList ++ ("symbol".toList ++ '/' :: strictUriComponentEncode nodeId) :=
  node_base (by decide) _

theorem references_base (nodeId : Text) : (references nodeId).baseUri =
    "codestory://".toList ++ ("references".toList ++ '/' :: strictUriComponentEncode nodeId) :=
  node_base (by decide) _

theorem snippet_base (nodeId : Text) : (snippet nodeId).baseUri =
    "codestory://".toList ++ ("snippet".toList ++ '/' :: strictUriComponentEncode nodeId) :=
  node_base (by decide) _

theorem trail_base (nodeId : Text) : (trail nodeId).baseUri =
    "codestory://".toList ++ ("trail".toList ++ '/' :: strictUriComponentEncode nodeId) :=
  node_base (by decide) _

end StdioResource

theorem parseBaseUri_baseUri {resource : StdioResource} (h : resource.WellFormed) :
    parseBaseUri resource.baseUri = .ok resource := by
  cases resource with
  | status | retrievalEngineDiagnostics | agentGuide | project | grounding | rootSymbols => rfl
  | symbol nodeId =>
    have hnode : parseBaseUri (StdioResource.symbol nodeId).baseUri =
        parseNodeResource (StdioResource.symbol nodeId).baseUri := parseBaseUri_node _ (by decide)
    rw [hnode, StdioResource.symbol_base, parseNodeResource_append (by decide) h.1 h.2,
      if_pos rfl]
  | references nodeId =>
    have hnode : parseBaseUri (StdioResource.references nodeId).baseUri =
        parseNodeResource (StdioResource.references nodeId).baseUri :=
      parseBaseUri_node _ (by decide)
    rw [hnode, StdioResource.references_base, parseNodeResource_append (by decide) h.1 h.2,
      if_neg (by decide), if_pos rfl]
  | snippet nodeId =>
    have hnode : parseBaseUri (StdioResource.snippet nodeId).baseUri =
        parseNodeResource (StdioResource.snippet nodeId).baseUri := parseBaseUri_node _ (by decide)
    rw [hnode, StdioResource.snippet_base, parseNodeResource_append (by decide) h.1 h.2,
      if_neg (by decide), if_neg (by decide), if_pos rfl]
  | trail nodeId =>
    have hnode : parseBaseUri (StdioResource.trail nodeId).baseUri =
        parseNodeResource (StdioResource.trail nodeId).baseUri := parseBaseUri_node _ (by decide)
    rw [hnode, StdioResource.trail_base, parseNodeResource_append (by decide) h.1 h.2,
      if_neg (by decide), if_neg (by decide), if_neg (by decide), if_pos rfl]

theorem baseUri_of_parseNodeResource {baseUri : Text} {resource : StdioResource}
    (h : parseNodeResource baseUri = .ok resource) : resource.baseUri = baseUri := by
  unfold parseNodeResource at h
  cases hsplit : (stripPrefix "codestory://".toList baseUri).bind (splitOnce '/') with
  | none =>
    rw [hsplit] at h
    cases h
  | some halves =>
    obtain ⟨kind, encoded⟩ := halves
    rw [hsplit] at h
    dsimp only at h
    obtain ⟨tail, htail, hhalves⟩ := Option.bind_eq_some_iff.mp hsplit
    obtain ⟨rfl, -⟩ := Text.splitOnce_eq_some hhalves
    rw [Text.stripPrefix_eq_some htail]
    cases hdecode : strictUriComponentDecode encoded "resource node id" with
    | error e =>
      rw [hdecode] at h
      cases h
    | ok nodeId =>
      rw [hdecode] at h
      simp only [bind, Except.bind] at h
      rw [← encode_of_decode hdecode]
      split at h
      · cases h
      · split at h
        · rename_i hkind
          rw [hkind, ← Except.ok.inj h]
          exact StdioResource.symbol_base nodeId
        · split at h
          · rename_i hkind
            rw [hkind, ← Except.ok.inj h]
            exact StdioResource.references_base nodeId
          · split at h
            · rename_i hkind
              rw [hkind, ← Except.ok.inj h]
              exact StdioResource.snippet_base nodeId
            · split at h
              · rename_i hkind
                rw [hkind, ← Except.ok.inj h]
                exact StdioResource.trail_base nodeId
              · cases h

theorem baseUri_of_parseBaseUri {baseUri : Text} {resource : StdioResource}
    (h : parseBaseUri baseUri = .ok resource) : resource.baseUri = baseUri := by
  have hfixed : ∀ {name : Text} {fixed : StdioResource}, baseUri = name → fixed.baseUri = name →
      (Except.ok fixed : Except String StdioResource) = .ok resource →
        resource.baseUri = baseUri := by
    intro name fixed hname hbase hok
    rw [← Except.ok.inj hok, hbase, hname]
  unfold parseBaseUri at h
  split at h
  · rename_i hname
    exact hfixed hname rfl h
  · split at h
    · rename_i hname
      exact hfixed hname rfl h
    · split at h
      · rename_i hname
        exact hfixed hname rfl h
      · split at h
        · rename_i hname
          exact hfixed hname rfl h
        · split at h
          · rename_i hname
            exact hfixed hname rfl h
          · split at h
            · rename_i hname
              exact hfixed hname rfl h
            · exact baseUri_of_parseNodeResource h

theorem baseUri_no_query (resource : StdioResource) : '?' ∉ resource.baseUri := by
  have hnode : ∀ {front : Text}, '?' ∉ front → ∀ nodeId,
      '?' ∉ front ++ strictUriComponentEncode nodeId := by
    intro front hfront nodeId hmem
    rcases List.mem_append.mp hmem with hmem | hmem
    · exact hfront hmem
    · exact (encode_plain nodeId _ hmem).1 rfl
  cases resource with
  | status | retrievalEngineDiagnostics | agentGuide | project | grounding | rootSymbols => decide
  | symbol nodeId | references nodeId | snippet nodeId | trail nodeId =>
    exact hnode (by decide) nodeId

theorem parseResourceProjectQuery_encode {project : Text} (h : project ≠ []) :
    parseResourceProjectQuery (some ("project=".toList ++ strictUriComponentEncode project)) =
      .ok (some project) := by
  have hand : '&' ∉ "project=".toList ++ strictUriComponentEncode project := by
    intro hmem
    rcases List.mem_append.mp hmem with hmem | hmem
    · exact absurd hmem (by decide)
    · exact (encode_plain project _ hmem).2.2.1 rfl
  have heq : ¬ (strictUriComponentEncode project = [] ∨
    '=' ∈ strictUriComponentEncode project) := by
    rintro (hnil | hmem)
    · exact encode_ne_nil h hnil
    · exact (encode_plain project _ hmem).2.2.2 rfl
  unfold parseResourceProjectQuery
  dsimp only
  rw [if_neg (fun hbad => hbad.elim (fun hnil => by cases hnil) hand), Text.stripPrefix_append]
  dsimp only
  rw [if_neg heq, decode_strictUriComponentEncode]
  rfl

theorem query_of_parse {query : Text} {project : Option Text}
    (h : parseResourceProjectQuery (some query) = .ok project) :
    ∃ selected, project = some selected ∧
      query = "project=".toList ++ strictUriComponentEncode selected := by
  unfold parseResourceProjectQuery at h
  dsimp only at h
  split at h
  · cases h
  · split at h
    · cases h
    · rename_i encoded hencoded
      split at h
      · cases h
      · cases hdecode : strictUriComponentDecode encoded "resource project" with
        | error e =>
          rw [hdecode] at h
          cases h
        | ok selected =>
          rw [hdecode] at h
          refine ⟨selected, (Except.ok.inj h).symm, ?_⟩
          rw [encode_of_decode hdecode]
          exact Text.stripPrefix_eq_some hencoded

namespace StdioResource

theorem parse_uri {resource : StdioResource} {project : Option Text} (h : resource.WellFormed)
    (hproject : ∀ p ∈ project, p ≠ []) (hguide : resource = .agentGuide → project = none) :
    parse (resource.uri project) = .ok ⟨resource, project, resource.uri project⟩ := by
  cases project with
  | none =>
    have hsplit : splitQuery resource.baseUri = .ok (resource.baseUri, none) := by
      unfold splitQuery
      rw [Text.splitOnce_eq_none.mpr (baseUri_no_query resource)]
    change parse resource.baseUri = _
    unfold parse
    rw [hsplit]
    simp only [bind, Except.bind]
    rw [parseBaseUri_baseUri h]
    dsimp only
    split
    · rfl
    · rfl
  | some project =>
    have hne : project ≠ [] := hproject project rfl
    have hnot : resource ≠ .agentGuide := fun heq => Option.some_ne_none _ (hguide heq)
    have hquery : '?' ∉ "project=".toList ++ strictUriComponentEncode project := by
      intro hmem
      rcases List.mem_append.mp hmem with hmem | hmem
      · exact absurd hmem (by decide)
      · exact (encode_plain project _ hmem).1 rfl
    have huri : resource.uri (some project) =
        resource.baseUri ++ '?' :: ("project=".toList ++ strictUriComponentEncode project) :=
      List.append_assoc _ _ _
    have hsplit : splitQuery (resource.uri (some project)) =
        .ok (resource.baseUri, some ("project=".toList ++ strictUriComponentEncode project)) := by
      unfold splitQuery
      rw [huri, Text.splitOnce_append (baseUri_no_query resource)]
      exact if_neg hquery
    unfold parse
    rw [hsplit]
    simp only [bind, Except.bind]
    rw [parseBaseUri_baseUri h]
    dsimp only
    rw [if_neg hnot, parseResourceProjectQuery_encode hne]

/-- An accepted text is the URI of what it denotes. -/
theorem uri_of_parse {text : Text} {parsed : ParsedStdioResource} (h : parse text = .ok parsed) :
    parsed.uri = text ∧ parsed.uri = parsed.resource.uri parsed.project := by
  unfold parse at h
  cases hsplit : splitQuery text with
  | error e =>
    rw [hsplit] at h
    cases h
  | ok halves =>
    obtain ⟨baseUri, query⟩ := halves
    rw [hsplit] at h
    simp only [bind, Except.bind] at h
    cases hbase : parseBaseUri baseUri with
    | error e =>
      rw [hbase] at h
      cases h
    | ok resource =>
      rw [hbase] at h
      dsimp only at h
      have hresource := baseUri_of_parseBaseUri hbase
      have hwhole : text = baseUri ++ (query.elim [] ('?' :: ·)) := by
        unfold splitQuery at hsplit
        split at hsplit
        · rename_i front back hfound
          split at hsplit
          · cases hsplit
          · obtain ⟨rfl, rfl⟩ := Prod.mk.inj (Except.ok.inj hsplit)
            exact (Text.splitOnce_eq_some hfound).1
        · obtain ⟨rfl, rfl⟩ := Prod.mk.inj (Except.ok.inj hsplit)
          exact (List.append_nil _).symm
      split at h
      · split at h
        · cases h
        · rename_i hnone
          rw [← Except.ok.inj h]
          refine ⟨?_, rfl⟩
          have hquery : query = none := Option.not_isSome_iff_eq_none.mp hnone
          rw [hwhole, hquery, ← hresource]
          exact (List.append_nil _).symm
      · cases hquery : query with
        | none =>
          rw [hquery] at h hwhole
          rw [← Except.ok.inj h, hwhole]
          refine ⟨?_, rfl⟩
          rw [← hresource]
          exact (List.append_nil _).symm
        | some query =>
          rw [hquery] at h hwhole
          cases hproject : parseResourceProjectQuery (some query) with
          | error e =>
            rw [hproject] at h
            cases h
          | ok project =>
            rw [hproject] at h
            rw [← Except.ok.inj h, hwhole]
            refine ⟨?_, rfl⟩
            obtain ⟨selected, rfl, rfl⟩ := query_of_parse hproject
            rw [← hresource]
            exact List.append_assoc _ _ _

end StdioResource

/-- The codec is a bijection between resources with their projects and accepted texts. -/
theorem resource_uris_are_canonical :
    (∀ (resource : StdioResource) (project : Option Text), resource.WellFormed →
      (∀ p ∈ project, p ≠ []) → (resource = .agentGuide → project = none) →
        StdioResource.parse (resource.uri project) =
          .ok ⟨resource, project, resource.uri project⟩) ∧
    (∀ text parsed, StdioResource.parse text = .ok parsed → parsed.uri = text) ∧
    ∀ text text' parsed parsed', StdioResource.parse text = .ok parsed →
      StdioResource.parse text' = .ok parsed' → parsed.resource = parsed'.resource →
        parsed.project = parsed'.project → text = text' := by
  refine ⟨fun _ _ h hproject hguide => StdioResource.parse_uri h hproject hguide,
    fun _ _ h => (StdioResource.uri_of_parse h).1, ?_⟩
  intro text text' parsed parsed' h h' hresource hproject
  obtain ⟨htext, huri⟩ := StdioResource.uri_of_parse h
  obtain ⟨htext', huri'⟩ := StdioResource.uri_of_parse h'
  rw [← htext, ← htext', huri, huri', hresource, hproject]

theorem awkward_resource_is_read_back :
    StdioResource.parse ((StdioResource.symbol "a/b?c=%&é".toList).uri (some "/tmp/é ?".toList)) =
      .ok ⟨.symbol "a/b?c=%&é".toList, some "/tmp/é ?".toList,
        (StdioResource.symbol "a/b?c=%&é".toList).uri (some "/tmp/é ?".toList)⟩ := by
  apply resource_uris_are_canonical.1
  · refine ⟨by decide, fun c hc => ?_, fun c hc => ?_⟩
    · obtain rfl := Option.some.inj hc
      rfl
    · obtain rfl := Option.some.inj hc
      rfl
  · intro p hp
    obtain rfl := Option.some.inj hp
    decide
  · intro h
    cases h

end CodeStory.Stdio
