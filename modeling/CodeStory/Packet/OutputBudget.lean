import CodeStory.Lib.JsonLength
import CodeStory.Lib.RecordedLength
import CodeStory.Packet.CitationCap

/-!
# The output budget of a packet

`packet_budget.rs`: a packet that serialises to more bytes than its budget allows is trimmed, and
what was trimmed is recorded in the budget. Lengths are those of compact JSON. The members of an
object that nothing here reads come with their lengths from a parameter, and how sufficient an
answer is comes from another.
-/

set_option autoImplicit false

namespace CodeStory.Packet

open JsonLength RecordedLength
open Utf8Text (Text byteLen)

universe u v

/-! ## Answers -/

inductive AgentResponseBlock where
  | markdown (markdown : Text)
  | mermaid (graphId : Text)
  deriving DecidableEq

structure AgentResponseSection where
  id : Text
  title : Text
  blocks : List AgentResponseBlock
  deriving DecidableEq

inductive GraphArtifact (R : Type v) where
  | uml (edges : Nat) (rest : R)
  | mermaid (rest : R)
  deriving DecidableEq

inductive AgentRetrievalStepKind where
  | search
  | semanticQueryEmbedding
  | semanticCandidateRetrieval
  | hybridRerank
  | queryExpansion
  | repoTextFallback
  | trailFilterOptions
  | neighborhood
  | trail
  | nodeDetails
  | nodeOccurrences
  | edgeOccurrences
  | sourceRead
  | mermaidSynthesis
  | answerSynthesis
  deriving DecidableEq, Repr

inductive AgentRetrievalStepStatus where
  | ok
  | error
  | skipped
  | truncated
  deriving DecidableEq, Repr

structure AgentRetrievalStep (R : Type v) where
  kind : AgentRetrievalStepKind
  status : AgentRetrievalStepStatus
  rest : R
  deriving DecidableEq

structure AgentRetrievalTrace (R : Type v) where
  requestId : Text
  totalLatencyMs : Nat
  slaTargetMs : Option Nat
  slaMissed : Bool
  semanticFallbackCount : Nat
  semanticFallbacks : List R
  annotations : List Text
  steps : List (AgentRetrievalStep R)
  packetSidecarDiagnostics : List R
  retrievalShadow : Option R
  rest : R
  deriving DecidableEq

structure AgentAnswer (S : Type u) (R : Type v) where
  sections : List AgentResponseSection
  citations : List (AgentCitation S R)
  graphs : List (GraphArtifact R)
  retrievalTrace : AgentRetrievalTrace R
  rest : R
  deriving DecidableEq

/-! ## Packets -/

inductive PacketBudgetMode where
  | tiny
  | compact
  | standard
  | deep
  deriving DecidableEq, Repr

structure PacketBudgetLimitsDto where
  maxAnchors : UInt32
  maxFiles : UInt32
  maxSnippets : UInt32
  maxTrailEdges : UInt32
  maxOutputBytes : UInt32
  deriving DecidableEq

structure PacketBudgetUsage where
  anchors : UInt32
  files : UInt32
  snippets : UInt32
  trailEdges : UInt32
  outputBytes : UInt32
  deriving DecidableEq

structure PacketBudget where
  requested : PacketBudgetMode
  limits : PacketBudgetLimitsDto
  used : PacketBudgetUsage
  truncated : Bool
  omittedSections : List String
  nextDeeperCommand : Option Text
  deriving DecidableEq

structure PacketCoverageReport (R : Type v) where
  ineligible : List Text
  rest : R
  deriving DecidableEq

structure PacketSufficiency (R : Type v) where
  avoidOpening : List Text
  avoidOpeningPaths : List Text
  coverageReport : Option (PacketCoverageReport R)
  rest : R
  deriving DecidableEq

structure PacketRetrievalTraceSummary (R : Type v) where
  retrievalTrace : AgentRetrievalTrace R
  sourceReadSteps : Nat
  searchSteps : Nat
  trailSteps : Nat
  deriving DecidableEq

/-- `rest` holds the id, the question, the task class and the plan. -/
structure AgentPacket (S : Type u) (R : Type v) where
  answer : AgentAnswer S R
  budget : PacketBudget
  sufficiency : PacketSufficiency R
  retrievalTraceSummary : PacketRetrievalTraceSummary R
  rest : R
  deriving DecidableEq

variable {S : Type u} {R : Type v}

/-! ## Lengths -/

def quotedLength (text : Text) : Nat := textLength text + 2

/-- How long the parts are that nothing here looks into. -/
structure JsonParts (S : Type u) (R : Type v) where
  members : R → List (String × Nat)
  citation : AgentCitation S R → Nat

namespace JsonParts
variable (json : JsonParts S R)

def block : AgentResponseBlock → Nat
  | .markdown markdown =>
    objectLength [("kind", stringLength "markdown"), ("markdown", quotedLength markdown)]
  | .mermaid graphId =>
    objectLength [("kind", stringLength "mermaid"), ("graph_id", quotedLength graphId)]

def responseSection (responseSection : AgentResponseSection) : Nat :=
  objectLength [("id", quotedLength responseSection.id),
    ("title", quotedLength responseSection.title),
    ("blocks", arrayLength (responseSection.blocks.map block))]

def graph : GraphArtifact R → Nat
  | .uml _ rest => objectLength (json.members rest)
  | .mermaid rest => objectLength (json.members rest)

def unread (rest : R) : Nat := objectLength (json.members rest)

/-- Members that are skipped when there is nothing in them. -/
def unlessEmpty (name : String) (items : List Nat) : List (String × Nat) :=
  if items = [] then [] else [(name, arrayLength items)]

def trace (trace : AgentRetrievalTrace R) : Nat :=
  objectLength ([("request_id", quotedLength trace.requestId),
      ("total_latency_ms", decimalLength trace.totalLatencyMs),
      ("sla_target_ms", (trace.slaTargetMs.map decimalLength).getD nullLength),
      ("sla_missed", boolLength trace.slaMissed),
      ("semantic_fallback_count", decimalLength trace.semanticFallbackCount)] ++
    unlessEmpty "semantic_fallbacks" (trace.semanticFallbacks.map json.unread) ++
    [("annotations", arrayLength (trace.annotations.map quotedLength)),
      ("steps", arrayLength (trace.steps.map fun step => json.unread step.rest))] ++
    unlessEmpty "packet_sidecar_diagnostics" (trace.packetSidecarDiagnostics.map json.unread) ++
    (trace.retrievalShadow.map fun shadow => ("retrieval_shadow", json.unread shadow)).toList ++
    json.members trace.rest)

def answer (answer : AgentAnswer S R) : Nat :=
  objectLength (("sections", arrayLength (answer.sections.map responseSection)) ::
    ("citations", arrayLength (answer.citations.map json.citation)) ::
    ("graphs", arrayLength (answer.graphs.map json.graph)) ::
    ("retrieval_trace", json.trace answer.retrievalTrace) :: json.members answer.rest)

def mode : PacketBudgetMode → Nat
  | .tiny => stringLength "tiny"
  | .compact => stringLength "compact"
  | .standard => stringLength "standard"
  | .deep => stringLength "deep"

def limits (limits : PacketBudgetLimitsDto) : Nat :=
  objectLength [("max_anchors", decimalLength limits.maxAnchors.toNat),
    ("max_files", decimalLength limits.maxFiles.toNat),
    ("max_snippets", decimalLength limits.maxSnippets.toNat),
    ("max_trail_edges", decimalLength limits.maxTrailEdges.toNat),
    ("max_output_bytes", decimalLength limits.maxOutputBytes.toNat)]

def used (used : PacketBudgetUsage) : Nat :=
  objectLength [("anchors", decimalLength used.anchors.toNat),
    ("files", decimalLength used.files.toNat), ("snippets", decimalLength used.snippets.toNat),
    ("trail_edges", decimalLength used.trailEdges.toNat),
    ("output_bytes", decimalLength used.outputBytes.toNat)]

def budget (budget : PacketBudget) : Nat :=
  objectLength [("requested", mode budget.requested), ("limits", limits budget.limits),
    ("used", used budget.used), ("truncated", boolLength budget.truncated),
    ("omitted_sections", arrayLength (budget.omittedSections.map stringLength)),
    ("next_deeper_command", (budget.nextDeeperCommand.map quotedLength).getD nullLength)]

def coverageReport (report : PacketCoverageReport R) : Nat :=
  objectLength (unlessEmpty "ineligible" (report.ineligible.map quotedLength) ++
    json.members report.rest)

def sufficiency (sufficiency : PacketSufficiency R) : Nat :=
  objectLength ([("avoid_opening", arrayLength (sufficiency.avoidOpening.map quotedLength)),
      ("avoid_opening_paths", arrayLength (sufficiency.avoidOpeningPaths.map quotedLength))] ++
    (sufficiency.coverageReport.map fun report =>
      ("coverage_report", json.coverageReport report)).toList ++ json.members sufficiency.rest)

def traceSummary (summary : PacketRetrievalTraceSummary R) : Nat :=
  objectLength [("retrieval_trace", json.trace summary.retrievalTrace),
    ("source_read_steps", decimalLength summary.sourceReadSteps),
    ("search_steps", decimalLength summary.searchSteps),
    ("trail_steps", decimalLength summary.trailSteps)]

def serializedPacketLen (packet : AgentPacket S R) : Nat :=
  objectLength (("answer", json.answer packet.answer) :: ("budget", budget packet.budget) ::
    ("sufficiency", json.sufficiency packet.sufficiency) ::
    ("retrieval_trace_summary", json.traceSummary packet.retrievalTraceSummary) ::
    json.members packet.rest)

end JsonParts

/-! ## Cutting markdown -/

def markdownTruncationFloorBytes : Nat := 256

def packetMarkdownTruncationSuffix : Text :=
  "\n\n... packet section truncated by budget ...\n".toList

def packetMarkdownTruncationPriority (sectionId : Text) : Nat :=
  if sectionId = "diagrams".toList then 0
  else if sectionId = "retrieval-evidence".toList ∨ "packet-subquery-".toList <+: sectionId then 1
  else if sectionId = "packet-evidence-ledger".toList ∨ sectionId = "packet-flow-claims".toList then
    10
  else 5

structure TruncationCandidate where
  sectionIndex : Nat
  blockIndex : Nat
  priority : Nat
  len : Nat
  deriving DecidableEq, Repr

def considerBlock (sectionId : Text) (sectionIndex : Nat) (candidate : Option TruncationCandidate)
    (entry : AgentResponseBlock × Nat) : Option TruncationCandidate :=
  match entry.1 with
  | .mermaid _ => candidate
  | .markdown markdown =>
    let len := byteLen markdown
    if len ≤ markdownTruncationFloorBytes then candidate
    else
      let priority := packetMarkdownTruncationPriority sectionId
      match candidate with
      | none => some ⟨sectionIndex, entry.2, priority, len⟩
      | some existing =>
        if priority < existing.priority ∨ (priority = existing.priority ∧ existing.len < len) then
          some ⟨sectionIndex, entry.2, priority, len⟩
        else candidate

namespace AgentAnswer
variable (answer : AgentAnswer S R)

def nextMarkdownTruncationCandidate : Option TruncationCandidate :=
  answer.sections.zipIdx.foldl
    (fun candidate entry =>
      entry.1.blocks.zipIdx.foldl (considerBlock entry.1.id entry.2) candidate) none

def block? (sectionIndex blockIndex : Nat) : Option AgentResponseBlock :=
  (answer.sections[sectionIndex]?).bind fun responseSection => responseSection.blocks[blockIndex]?

def setBlock (sectionIndex blockIndex : Nat) (block : AgentResponseBlock) : AgentAnswer S R :=
  { answer with
    sections := answer.sections.modify sectionIndex fun responseSection =>
      { responseSection with blocks := responseSection.blocks.set blockIndex block } }

end AgentAnswer

/-- Half of the characters are kept. -/
def truncateMarkdownBlock (markdown : Text) : Text :=
  markdown.take (markdown.length / 2) ++ packetMarkdownTruncationSuffix

section Cut
variable (json : JsonParts S R)

/-- One round of the loop, if it truncates a block. A candidate is always a markdown block. -/
def truncationRound (byteCap : Nat) (answer : AgentAnswer S R) : Option (AgentAnswer S R) :=
  if json.answer answer ≤ byteCap then none
  else
    match answer.nextMarkdownTruncationCandidate with
    | none => none
    | some candidate =>
      if candidate.len ≤ markdownTruncationFloorBytes then none
      else
        match answer.block? candidate.sectionIndex candidate.blockIndex with
        | some (.markdown markdown) =>
          some (answer.setBlock candidate.sectionIndex candidate.blockIndex
            (.markdown (truncateMarkdownBlock markdown)))
        | _ => none

def truncationRounds (byteCap : Nat) : Nat → AgentAnswer S R → Bool → AgentAnswer S R × Bool
  | 0, answer, truncated => (answer, truncated)
  | rounds + 1, answer, truncated =>
    match truncationRound json byteCap answer with
    | none => (answer, truncated)
    | some answer => truncationRounds byteCap rounds answer true

def truncateAnswerMarkdownToByteCap (answer : AgentAnswer S R) (byteCap : Nat) :
    AgentAnswer S R × Bool :=
  truncationRounds json byteCap 8 answer false

end Cut

/-! ## The size that is recorded -/

def u32Max : Nat := 2 ^ 32 - 1

/-- `try_into().unwrap_or(u32::MAX)` -/
def toU32 (n : Nat) : UInt32 := UInt32.ofNat (min n u32Max)

namespace AgentPacket
variable (packet : AgentPacket S R)

def withBudget (budget : PacketBudget) : AgentPacket S R := { packet with budget := budget }

def withOutputBytes (outputBytes : UInt32) : AgentPacket S R :=
  packet.withBudget
    { packet.budget with used := { packet.budget.used with outputBytes := outputBytes } }

end AgentPacket

section Refresh
variable (packetLen : AgentPacket S R → Nat)

def refreshRounds : Nat → AgentPacket S R → AgentPacket S R × Nat
  | 0, packet => (packet, packetLen packet)
  | rounds + 1, packet =>
    let outputBytes := packetLen packet
    if packet.budget.used.outputBytes = toU32 outputBytes then (packet, outputBytes)
    else refreshRounds rounds (packet.withOutputBytes (toU32 outputBytes))

/-- The packet with its size recorded, and the size. -/
def refreshPacketOutputBytes (packet : AgentPacket S R) : AgentPacket S R × Nat :=
  refreshRounds packetLen 4 packet

end Refresh

/-! ## What is trimmed -/

def avoidOpeningOmission : String := "avoid_opening"

def coverageReportIneligibleOmission : String := "coverage_report.ineligible"

def retrievalTraceSummaryOmission : String := "retrieval_trace_summary"

namespace PacketBudget
variable (budget : PacketBudget)

def pushOmittedSection (name : String) : PacketBudget :=
  if name ∈ budget.omittedSections then budget
  else
    { budget with
      omittedSections := (budget.omittedSections ++ [name]).insertionSort (· ≤ ·) }

def removeOmittedSection (name : String) : PacketBudget :=
  { budget with omittedSections := budget.omittedSections.filter (· ≠ name) }

/-- The budget of a packet that is over its limit. -/
def overLimit : PacketBudget :=
  (({ budget with truncated := true }).pushOmittedSection "output_bytes").pushOmittedSection
    "packet_payload"

def withinLimit : PacketBudget :=
  (budget.removeOmittedSection "output_bytes").removeOmittedSection "packet_payload"

end PacketBudget

def PacketSufficiency.clearAvoidOpening (sufficiency : PacketSufficiency R) : PacketSufficiency R :=
  { sufficiency with avoidOpening := [], avoidOpeningPaths := [] }

def PacketSufficiency.clearIneligible (sufficiency : PacketSufficiency R) : PacketSufficiency R :=
  { sufficiency with
    coverageReport := sufficiency.coverageReport.map fun report =>
      { report with ineligible := [] } }

/-- The sufficiency without its lists, and the sections that were trimmed. -/
def trimPacketSufficiencyVerboseLists (sufficiency : PacketSufficiency R) :
    PacketSufficiency R × List String :=
  let listed := sufficiency.avoidOpening ≠ [] ∨ sufficiency.avoidOpeningPaths ≠ []
  let ineligible := ∃ report ∈ sufficiency.coverageReport, report.ineligible ≠ []
  let trimmed := if listed then sufficiency.clearAvoidOpening else sufficiency
  (if ineligible then trimmed.clearIneligible else trimmed,
    (if listed then [avoidOpeningOmission] else []) ++
      (if ineligible then [coverageReportIneligibleOmission] else []))

def AgentRetrievalTrace.isTrimmed (trace : AgentRetrievalTrace R) : Bool :=
  trace.requestId = [] && trace.totalLatencyMs = 0 && trace.slaTargetMs.isNone &&
    !trace.slaMissed && trace.semanticFallbackCount = 0 && trace.semanticFallbacks.isEmpty &&
    trace.annotations.isEmpty && trace.steps.isEmpty && trace.packetSidecarDiagnostics.isEmpty &&
    trace.retrievalShadow.isNone

def AgentRetrievalTrace.trimmed (trace : AgentRetrievalTrace R) : AgentRetrievalTrace R :=
  ⟨[], 0, none, false, 0, [], [], [], [], none, trace.rest⟩

/-- `trim_packet_retrieval_trace_summary`, which does nothing the second time. -/
def PacketRetrievalTraceSummary.trimmed (summary : PacketRetrievalTraceSummary R) :
    PacketRetrievalTraceSummary R :=
  { summary with retrievalTrace := summary.retrievalTrace.trimmed }

/-! ## What is rebuilt -/

def isSearchStep : AgentRetrievalStepKind → Bool
  | .search | .semanticQueryEmbedding | .semanticCandidateRetrieval | .hybridRerank
  | .queryExpansion => true
  | _ => false

def isTrailStep : AgentRetrievalStepKind → Bool
  | .trail | .neighborhood | .trailFilterOptions => true
  | _ => false

def packetRetrievalTraceSummary (answer : AgentAnswer S R) : PacketRetrievalTraceSummary R where
  retrievalTrace := { answer.retrievalTrace with annotations := [], steps := [] }
  sourceReadSteps := answer.retrievalTrace.steps.countP (·.kind = .sourceRead)
  searchSteps := answer.retrievalTrace.steps.countP fun step => isSearchStep step.kind
  trailSteps := answer.retrievalTrace.steps.countP fun step => isTrailStep step.kind

def GraphArtifact.edgeCount : GraphArtifact R → Nat
  | .uml edges _ => edges
  | .mermaid _ => 0

def packetBudgetUsage (json : JsonParts S R) (answer : AgentAnswer S R) : PacketBudgetUsage where
  anchors := toU32 answer.citations.length
  files := toU32 (answer.citations.filterMap (·.filePath)).dedup.length
  snippets := toU32 (answer.retrievalTrace.steps.countP fun step =>
    step.kind = .sourceRead && step.status = .ok)
  trailEdges := toU32 (answer.graphs.map (·.edgeCount)).sum
  outputBytes := toU32 (json.answer answer)

/-- What the budget is enforced with: lengths, and `build_packet_sufficiency_with_probe_context`
of the packet's unread members, its answer and its budget. -/
structure BudgetRules (S : Type u) (R : Type v) where
  json : JsonParts S R
  buildPacketSufficiency : R → AgentAnswer S R → PacketBudget → PacketSufficiency R

namespace BudgetRules
variable (rules : BudgetRules S R)

def rebuiltSufficiency (packet : AgentPacket S R) : PacketSufficiency R :=
  let sufficiency := rules.buildPacketSufficiency packet.rest packet.answer packet.budget
  let listed :=
    if avoidOpeningOmission ∈ packet.budget.omittedSections then sufficiency.clearAvoidOpening
    else sufficiency
  if coverageReportIneligibleOmission ∈ packet.budget.omittedSections then listed.clearIneligible
  else listed

def rebuiltTraceSummary (packet : AgentPacket S R) : PacketRetrievalTraceSummary R :=
  if retrievalTraceSummaryOmission ∈ packet.budget.omittedSections then
    (packetRetrievalTraceSummary packet.answer).trimmed
  else packetRetrievalTraceSummary packet.answer

def rebuildPacketBudgetDependents (packet : AgentPacket S R) : AgentPacket S R :=
  { packet with
    retrievalTraceSummary := rebuiltTraceSummary packet
    sufficiency := rules.rebuiltSufficiency packet }

/-! ## Enforcing the limit -/

def refresh (packet : AgentPacket S R) : AgentPacket S R × Nat :=
  refreshPacketOutputBytes rules.json.serializedPacketLen packet

/-- What a pass trims from a packet that is over its limit by so many bytes. -/
def trimPass (overBy : Nat) (packet : AgentPacket S R) : Option (AgentPacket S R) :=
  let nextAnswerCap := max (rules.json.answer packet.answer - (overBy + 1024)) 1024
  match trimPacketSufficiencyVerboseLists packet.sufficiency with
  | (sufficiency, name :: names) =>
    some { packet with
      sufficiency := sufficiency
      budget := (name :: names).foldl PacketBudget.pushOmittedSection packet.budget }
  | (_, []) =>
    if !packet.retrievalTraceSummary.retrievalTrace.isTrimmed then
      some { packet with
        retrievalTraceSummary := packet.retrievalTraceSummary.trimmed
        budget := packet.budget.pushOmittedSection retrievalTraceSummaryOmission }
    else
      match truncateAnswerMarkdownToByteCap rules.json packet.answer nextAnswerCap with
      | (answer, true) =>
        some (rules.rebuildPacketBudgetDependents { packet with
          answer := answer
          budget := { packet.budget.pushOmittedSection "markdown_blocks" with
            used := packetBudgetUsage rules.json answer } })
      | (_, false) => none

/-- The passes of `enforce_packet_output_budget`. -/
def trimPasses : Nat → AgentPacket S R → AgentPacket S R
  | 0, packet => packet
  | passes + 1, packet =>
    let refreshed := rules.refresh packet
    let limit := refreshed.1.budget.limits.maxOutputBytes.toNat
    if refreshed.2 ≤ limit then refreshed.1
    else
      let marked := refreshed.1.withBudget refreshed.1.budget.overLimit
      match rules.trimPass (refreshed.2 - limit) marked with
      | some trimmed => trimPasses passes trimmed
      | none => marked

/-- The packet that trimming leaves, with its size. -/
def trimmed (packet : AgentPacket S R) : AgentPacket S R × Nat :=
  rules.refresh (rules.trimPasses 8 packet)

/-- The two sections are marked as omitted, or no longer are. -/
def remarked (packet : AgentPacket S R) : AgentPacket S R :=
  let trimmed := rules.trimmed packet
  let budget :=
    if trimmed.2 > trimmed.1.budget.limits.maxOutputBytes.toNat then trimmed.1.budget.overLimit
    else trimmed.1.budget.withinLimit
  trimmed.1.withBudget budget

def enforcePacketOutputBudget (packet : AgentPacket S R) : AgentPacket S R :=
  (rules.refresh (rules.rebuildPacketBudgetDependents (rules.remarked packet))).1

end BudgetRules

end CodeStory.Packet
