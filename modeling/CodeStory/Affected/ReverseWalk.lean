import CodeStory.Graph.Trail
import CodeStory.Lib.BreadthFirst
import CodeStory.Lib.SortedMap

/-!
# The walk from changed code to its dependents

Seeds are the changed files and what is declared in them. The walk goes against the edges, one
round for each unit of depth, and keeps for every node the distance and the best evidence of its
layer. Labels of nodes and the labels of confidences are texts of the source.
-/

set_option autoImplicit false

namespace CodeStory.Affected

open CodeStory.Graph (Edge EdgeKind Node ResolutionCertainty)
open BreadthFirst

structure ConfidenceFloor where
  strength : Nat
  label : String
  deriving DecidableEq, Repr

namespace ConfidenceFloor

def strengthOf : String → Option Nat
  | "direct" => some 7
  | "certain" | "schema" => some 6
  | "probable" | "file_convention" | "decorator" | "annotation" | "attribute" => some 5
  | "graph" => some 4
  | "heuristic" => some 3
  | "uncertain" => some 2
  | "bounded" => some 1
  | _ => none

/-- An unknown label is read as `bounded`. -/
def fromLabel (label : String) : ConfidenceFloor :=
  match strengthOf label with
  | some strength => ⟨strength, label⟩
  | none => ⟨1, "bounded"⟩

def bounded : ConfidenceFloor := fromLabel "bounded"

def weakest (self other : ConfidenceFloor) : ConfidenceFloor :=
  match compare self.strength other.strength with
  | .lt => self
  | .gt => other
  | .eq => if self.label ≤ other.label then self else other

end ConfidenceFloor

structure PathTieStep where
  edgeId : Int
  sourceNodeId : Int
  targetNodeId : Int
  deriving DecidableEq, Repr, Ord

structure GraphEvidence where
  distance : Nat
  reason : String
  confidenceFloor : ConfidenceFloor
  previousIdentityProxy : Bool
  pathTieKey : List PathTieStep
  deriving DecidableEq, Repr

/-- `i64::MIN` -/
def i64Min : Int := -9223372036854775808

def GraphEvidence.seed (nodeId : Int) (reason : String) (confidenceFloor : ConfidenceFloor)
    (previousIdentityProxy : Bool) : GraphEvidence where
  distance := 0
  reason := reason
  confidenceFloor := if previousIdentityProxy then .bounded else confidenceFloor
  previousIdentityProxy := previousIdentityProxy
  pathTieKey := [⟨i64Min, nodeId, nodeId⟩]

def compareEvidence (left right : GraphEvidence) : Ordering :=
  (compare left.distance right.distance).then <|
  (compare left.previousIdentityProxy right.previousIdentityProxy).then <|
  (compare right.confidenceFloor.strength left.confidenceFloor.strength).then <|
  (compare left.confidenceFloor.label right.confidenceFloor.label).then <|
  (compare left.pathTieKey right.pathTieKey).then <|
  compare left.reason right.reason

def evidenceIsBetter (candidate current : GraphEvidence) : Bool :=
  compareEvidence candidate current == .lt

def edgeKindLabel : EdgeKind → String
  | .memberEdge => "member"
  | .typeUsageEdge => "type_usage"
  | .usageEdge => "usage"
  | .callEdge => "call"
  | .inheritanceEdge => "inheritance"
  | .overrideEdge => "override"
  | .typeArgumentEdge => "type_argument"
  | .templateSpecializationEdge => "template_specialization"
  | .includeEdge => "include"
  | .importEdge => "import"
  | .macroUsageEdge => "macro_usage"
  | .annotationUsageEdge => "annotation_usage"
  | .unknownEdge => "unknown"

/-- The number of a kind, `kind as i32`. -/
def edgeKindCode : EdgeKind → Nat
  | .memberEdge => 0
  | .typeUsageEdge => 1
  | .usageEdge => 2
  | .callEdge => 3
  | .inheritanceEdge => 4
  | .overrideEdge => 5
  | .typeArgumentEdge => 6
  | .templateSpecializationEdge => 7
  | .includeEdge => 8
  | .importEdge => 9
  | .macroUsageEdge => 10
  | .annotationUsageEdge => 11
  | .unknownEdge => 12

def structuralEdgeDefaultCertainty : EdgeKind → Option ResolutionCertainty
  | .memberEdge | .inheritanceEdge | .overrideEdge | .typeArgumentEdge
  | .templateSpecializationEdge | .includeEdge | .importEdge => some .certain
  | .callEdge | .usageEdge | .typeUsageEdge | .macroUsageEdge | .annotationUsageEdge
  | .unknownEdge => none

def certaintyText : ResolutionCertainty → String
  | .certain => "certain"
  | .probable => "probable"
  | .uncertain => "uncertain"

def edgeCertaintyLabel (edge : Edge) : Option String :=
  ((edge.certainty.or (edge.confidence.map .fromConfidence)).or
    (structuralEdgeDefaultCertainty edge.kind)).map certaintyText

def edgeConfidence (edge : Edge) : ConfidenceFloor :=
  .fromLabel ((edgeCertaintyLabel edge).getD "graph")

def dependentEvidence (distance : Nat) (edge : Edge) (targetLabel : String)
    (parent : GraphEvidence) : GraphEvidence :=
  let reason := "dependent reaches changed code via " ++ edgeKindLabel edge.kind ++ " edge to " ++
    targetLabel
  { distance := distance
    reason := if parent.previousIdentityProxy then "bounded previous-identity proxy; " ++ reason
      else reason
    confidenceFloor := if parent.previousIdentityProxy then .bounded
      else parent.confidenceFloor.weakest (edgeConfidence edge)
    previousIdentityProxy := parent.previousIdentityProxy
    pathTieKey := parent.pathTieKey ++ [⟨edge.id, edge.effectiveSource, edge.effectiveTarget⟩] }

def compareReverseEdges (left right : Edge) : Ordering :=
  (compare left.effectiveSource right.effectiveSource).then <|
  (compare left.id right.id).then <|
  (compare left.effectiveTarget right.effectiveTarget).then <|
  (compare (edgeKindCode left.kind) (edgeKindCode right.kind)).then <|
  (compare left.line right.line).then <|
  (compare left.source right.source).then <|
  (compare left.target right.target).then <|
  (compare left.resolvedSource right.resolvedSource).then <|
  (compare left.resolvedTarget right.resolvedTarget).then <|
  compare left.callsiteIdentity right.callsiteIdentity

abbrev EvidenceMap := SortedMap Int GraphEvidence

section Seeds
variable (previousIdentitySeedEvidence : EvidenceMap) (nodeIdsByFile : Int → List Int)

def seedFile (seeds : EvidenceMap) (fileId : Int) : EvidenceMap :=
  let fileEvidence := previousIdentitySeedEvidence.get fileId
  let fileCandidate := fileEvidence.getD
    (.seed fileId "changed file matched current input path" (.fromLabel "direct") false)
  (nodeIdsByFile fileId).foldl (fun seeds nodeId =>
      let nodeCandidate :=
        match fileEvidence with
        | some evidence => .seed nodeId evidence.reason evidence.confidenceFloor
            evidence.previousIdentityProxy
        | none => .seed nodeId "symbol declared in file matched by current input path"
            (.fromLabel "direct") false
      seeds.offer evidenceIsBetter nodeId nodeCandidate)
    (seeds.offer evidenceIsBetter fileId fileCandidate)

def affectedGraphSeeds (graphSeedFileIds : List Int) : EvidenceMap :=
  graphSeedFileIds.foldl (seedFile previousIdentitySeedEvidence nodeIdsByFile) .empty

end Seeds

structure ReverseWalk where
  distances : SortedMap Int Nat
  evidence : EvidenceMap
  visitedEdgeCount : Nat

section Walk
variable (edges : List Edge) (labels : Int → Option String)

/-- The edges into a node, in the order in which they are followed. -/
def reverseDependents (nodeId : Int) : List Edge :=
  (edges.filter (·.effectiveTarget = nodeId)).insertionSort fun left right =>
    compareReverseEdges left right ≠ .gt

/-- The candidates of the next layer, and the number of edges looked at. -/
structure Round where
  candidates : EvidenceMap
  visitedEdgeCount : Nat

def followEdge (distances : SortedMap Int Nat) (nextDistance : Nat) (nodeId : Int)
    (parent : GraphEvidence) (round : Round) (edge : Edge) : Round :=
  let visited := min (round.visitedEdgeCount + 1) Graph.usizeMax
  if (distances.get edge.effectiveSource).isSome then { round with visitedEdgeCount := visited }
  else
    { candidates := round.candidates.offer evidenceIsBetter edge.effectiveSource
        (dependentEvidence nextDistance edge ((labels nodeId).getD (toString nodeId)) parent)
      visitedEdgeCount := visited }

def expandNode (distances : SortedMap Int Nat) (evidence : EvidenceMap) (nextDistance : Nat)
    (round : Round) (nodeId : Int) : Round :=
  match evidence.get nodeId with
  | none => round
  | some parent =>
    (reverseDependents edges nodeId).foldl
      (followEdge labels distances nextDistance nodeId parent) round

/-- The rounds that are left; `distance` is that of the frontier. -/
def walkRounds : Nat → Nat → List Int → ReverseWalk → ReverseWalk
  | 0, _, _, walk => walk
  | rounds + 1, distance, frontier, walk =>
    let round := frontier.foldl
      (expandNode edges labels walk.distances walk.evidence (distance + 1))
      ⟨.empty, walk.visitedEdgeCount⟩
    let next : ReverseWalk :=
      { distances := round.candidates.keys.foldl (fun m nodeId => m.put nodeId (distance + 1))
          walk.distances
        evidence := round.candidates.entries.foldl (fun m entry => m.put entry.1 entry.2)
          walk.evidence
        visitedEdgeCount := round.visitedEdgeCount }
    if round.candidates.keys.isEmpty then next
    else walkRounds rounds (distance + 1) round.candidates.keys next

def affectedReverseWalk (depth : Nat) (seedEvidence : EvidenceMap) : ReverseWalk :=
  let distances := seedEvidence.keys.foldl (fun m seed => m.put seed 0) .empty
  walkRounds edges labels depth 0 distances.keys
    { distances := distances, evidence := seedEvidence, visitedEdgeCount := 0 }

end Walk

/-! ## The walk finds the layers -/

/-- The seeds are the files and what is declared in them. -/
theorem mem_affectedGraphSeeds {previousIdentitySeedEvidence : EvidenceMap}
    {nodeIdsByFile : Int → List Int} {graphSeedFileIds : List Int} {b : Int} :
    b ∈ (affectedGraphSeeds previousIdentitySeedEvidence nodeIdsByFile graphSeedFileIds).keys ↔
      ∃ fileId ∈ graphSeedFileIds, b = fileId ∨ b ∈ nodeIdsByFile fileId := by
  have hfold : ∀ (fileIds : List Int) (seeds : EvidenceMap),
      b ∈ (fileIds.foldl (seedFile previousIdentitySeedEvidence nodeIdsByFile) seeds).keys ↔
        b ∈ seeds.keys ∨ ∃ fileId ∈ fileIds, b = fileId ∨ b ∈ nodeIdsByFile fileId := by
    intro fileIds
    induction fileIds with
    | nil => simp
    | cons fileId fileIds ih =>
      intro seeds
      rw [List.foldl_cons, ih]
      unfold seedFile
      dsimp only
      rw [SortedMap.mem_keys_foldl_offer, SortedMap.mem_keys_offer, List.map_id']
      constructor
      · rintro ((h | h | h) | ⟨other, hother, h⟩)
        · exact Or.inr ⟨fileId, List.mem_cons_self, Or.inr h⟩
        · exact Or.inr ⟨fileId, List.mem_cons_self, Or.inl h⟩
        · exact Or.inl h
        · exact Or.inr ⟨other, List.mem_cons_of_mem _ hother, h⟩
      · rintro (h | ⟨other, hother, h⟩)
        · exact Or.inl (Or.inr (Or.inr h))
        · rcases List.mem_cons.mp hother with rfl | hother
          · rcases h with h | h
            · exact Or.inl (Or.inr (Or.inl h))
            · exact Or.inl (Or.inl h)
          · exact Or.inr ⟨other, hother, h⟩
  unfold affectedGraphSeeds
  rw [hfold]
  simp [SortedMap.mem_keys_iff]

/-- The source of an edge depends on its target. -/
def Dependent (edges : List Edge) (target source : Int) : Prop :=
  ∃ edge ∈ edges, edge.effectiveTarget = target ∧ edge.effectiveSource = source

section Spec
variable {edges : List Edge} {labels : Int → Option String}

theorem mem_reverseDependents {nodeId : Int} {edge : Edge} :
    edge ∈ reverseDependents edges nodeId ↔ edge ∈ edges ∧ edge.effectiveTarget = nodeId := by
  unfold reverseDependents
  rw [List.mem_insertionSort, List.mem_filter]
  simp

theorem mem_keys_followEdges {distances : SortedMap Int Nat} {nextDistance : Nat} {nodeId : Int}
    {parent : GraphEvidence} {followed : List Edge} {round : Round} {b : Int} :
    b ∈ (followed.foldl (followEdge labels distances nextDistance nodeId parent)
        round).candidates.keys ↔
      b ∈ round.candidates.keys ∨
        (distances.get b = none ∧ ∃ edge ∈ followed, edge.effectiveSource = b) := by
  induction followed generalizing round with
  | nil => simp
  | cons edge followed ih =>
    rw [List.foldl_cons, ih]
    unfold followEdge
    by_cases hknown : (distances.get edge.effectiveSource).isSome
    · rw [if_pos hknown]
      constructor
      · rintro (h | ⟨hnone, other, hother, rfl⟩)
        · exact Or.inl h
        · exact Or.inr ⟨hnone, other, List.mem_cons_of_mem _ hother, rfl⟩
      · rintro (h | ⟨hnone, other, hother, rfl⟩)
        · exact Or.inl h
        · rcases List.mem_cons.mp hother with rfl | hother
          · rw [hnone] at hknown
            cases hknown
          · exact Or.inr ⟨hnone, other, hother, rfl⟩
    · rw [if_neg hknown, SortedMap.mem_keys_offer]
      have hnone : distances.get edge.effectiveSource = none := by
        simpa using hknown
      constructor
      · rintro ((rfl | h) | ⟨hb, other, hother, rfl⟩)
        · exact Or.inr ⟨hnone, edge, List.mem_cons_self, rfl⟩
        · exact Or.inl h
        · exact Or.inr ⟨hb, other, List.mem_cons_of_mem _ hother, rfl⟩
      · rintro (h | ⟨hb, other, hother, rfl⟩)
        · exact Or.inl (Or.inr h)
        · rcases List.mem_cons.mp hother with rfl | hother
          · exact Or.inl (Or.inl rfl)
          · exact Or.inr ⟨hb, other, hother, rfl⟩

/-- One round offers exactly the unknown dependents of the frontier. -/
theorem mem_keys_expandNodes {distances : SortedMap Int Nat} {evidence : EvidenceMap}
    {nextDistance : Nat} {frontier : List Int} {round : Round} {b : Int}
    (hevidence : ∀ a ∈ frontier, a ∈ evidence.keys) :
    b ∈ (frontier.foldl (expandNode edges labels distances evidence nextDistance)
        round).candidates.keys ↔
      b ∈ round.candidates.keys ∨
        (distances.get b = none ∧ ∃ a ∈ frontier, Dependent edges a b) := by
  induction frontier generalizing round with
  | nil => simp
  | cons a frontier ih =>
    rw [List.foldl_cons, ih fun a' ha' => hevidence a' (List.mem_cons_of_mem _ ha')]
    obtain ⟨parent, hparent⟩ := SortedMap.mem_keys_iff.mp (hevidence a List.mem_cons_self)
    have hexpand : ∀ b, b ∈ (expandNode edges labels distances evidence nextDistance round
        a).candidates.keys ↔ b ∈ round.candidates.keys ∨
          (distances.get b = none ∧ Dependent edges a b) := by
      intro b
      unfold expandNode
      rw [hparent, mem_keys_followEdges]
      apply or_congr_right
      apply and_congr_right
      intro _
      constructor
      · rintro ⟨edge, hedge, rfl⟩
        obtain ⟨hmem, htarget⟩ := mem_reverseDependents.mp hedge
        exact ⟨edge, hmem, htarget, rfl⟩
      · rintro ⟨edge, hmem, htarget, hsource⟩
        exact ⟨edge, mem_reverseDependents.mpr ⟨hmem, htarget⟩, hsource⟩
    rw [hexpand]
    constructor
    · rintro ((h | ⟨hnone, hdependent⟩) | ⟨hnone, a', ha', hdependent⟩)
      · exact Or.inl h
      · exact Or.inr ⟨hnone, a, List.mem_cons_self, hdependent⟩
      · exact Or.inr ⟨hnone, a', List.mem_cons_of_mem _ ha', hdependent⟩
    · rintro (h | ⟨hnone, a', ha', hdependent⟩)
      · exact Or.inl (Or.inl h)
      · rcases List.mem_cons.mp ha' with rfl | ha'
        · exact Or.inl (Or.inr ⟨hnone, hdependent⟩)
        · exact Or.inr ⟨hnone, a', ha', hdependent⟩

theorem get_foldl_put_const (keys : List Int) (distances : SortedMap Int Nat) (n : Nat) (b : Int) :
    (keys.foldl (fun m key => m.put key n) distances).get b =
      if b ∈ keys then some n else distances.get b := by
  induction keys generalizing distances with
  | nil => simp
  | cons key keys ih =>
    rw [List.foldl_cons, ih, SortedMap.get_put]
    by_cases hmem : b ∈ keys
    · simp [hmem]
    · by_cases hkey : b = key
      · simp [hkey]
      · simp [hmem, hkey]

/-- After a round the candidates are the next layer. -/
theorem layered_next {source : Int → Prop} {distance visited : Nat} {frontier : List Int}
    {distances : SortedMap Int Nat} {evidence : EvidenceMap}
    (hlayered : Layered (Dependent edges) source distance distances.get frontier)
    (hfront : ∀ a ∈ frontier, a ∈ evidence.keys) :
    let round := frontier.foldl (expandNode edges labels distances evidence (distance + 1))
      ⟨.empty, visited⟩
    Layered (Dependent edges) source (distance + 1)
      (round.candidates.keys.foldl (fun m nodeId => m.put nodeId (distance + 1)) distances).get
      round.candidates.keys := by
  intro round
  have hkeys : ∀ b, b ∈ round.candidates.keys ↔
      distances.get b = none ∧ ∃ a ∈ frontier, Dependent edges a b := by
    intro b
    rw [mem_keys_expandNodes hfront]
    simp [SortedMap.mem_keys_iff]
  apply hlayered.advance
  · intro b n
    rw [get_foldl_put_const]
    by_cases hmem : b ∈ round.candidates.keys
    · obtain ⟨hnone, hdependent⟩ := (hkeys b).mp hmem
      rw [if_pos hmem, hnone]
      simp [hdependent, eq_comm]
    · rw [if_neg hmem]
      constructor
      · exact Or.inl
      · rintro (h | ⟨_, hnone, hdependent⟩)
        · exact h
        · exact absurd ((hkeys b).mpr ⟨hnone, hdependent⟩) hmem
  · exact hkeys

/-- The rounds that are left complete the layers up to the depth. -/
theorem walkRounds_distances {source : Int → Prop} {rounds distance : Nat} {frontier : List Int}
    {walk : ReverseWalk}
    (hlayered : Layered (Dependent edges) source distance walk.distances.get frontier)
    (hevidence : ∀ b, b ∈ walk.evidence.keys ↔ b ∈ walk.distances.keys) (b : Int) (n : Nat) :
    (walkRounds edges labels rounds distance frontier walk).distances.get b = some n ↔
      n ≤ distance + rounds ∧ IsLayer (Dependent edges) source b n := by
  induction rounds generalizing distance frontier walk with
  | zero => exact hlayered.known b n
  | succ rounds ih =>
    unfold walkRounds
    dsimp only
    have hfront : ∀ a ∈ frontier, a ∈ walk.evidence.keys := by
      intro a ha
      exact (hevidence a).mpr (SortedMap.mem_keys_iff.mpr ⟨distance, (hlayered.front a).mp ha⟩)
    have hnext := @layered_next edges labels _ _ walk.visitedEdgeCount _ _ _ hlayered hfront
    dsimp only at hnext
    generalize hround : frontier.foldl (expandNode edges labels walk.distances walk.evidence
      (distance + 1)) ⟨.empty, walk.visitedEdgeCount⟩ = round at hnext ⊢
    split
    · rename_i hempty
      rw [List.isEmpty_iff] at hempty
      rw [hempty] at hnext ⊢
      rw [hnext.exhausted (show distance + 1 ≤ distance + (rounds + 1) by omega)]
    · rw [ih hnext ?_]
      · rw [show distance + 1 + rounds = distance + (rounds + 1) by omega]
      · intro b
        dsimp only
        rw [SortedMap.mem_keys_foldl_put, SortedMap.mem_keys_iff (m := List.foldl _ _ _),
          get_foldl_put_const, hevidence, SortedMap.mem_keys_iff]
        change b ∈ round.candidates.keys ∨ _ ↔ _
        by_cases hmem : b ∈ round.candidates.keys
        · simp [hmem]
        · simp [hmem]

theorem get_seedDistances (seeds : EvidenceMap) (b : Int) :
    (seeds.keys.foldl (fun m seed => m.put seed 0) SortedMap.empty).get b =
      if b ∈ seeds.keys then some 0 else none := by
  rw [get_foldl_put_const, SortedMap.get_empty]

theorem layered_seeds (edges : List Edge) (seeds : EvidenceMap) :
    Layered (Dependent edges) (· ∈ seeds.keys) 0
      (seeds.keys.foldl (fun m seed => m.put seed 0) SortedMap.empty).get
      (seeds.keys.foldl (fun m seed => m.put seed 0) SortedMap.empty).keys := by
  apply Layered.start
  · intro b n
    rw [get_seedDistances]
    by_cases hb : b ∈ seeds.keys <;> simp [hb, eq_comm]
  · intro b
    rw [SortedMap.mem_keys_iff, get_seedDistances]
    by_cases hb : b ∈ seeds.keys <;> simp [hb]

/-- The distances are the shortest numbers of edges to a seed, up to the depth. -/
theorem affectedReverseWalk_distances {depth : Nat} {seeds : EvidenceMap} (b : Int) (n : Nat) :
    (affectedReverseWalk edges labels depth seeds).distances.get b = some n ↔
      n ≤ depth ∧ IsLayer (Dependent edges) (· ∈ seeds.keys) b n := by
  unfold affectedReverseWalk
  rw [walkRounds_distances (layered_seeds edges seeds) ?_, Nat.zero_add]
  intro b
  dsimp only
  rw [SortedMap.mem_keys_iff (m := List.foldl _ _ _), get_seedDistances]
  by_cases hb : b ∈ seeds.keys <;> simp [hb]

end Spec

end CodeStory.Affected
