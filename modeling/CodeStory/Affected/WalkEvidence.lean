import Mathlib.Data.Prod.Lex
import CodeStory.Affected.ReverseWalk
import CodeStory.Lib.Selection

/-!
# The evidence that the walk records

A path of evidence starts at a seed and follows edges from target to source. The walk keeps one
value for a node and extends it by one edge at a time; it is the best over all the shortest paths
to the node, because extending by an edge keeps the order of proxy marks and strengths. With
distinct edge ids the order of the edges plays no part. The texts of the reasons are kept by the
model and not described here.
-/

set_option autoImplicit false

namespace CodeStory.Affected

open CodeStory.Graph (Edge)
open BreadthFirst

/-! ## Weakest floors -/

namespace ConfidenceFloor

/-- The order of strengths, with labels for equal ones. -/
def Weaker (f g : ConfidenceFloor) : Prop :=
  f.strength < g.strength ∨ f.strength = g.strength ∧ f.label ≤ g.label

def IsWeakest (f : ConfidenceFloor) (floors : List ConfidenceFloor) : Prop :=
  f ∈ floors ∧ ∀ g ∈ floors, f.Weaker g

variable {f g h : ConfidenceFloor} {floors : List ConfidenceFloor}

theorem Weaker.refl (f : ConfidenceFloor) : f.Weaker f :=
  .inr ⟨rfl, String.le_refl f.label⟩

theorem Weaker.trans (hfg : f.Weaker g) (hgh : g.Weaker h) : f.Weaker h := by
  rcases hfg with hfg | ⟨hfg, hlabel⟩
  · rcases hgh with hgh | ⟨hgh, _⟩
    · exact .inl (by omega)
    · exact .inl (by omega)
  · rcases hgh with hgh | ⟨hgh, hlabel'⟩
    · exact .inl (by omega)
    · exact .inr ⟨by omega, String.le_trans hlabel hlabel'⟩

theorem Weaker.strength_le (h : f.Weaker g) : f.strength ≤ g.strength := by
  rcases h with h | ⟨h, _⟩ <;> omega

theorem weakest_spec (f g : ConfidenceFloor) :
    (f.weakest g = f ∨ f.weakest g = g) ∧ (f.weakest g).Weaker f ∧ (f.weakest g).Weaker g := by
  unfold weakest
  cases hcompare : compare f.strength g.strength with
  | lt => exact ⟨.inl rfl, .refl f, .inl (Nat.compare_eq_lt.mp hcompare)⟩
  | gt => exact ⟨.inr rfl, .inl (Nat.compare_eq_gt.mp hcompare), .refl g⟩
  | eq =>
    have hstrength : f.strength = g.strength := Nat.compare_eq_eq.mp hcompare
    dsimp only
    split
    · rename_i hle
      exact ⟨.inl rfl, .refl f, .inr ⟨hstrength, hle⟩⟩
    · rename_i hnle
      have hle : g.label ≤ f.label := (String.le_total f.label g.label).resolve_left hnle
      exact ⟨.inr rfl, .inr ⟨hstrength.symm, hle⟩, .refl g⟩

theorem strength_weakest (f g : ConfidenceFloor) :
    (f.weakest g).strength = min f.strength g.strength := by
  obtain ⟨heq, hf, hg⟩ := weakest_spec f g
  have hlef := hf.strength_le
  have hleg := hg.strength_le
  rcases heq with heq | heq
  · rw [heq] at hleg ⊢
    omega
  · rw [heq] at hlef ⊢
    omega

theorem isWeakest_singleton (f : ConfidenceFloor) : f.IsWeakest [f] := by
  refine ⟨List.mem_singleton_self f, ?_⟩
  intro g hg
  rw [List.mem_singleton.mp hg]
  exact .refl f

theorem IsWeakest.append (hf : f.IsWeakest floors) (g : ConfidenceFloor) :
    (f.weakest g).IsWeakest (floors ++ [g]) := by
  obtain ⟨heq, hweakf, hweakg⟩ := weakest_spec f g
  refine ⟨?_, ?_⟩
  · rcases heq with heq | heq
    · rw [heq]
      exact List.mem_append_left _ hf.1
    · rw [heq]
      exact List.mem_append_right _ (List.mem_singleton_self g)
  · intro h hh
    rcases List.mem_append.mp hh with hh | hh
    · exact hweakf.trans (hf.2 h hh)
    · rw [List.mem_singleton.mp hh]
      exact hweakg

end ConfidenceFloor

/-! ## Paths of evidence -/

/-- From a seed with its evidence along edges, each from its target to its source. -/
inductive SeedPath (edges : List Edge) (seeds : EvidenceMap) :
    Int → GraphEvidence → List Edge → Prop
  | seed {b : Int} {start : GraphEvidence} (h : seeds.get b = some start) :
      SeedPath edges seeds b start []
  | follow {a : Int} {start : GraphEvidence} {path : List Edge} {edge : Edge}
      (h : SeedPath edges seeds a start path) (hedge : edge ∈ edges)
      (htarget : edge.effectiveTarget = a) :
      SeedPath edges seeds edge.effectiveSource start (path ++ [edge])

def tieStep (edge : Edge) : PathTieStep := ⟨edge.id, edge.effectiveSource, edge.effectiveTarget⟩

/-- The floors that a path meets, from that of its seed on. -/
def pathFloors (start : GraphEvidence) (path : List Edge) : List ConfidenceFloor :=
  start.confidenceFloor :: path.map edgeConfidence

/-- The value tells of this path: its steps, and the weakest floor on it. -/
structure TellsOf (e start : GraphEvidence) (path : List Edge) : Prop where
  distance : e.distance = path.length
  pathTieKey : e.pathTieKey = start.pathTieKey ++ path.map tieStep
  proxy : e.previousIdentityProxy = start.previousIdentityProxy
  bounded : start.previousIdentityProxy = true → e.confidenceFloor = .bounded
  weakest : start.previousIdentityProxy = false →
    e.confidenceFloor.IsWeakest (pathFloors start path)

/-- The value is no worse than what this path would give. -/
def NoWorseThan (e start : GraphEvidence) (path : List Edge) : Prop :=
  start.previousIdentityProxy = false → e.previousIdentityProxy = false ∧
    ∀ f : ConfidenceFloor, f.IsWeakest (pathFloors start path) →
      f.strength ≤ e.confidenceFloor.strength

/-- The value of a node at this distance: it tells of a shortest path, and is no worse than
any other shortest path. -/
def Records (edges : List Edge) (seeds : EvidenceMap) (b : Int) (n : Nat) (e : GraphEvidence) :
    Prop :=
  (∃ start path, SeedPath edges seeds b start path ∧ path.length = n ∧ TellsOf e start path) ∧
    ∀ start path, SeedPath edges seeds b start path → path.length = n → NoWorseThan e start path

/-- Every entry is the evidence of a seed, made for its own node. -/
def SeedEntries (seeds : EvidenceMap) : Prop :=
  ∀ b e, seeds.get b = some e → ∃ reason floor proxy, e = .seed b reason floor proxy

section Paths
variable {edges : List Edge} {labels : Int → Option String} {seeds : EvidenceMap}

theorem exists_seedPath_iff {b : Int} {n : Nat} :
    (∃ start path, SeedPath edges seeds b start path ∧ path.length = n) ↔
      ∃ root, root ∈ seeds.keys ∧ Walk (fun _ => Dependent edges) root n b := by
  constructor
  · rintro ⟨start, path, hpath, rfl⟩
    induction hpath with
    | @seed b start h => exact ⟨b, SortedMap.mem_keys_iff.mpr ⟨start, h⟩, .nil⟩
    | @follow a start path edge _ hedge htarget ih =>
      obtain ⟨root, hroot, hwalk⟩ := ih
      rw [List.length_append, List.length_singleton]
      exact ⟨root, hroot, .snoc hwalk ⟨edge, hedge, htarget, rfl⟩⟩
  · rintro ⟨root, hroot, hwalk⟩
    induction hwalk with
    | nil =>
      obtain ⟨start, hstart⟩ := SortedMap.mem_keys_iff.mp hroot
      exact ⟨start, [], .seed hstart, rfl⟩
    | snoc _ hstep ih =>
      obtain ⟨start, path, hpath, hlength⟩ := ih
      obtain ⟨edge, hedge, htarget, rfl⟩ := hstep
      refine ⟨start, path ++ [edge], .follow hpath hedge htarget, ?_⟩
      rw [List.length_append, List.length_singleton, hlength]

theorem SeedPath.walk {b : Int} {start : GraphEvidence} {path : List Edge}
    (h : SeedPath edges seeds b start path) :
    ∃ root, root ∈ seeds.keys ∧ Walk (fun _ => Dependent edges) root path.length b :=
  exists_seedPath_iff.mp ⟨start, path, h, rfl⟩

/-- The seed's own value. -/
theorem records_seed {b : Int} {e : GraphEvidence} (hseeds : SeedEntries seeds)
    (h : seeds.get b = some e) : Records edges seeds b 0 e := by
  refine ⟨⟨e, [], .seed h, rfl, ?_⟩, ?_⟩
  · obtain ⟨reason, floor, proxy, rfl⟩ := hseeds b e h
    refine ⟨rfl, by simp, rfl, ?_, ?_⟩
    · intro hproxy
      exact if_pos hproxy
    · intro _
      exact ConfidenceFloor.isWeakest_singleton _
  · intro start path hpath hlength hproxy
    obtain rfl : path = [] := List.eq_nil_of_length_eq_zero hlength
    generalize hnil : ([] : List Edge) = path at hpath
    cases hpath with
    | seed h' =>
      obtain rfl : e = start := Option.some.inj (h.symm.trans h')
      refine ⟨hproxy, ?_⟩
      intro f hf
      rw [pathFloors, List.map_nil] at hf
      rw [List.mem_singleton.mp hf.1]
    | follow => simp at hnil

/-! ## Extending by one edge -/

theorem TellsOf.extend {e start : GraphEvidence} {path : List Edge} (h : TellsOf e start path)
    (edge : Edge) (targetLabel : String) {distance : Nat} (hdistance : distance = path.length + 1) :
    TellsOf (dependentEvidence distance edge targetLabel e) start (path ++ [edge]) where
  distance := by
    rw [List.length_append, List.length_singleton]
    exact hdistance
  pathTieKey := by
    have hkey : (dependentEvidence distance edge targetLabel e).pathTieKey =
        e.pathTieKey ++ [tieStep edge] := rfl
    rw [hkey, h.pathTieKey, List.map_append, List.append_assoc]
    rfl
  proxy := h.proxy
  bounded := by
    intro hproxy
    exact if_pos (h.proxy.trans hproxy)
  weakest := by
    intro hproxy
    have hnot : e.previousIdentityProxy = false := h.proxy.trans hproxy
    have hfloor : (dependentEvidence distance edge targetLabel e).confidenceFloor =
        e.confidenceFloor.weakest (edgeConfidence edge) := by
      unfold dependentEvidence
      dsimp only
      rw [hnot, if_neg Bool.false_ne_true]
    rw [hfloor, pathFloors, List.map_append]
    exact (h.weakest hproxy).append (edgeConfidence edge)

/-- Extending keeps the order: what was no worse before the edge is no worse after it. -/
theorem NoWorseThan.extend {e start : GraphEvidence} {path : List Edge}
    (h : NoWorseThan e start path) (edge : Edge) (targetLabel : String) (distance : Nat)
    (hbest : ∃ f : ConfidenceFloor, f.IsWeakest (pathFloors start path)) :
    NoWorseThan (dependentEvidence distance edge targetLabel e) start (path ++ [edge]) := by
  intro hproxy
  obtain ⟨hnot, hstrength⟩ := h hproxy
  refine ⟨hnot, ?_⟩
  intro f hf
  obtain ⟨g, hg⟩ := hbest
  have hfloor : (dependentEvidence distance edge targetLabel e).confidenceFloor =
      e.confidenceFloor.weakest (edgeConfidence edge) := by
    unfold dependentEvidence
    dsimp only
    rw [hnot, if_neg Bool.false_ne_true]
  have hle : g.strength ≤ e.confidenceFloor.strength := hstrength g hg
  have hfg : f.strength ≤ g.strength := by
    apply (hf.2 g _).strength_le
    rw [pathFloors, List.map_append, ← List.cons_append]
    exact List.mem_append_left _ hg.1
  have hfedge : f.strength ≤ (edgeConfidence edge).strength := by
    apply (hf.2 (edgeConfidence edge) _).strength_le
    simp [pathFloors]
  rw [hfloor, ConfidenceFloor.strength_weakest]
  omega

theorem exists_isWeakest (start : GraphEvidence) (path : List Edge) :
    ∃ f : ConfidenceFloor, f.IsWeakest (pathFloors start path) := by
  induction path using List.reverseRecOn with
  | nil => exact ⟨_, ConfidenceFloor.isWeakest_singleton _⟩
  | append_singleton path edge ih =>
    obtain ⟨f, hf⟩ := ih
    refine ⟨f.weakest (edgeConfidence edge), ?_⟩
    rw [pathFloors, List.map_append]
    exact hf.append (edgeConfidence edge)

end Paths

/-! ## One round -/

/-- The first three parts of the comparison. -/
def RanksBefore (e c : GraphEvidence) : Prop :=
  e.distance < c.distance ∨ e.distance = c.distance ∧
    (e.previousIdentityProxy < c.previousIdentityProxy ∨
      e.previousIdentityProxy = c.previousIdentityProxy ∧
        c.confidenceFloor.strength ≤ e.confidenceFloor.strength)

theorem RanksBefore.refl (e : GraphEvidence) : RanksBefore e e :=
  .inr ⟨rfl, .inr ⟨rfl, Nat.le_refl _⟩⟩

theorem RanksBefore.trans (e c d : GraphEvidence) (h : RanksBefore e c) (h' : RanksBefore c d) :
    RanksBefore e d := by
  rcases h with h | ⟨h, hproxy⟩
  · rcases h' with h' | ⟨h', _⟩
    · exact .inl (by omega)
    · exact .inl (by omega)
  · rcases h' with h' | ⟨h', hproxy'⟩
    · exact .inl (by omega)
    · refine .inr ⟨by omega, ?_⟩
      rcases hproxy with hproxy | ⟨hproxy, hstrength⟩
      · rcases hproxy' with hproxy' | ⟨hproxy', _⟩
        · exact .inl (lt_trans hproxy hproxy')
        · exact .inl (hproxy' ▸ hproxy)
      · rcases hproxy' with hproxy' | ⟨hproxy', hstrength'⟩
        · exact .inl (hproxy ▸ hproxy')
        · exact .inr ⟨hproxy.trans hproxy', by omega⟩

/-- Equal up to the proxy mark, two values are ranked by strength. -/
theorem ranks_of_strength {v w : GraphEvidence} (hdistance : v.distance = w.distance)
    (hproxy : v.previousIdentityProxy = w.previousIdentityProxy) (rest : Ordering) :
    let o := (compare w.confidenceFloor.strength v.confidenceFloor.strength).then rest
    ((o == .lt) = true → RanksBefore v w) ∧ ((o == .lt) = false → RanksBefore w v) := by
  intro o
  unfold RanksBefore
  cases hstrength : compare w.confidenceFloor.strength v.confidenceFloor.strength with
  | lt =>
    have hlt := Nat.compare_eq_lt.mp hstrength
    refine ⟨fun _ => .inr ⟨hdistance, .inr ⟨hproxy, by omega⟩⟩, ?_⟩
    intro h
    simp [o, hstrength] at h
  | gt =>
    have hgt := Nat.compare_eq_gt.mp hstrength
    refine ⟨?_, fun _ => .inr ⟨hdistance.symm, .inr ⟨hproxy.symm, by omega⟩⟩⟩
    intro h
    simp [o, hstrength] at h
  | eq =>
    have heq := Nat.compare_eq_eq.mp hstrength
    exact ⟨fun _ => .inr ⟨hdistance, .inr ⟨hproxy, by omega⟩⟩,
      fun _ => .inr ⟨hdistance.symm, .inr ⟨hproxy.symm, by omega⟩⟩⟩

/-- Whichever way the comparison goes, its first parts do not go the other way. -/
theorem ranks_of_evidenceIsBetter (v w : GraphEvidence) :
    (evidenceIsBetter v w = true → RanksBefore v w) ∧
      (evidenceIsBetter v w = false → RanksBefore w v) := by
  unfold evidenceIsBetter compareEvidence
  cases hdistance : compare v.distance w.distance with
  | lt =>
    refine ⟨fun _ => .inl (Nat.compare_eq_lt.mp hdistance), ?_⟩
    intro h
    cases h
  | gt =>
    refine ⟨?_, fun _ => .inl (Nat.compare_eq_gt.mp hdistance)⟩
    intro h
    cases h
  | eq =>
    have hd := Nat.compare_eq_eq.mp hdistance
    cases hv : v.previousIdentityProxy with
    | false =>
      cases hw : w.previousIdentityProxy with
      | false => exact ranks_of_strength hd (hv.trans hw.symm) _
      | true =>
        refine ⟨fun _ => .inr ⟨hd, .inl (by rw [hv, hw]; decide)⟩, ?_⟩
        intro h
        cases h
    | true =>
      cases hw : w.previousIdentityProxy with
      | false =>
        refine ⟨?_, fun _ => .inr ⟨hd.symm, .inl (by rw [hv, hw]; decide)⟩⟩
        intro h
        cases h
      | true => exact ranks_of_strength hd (hv.trans hw.symm) _

/-- No worse than a path, if a value that ranks behind is no worse than it. -/
theorem NoWorseThan.of_ranksBefore {e c start : GraphEvidence} {path : List Edge}
    (h : NoWorseThan c start path) (hrank : RanksBefore e c) (hdistance : e.distance = c.distance) :
    NoWorseThan e start path := by
  intro hproxy
  obtain ⟨hnot, hstrength⟩ := h hproxy
  rcases hrank with hlt | ⟨_, hlt | ⟨heq, hle⟩⟩
  · omega
  · rw [hnot] at hlt
    cases he : e.previousIdentityProxy with
    | false => exact absurd (he ▸ hlt) (by decide)
    | true => exact absurd (he ▸ hlt) (by decide)
  · refine ⟨heq.trans hnot, ?_⟩
    intro f hf
    exact Nat.le_trans (hstrength f hf) hle

section Rounds
variable {edges : List Edge} {labels : Int → Option String} {seeds : EvidenceMap}

def offersAlong (labels : Int → Option String) (distances : SortedMap Int Nat)
    (nextDistance : Nat) (nodeId : Int) (parent : GraphEvidence) (followed : List Edge) :
    List (Int × GraphEvidence) :=
  (followed.filter fun edge => (distances.get edge.effectiveSource).isNone).map fun edge =>
    (edge.effectiveSource,
      dependentEvidence nextDistance edge ((labels nodeId).getD (toString nodeId)) parent)

/-- What one node of the frontier offers. -/
def offersFrom (edges : List Edge) (labels : Int → Option String) (distances : SortedMap Int Nat)
    (evidence : EvidenceMap) (nextDistance : Nat) (nodeId : Int) : List (Int × GraphEvidence) :=
  match evidence.get nodeId with
  | none => []
  | some parent =>
    offersAlong labels distances nextDistance nodeId parent (reverseDependents edges nodeId)

theorem followEdges_candidates {distances : SortedMap Int Nat} {nextDistance : Nat}
    {nodeId : Int} {parent : GraphEvidence} (followed : List Edge) (round : Round) :
    (followed.foldl (followEdge labels distances nextDistance nodeId parent) round).candidates =
      (offersAlong labels distances nextDistance nodeId parent followed).foldl
        (fun m e => m.offer evidenceIsBetter e.1 e.2) round.candidates := by
  induction followed generalizing round with
  | nil => rfl
  | cons edge followed ih =>
    rw [List.foldl_cons, ih]
    unfold followEdge offersAlong
    cases hget : distances.get edge.effectiveSource with
    | some n =>
      rw [List.filter_cons_of_neg (by simp [hget])]
      rfl
    | none =>
      rw [List.filter_cons_of_pos (by simp [hget])]
      rfl

theorem expandNodes_candidates {distances : SortedMap Int Nat} {evidence : EvidenceMap}
    {nextDistance : Nat} (frontier : List Int) (round : Round) :
    (frontier.foldl (expandNode edges labels distances evidence nextDistance) round).candidates =
      (frontier.flatMap (offersFrom edges labels distances evidence nextDistance)).foldl
        (fun m e => m.offer evidenceIsBetter e.1 e.2) round.candidates := by
  induction frontier generalizing round with
  | nil => rfl
  | cons nodeId frontier ih =>
    rw [List.foldl_cons, ih, List.flatMap_cons, List.foldl_append]
    congr 1
    unfold expandNode offersFrom
    cases hget : evidence.get nodeId with
    | none => rfl
    | some parent => exact followEdges_candidates _ round

theorem mem_offers {distances : SortedMap Int Nat} {evidence : EvidenceMap} {nextDistance : Nat}
    {frontier : List Int} {b : Int} {e : GraphEvidence} :
    (b, e) ∈ frontier.flatMap (offersFrom edges labels distances evidence nextDistance) ↔
      ∃ a ∈ frontier, ∃ parent, evidence.get a = some parent ∧ ∃ edge ∈ edges,
        edge.effectiveTarget = a ∧ distances.get edge.effectiveSource = none ∧
        edge.effectiveSource = b ∧
        dependentEvidence nextDistance edge ((labels a).getD (toString a)) parent = e := by
  rw [List.mem_flatMap]
  apply exists_congr
  intro a
  apply and_congr_right
  intro _
  unfold offersFrom
  cases hget : evidence.get a with
  | none => simp
  | some parent =>
    unfold offersAlong
    rw [List.mem_map]
    constructor
    · intro h
      obtain ⟨edge, hedge, heq⟩ := h
      obtain ⟨hmem, hnone⟩ := List.mem_filter.mp hedge
      obtain ⟨hedges, htarget⟩ := mem_reverseDependents.mp hmem
      obtain ⟨hsource, hvalue⟩ := Prod.mk.inj heq
      exact ⟨parent, rfl, edge, hedges, htarget, by simpa using hnone, hsource, hvalue⟩
    · intro h
      obtain ⟨_, hparent, edge, hedges, htarget, hnone, hsource, hvalue⟩ := h
      cases hparent
      refine ⟨edge, List.mem_filter.mpr ⟨?_, by simpa using hnone⟩, by rw [hsource, hvalue]⟩
      exact mem_reverseDependents.mpr ⟨hedges, htarget⟩

/-- What holds of the evidence between rounds. -/
structure Evidenced (edges : List Edge) (seeds : EvidenceMap) (distance : Int → Option Nat)
    (evidence : EvidenceMap) : Prop where
  known : ∀ b n, distance b = some n →
    ∃ e, evidence.get b = some e ∧ Records edges seeds b n e
  unknown : ∀ b, distance b = none → evidence.get b = none

/-- The values of one round are those of the next layer. -/
theorem records_next {distance : Nat} {distances : SortedMap Int Nat} {evidence : EvidenceMap}
    {frontier : List Int} {visited : Nat}
    (hlayered : Layered (Dependent edges) (· ∈ seeds.keys) distance distances.get frontier)
    (hevidenced : Evidenced edges seeds distances.get evidence) {b : Int} {e : GraphEvidence}
    (he : (frontier.foldl (expandNode edges labels distances evidence (distance + 1))
      ⟨.empty, visited⟩).candidates.get b = some e) :
    distances.get b = none ∧ Records edges seeds b (distance + 1) e := by
  rw [expandNodes_candidates] at he
  obtain ⟨hfrom, hleast⟩ := SortedMap.foldl_offer_spec RanksBefore.refl RanksBefore.trans
    (fun v w => (ranks_of_evidenceIsBetter v w).1) (fun v w => (ranks_of_evidenceIsBetter v w).2) he
  rw [SortedMap.get_empty] at hfrom
  obtain ⟨a, ha, parent, hparent, edge, hedge, htarget, hnone, rfl, rfl⟩ :=
    mem_offers.mp (hfrom.resolve_left (by simp))
  have hrecorded : ∀ a ∈ frontier, ∃ parent, evidence.get a = some parent ∧
      Records edges seeds a distance parent :=
    fun a ha => hevidenced.known a distance ((hlayered.front a).mp ha)
  refine ⟨hnone, ?_, ?_⟩
  · obtain ⟨parent', hparent', ⟨start, path, hpath, hlength, htells⟩, _⟩ := hrecorded a ha
    obtain rfl : parent = parent' := Option.some.inj (hparent.symm.trans hparent')
    refine ⟨start, path ++ [edge], .follow hpath hedge htarget, ?_, ?_⟩
    · rw [List.length_append, List.length_singleton, hlength]
    · exact htells.extend edge _ (by rw [hlength])
  · intro start path hpath hlength
    generalize hb : edge.effectiveSource = b at hpath hnone hleast
    cases hpath with
    | seed => simp at hlength
    | @follow a' _ path' last hpath' hlast htarget' =>
      have hlength' : path'.length = distance := by simpa using hlength
      -- the node before the last edge is in the frontier
      have ha' : a' ∈ frontier := by
        rw [hlayered.front]
        obtain ⟨root, hroot, hwalk⟩ := hpath'.walk
        obtain ⟨m, hm, hlayer⟩ := exists_isLayer hroot hwalk
        have hknown : distances.get a' = some m := (hlayered.known a' m).mpr ⟨by omega, hlayer⟩
        by_cases hlevel : m = distance
        · rw [hknown, hlevel]
        · obtain ⟨⟨root', hroot', hwalk'⟩, _⟩ := hlayer
          obtain ⟨k, hk, hlayer'⟩ :=
            exists_isLayer hroot' (.snoc hwalk' ⟨last, hlast, htarget', rfl⟩)
          have hlt := (hlayered.known last.effectiveSource k).mpr ⟨by omega, hlayer'⟩
          rw [hnone] at hlt
          cases hlt
      obtain ⟨parent', hparent', _, hbest⟩ := hrecorded a' ha'
      have hoffered := hleast (dependentEvidence (distance + 1) last
        ((labels a').getD (toString a')) parent')
        (.inr (mem_offers.mpr ⟨a', ha', parent', hparent', last, hlast, htarget', hnone, rfl, rfl⟩))
      exact ((hbest start path' hpath' hlength').extend last _ (distance + 1)
        (exists_isWeakest start path')).of_ranksBefore hoffered rfl

theorem evidenced_next {distance : Nat} {frontier : List Int} {walk : ReverseWalk} {round : Round}
    (hlayered : Layered (Dependent edges) (· ∈ seeds.keys) distance walk.distances.get frontier)
    (hevidenced : Evidenced edges seeds walk.distances.get walk.evidence)
    (hround : frontier.foldl (expandNode edges labels walk.distances walk.evidence (distance + 1))
      ⟨.empty, walk.visitedEdgeCount⟩ = round) :
    Evidenced edges seeds
      (round.candidates.keys.foldl (fun m nodeId => m.put nodeId (distance + 1))
        walk.distances).get
      (round.candidates.entries.foldl (fun m entry => m.put entry.1 entry.2) walk.evidence) where
  known := by
    intro b n hn
    rw [get_foldl_put_const] at hn
    rw [SortedMap.get_foldl_put_entries]
    by_cases hmem : b ∈ round.candidates.keys
    · rw [if_pos hmem] at hn
      obtain rfl : distance + 1 = n := Option.some.inj hn
      obtain ⟨e, he⟩ := SortedMap.mem_keys_iff.mp hmem
      refine ⟨e, by rw [he]; rfl, ?_⟩
      rw [← hround] at he
      exact (records_next hlayered hevidenced he).2
    · rw [if_neg hmem] at hn
      obtain ⟨e, he, hrecords⟩ := hevidenced.known b n hn
      refine ⟨e, ?_, hrecords⟩
      cases hget : round.candidates.get b with
      | none => exact he
      | some c => exact absurd (SortedMap.mem_keys_iff.mpr ⟨c, hget⟩) hmem
  unknown := by
    intro b hb
    rw [get_foldl_put_const] at hb
    rw [SortedMap.get_foldl_put_entries]
    by_cases hmem : b ∈ round.candidates.keys
    · rw [if_pos hmem] at hb
      cases hb
    · rw [if_neg hmem] at hb
      cases hget : round.candidates.get b with
      | none => exact hevidenced.unknown b hb
      | some c => exact absurd (SortedMap.mem_keys_iff.mpr ⟨c, hget⟩) hmem

theorem walkRounds_evidenced {rounds distance : Nat} {frontier : List Int} {walk : ReverseWalk}
    (hlayered : Layered (Dependent edges) (· ∈ seeds.keys) distance walk.distances.get frontier)
    (hevidenced : Evidenced edges seeds walk.distances.get walk.evidence) :
    Evidenced edges seeds (walkRounds edges labels rounds distance frontier walk).distances.get
      (walkRounds edges labels rounds distance frontier walk).evidence := by
  induction rounds generalizing distance frontier walk with
  | zero => exact hevidenced
  | succ rounds ih =>
    unfold walkRounds
    dsimp only
    generalize hround : frontier.foldl (expandNode edges labels walk.distances walk.evidence
      (distance + 1)) ⟨.empty, walk.visitedEdgeCount⟩ = round
    have hnext := evidenced_next hlayered hevidenced hround
    split
    · exact hnext
    · apply ih _ hnext
      rw [← hround]
      exact layered_next hlayered fun a ha => by
        obtain ⟨e, he, _⟩ := hevidenced.known a distance ((hlayered.front a).mp ha)
        exact SortedMap.mem_keys_iff.mpr ⟨e, he⟩

end Rounds

/-! ## The order of the edges -/

theorem compareReverseEdges_iff {left right : Edge} (hids : left.id ≠ right.id) :
    compareReverseEdges left right ≠ .gt ↔
      toLex (left.effectiveSource, left.id) ≤ toLex (right.effectiveSource, right.id) := by
  rw [Prod.Lex.toLex_le_toLex]
  unfold compareReverseEdges
  cases hsource : compare left.effectiveSource right.effectiveSource with
  | lt =>
    have hlt := compare_lt_iff_lt.mp hsource
    simp [hlt]
  | gt =>
    have hgt := compare_gt_iff_gt.mp hsource
    simp [hgt.le, hgt.ne']
  | eq =>
    have heq := compare_eq_iff_eq.mp hsource
    cases hid : compare left.id right.id with
    | lt =>
      have hlt := compare_lt_iff_lt.mp hid
      simp [heq, hlt.le]
    | gt =>
      have hgt := compare_gt_iff_gt.mp hid
      simp [heq, hgt]
    | eq => exact absurd (compare_eq_iff_eq.mp hid) hids

/-- With distinct ids the edges into a node are followed in one order. -/
theorem reverseDependents_perm {edges edges' : List Edge} (hids : (edges.map (·.id)).Nodup)
    (hperm : edges.Perm edges') (nodeId : Int) :
    reverseDependents edges nodeId = reverseDependents edges' nodeId := by
  unfold reverseDependents
  have hnodup : ((edges.filter (·.effectiveTarget = nodeId)).map (·.id)).Nodup :=
    hids.sublist (List.filter_sublist.map _)
  apply Selection.insertionSort_eq_of_perm (fun e => toLex (e.effectiveSource, e.id))
    (hperm.filter _)
  · apply List.Nodup.of_map (fun k => (ofLex k).2)
    rw [List.map_map]
    exact hnodup
  · intro left hleft right hright hkey
    have hne : left.id ≠ right.id := by
      intro heq
      have hsame := List.inj_on_of_nodup_map hnodup hleft hright heq
      exact hkey (by rw [hsame])
    exact compareReverseEdges_iff hne

/-- The walk reads its edges only through those into a node. -/
theorem affectedReverseWalk_perm {edges edges' : List Edge} (hids : (edges.map (·.id)).Nodup)
    (hperm : edges.Perm edges') (labels : Int → Option String) (depth : Nat)
    (seeds : EvidenceMap) :
    affectedReverseWalk edges labels depth seeds =
      affectedReverseWalk edges' labels depth seeds := by
  have hexpand : expandNode edges labels = expandNode edges' labels := by
    funext distances evidence nextDistance round nodeId
    unfold expandNode
    rw [reverseDependents_perm hids hperm]
  have hrounds : ∀ rounds distance frontier walk,
      walkRounds edges labels rounds distance frontier walk =
        walkRounds edges' labels rounds distance frontier walk := by
    intro rounds
    induction rounds with
    | zero => exact fun _ _ _ => rfl
    | succ rounds ih =>
      intro distance frontier walk
      unfold walkRounds
      rw [hexpand]
      dsimp only
      rw [ih]
  unfold affectedReverseWalk
  rw [hrounds]

/-! ## The walk -/

theorem affectedReverseWalk_evidenced {edges : List Edge} {labels : Int → Option String}
    {seeds : EvidenceMap} (hseeds : SeedEntries seeds) (depth : Nat) :
    Evidenced edges seeds (affectedReverseWalk edges labels depth seeds).distances.get
      (affectedReverseWalk edges labels depth seeds).evidence := by
  unfold affectedReverseWalk
  apply walkRounds_evidenced (layered_seeds edges seeds)
  refine ⟨?_, ?_⟩
  · intro b n hn
    rw [get_seedDistances] at hn
    split at hn
    · rename_i hb
      obtain rfl : 0 = n := Option.some.inj hn
      obtain ⟨e, he⟩ := SortedMap.mem_keys_iff.mp hb
      exact ⟨e, he, records_seed hseeds he⟩
    · cases hn
  · intro b hb
    rw [get_seedDistances] at hb
    split at hb
    · cases hb
    · rename_i hnot
      cases hget : seeds.get b with
      | none => rfl
      | some e => exact absurd (SortedMap.mem_keys_iff.mpr ⟨e, hget⟩) hnot

/-- The distances are those of shortest paths to a seed, the evidence is that of a best shortest
path, and the order of the edges changes nothing. -/
theorem affected_reverse_walk_is_exact {edges : List Edge} (hids : (edges.map (·.id)).Nodup)
    {seeds : EvidenceMap} (hseeds : SeedEntries seeds) (labels : Int → Option String)
    (depth : Nat) :
    let walk := affectedReverseWalk edges labels depth seeds
    (∀ b n, walk.distances.get b = some n ↔
      n ≤ depth ∧ IsLeast { n | ∃ start path, SeedPath edges seeds b start path ∧
        path.length = n } n) ∧
    (∀ b n, walk.distances.get b = some n →
      ∃ e, walk.evidence.get b = some e ∧ Records edges seeds b n e) ∧
    (∀ b, walk.distances.get b = none → walk.evidence.get b = none) ∧
    ∀ edges' : List Edge, edges.Perm edges' →
      affectedReverseWalk edges' labels depth seeds = walk := by
  intro walk
  have hevidenced : Evidenced edges seeds walk.distances.get walk.evidence :=
    affectedReverseWalk_evidenced hseeds depth
  refine ⟨?_, hevidenced.known, hevidenced.unknown, ?_⟩
  · intro b n
    simp only [exists_seedPath_iff]
    exact affectedReverseWalk_distances b n
  · intro edges' hperm
    exact (affectedReverseWalk_perm hids hperm labels depth seeds).symm

/-- The first edge leads to a proxy, the second one to a file that changed. -/
def twoWays : List Edge :=
  [⟨7, 1, 0, .callEdge, none, none, none, none, none, none, none, none⟩,
    ⟨8, 1, 5, .callEdge, none, none, none, none, none, none, some .uncertain, none⟩]

def twoSeeds : EvidenceMap :=
  (SortedMap.empty.put 0 (.seed 0 "proxy" (.fromLabel "direct") true)).put 5
    (.seed 5 "changed" (.fromLabel "direct") false)

theorem walk_passes_over_a_proxy :
    (affectedReverseWalk twoWays (fun _ => none) 1 twoSeeds).distances.get 1 = some 1 ∧
    ∃ e, (affectedReverseWalk twoWays (fun _ => none) 1 twoSeeds).evidence.get 1 = some e ∧
      Records twoWays twoSeeds 1 1 e := by
  have hdistance : (affectedReverseWalk twoWays (fun _ => none) 1 twoSeeds).distances.get 1 =
      some 1 := by decide
  have hseeds : SeedEntries twoSeeds := by
    intro b e he
    unfold twoSeeds at he
    rw [SortedMap.get_put, SortedMap.get_put] at he
    split at he
    · rename_i hb
      exact ⟨_, _, _, hb ▸ (Option.some.inj he).symm⟩
    · split at he
      · rename_i hb
        exact ⟨_, _, _, hb ▸ (Option.some.inj he).symm⟩
      · cases he
  have h := @affected_reverse_walk_is_exact twoWays (by decide) twoSeeds hseeds (fun _ => none) 1
  exact ⟨hdistance, h.2.1 1 1 hdistance⟩

end CodeStory.Affected
