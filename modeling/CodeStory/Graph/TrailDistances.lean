import CodeStory.Graph.TrailToTarget

/-!
# The searches for distances

Both searches behind a path trail run one loop. It always ends. Its distances are levels of a
breadth-first search over what the fetches return, which is the whole graph as soon as no fetch
was cut short.
-/

set_option autoImplicit false

namespace CodeStory.Graph

universe u

open BreadthFirst (Walk IsDistance Search Discovers discover discover_discovers)
open Tables (u32Max)

variable {β : Type u}

section Relax
variable {allow : Int → Nat → Bool} {direction : TrailDirection} {currentId : Int} {depth : Nat}

theorem insertNew_fresh {depths : DepthMap} {entry : Int × Nat} (h : entry.1 ∉ depths.keys) :
    (depths.insertNew entry).rows = depths.rows ++ [entry] := by
  unfold KeyedTable.insertNew
  rw [dif_neg h]

/-- One turn adds the admitted neighbours that have no distance yet. -/
theorem relax_spec (hdepth : depth < u32Max) (edges : List Edge) (dist : DepthMap)
    (queue : List (Int × Nat)) :
    let found := discover (depth + 1)
      ((edges.filterMap (neighborForDirection currentId direction)).filter (allow · (depth + 1)))
      dist.keys
    (Storage.relax allow direction currentId depth edges (dist, queue)).1.rows =
        dist.rows ++ found ∧
      (Storage.relax allow direction currentId depth edges (dist, queue)).2 = queue ++ found := by
  have hnext : u32SaturatingAdd depth 1 = depth + 1 := by
    unfold u32SaturatingAdd
    omega
  induction edges generalizing dist queue with
  | nil => simp [Storage.relax, discover]
  | cons edge edges ih =>
    unfold Storage.relax
    cases hneighbor : neighborForDirection currentId direction edge with
    | none =>
      rw [List.filterMap_cons_none hneighbor]
      exact ih dist queue
    | some neighborId =>
      rw [List.filterMap_cons_some hneighbor]
      dsimp only
      rw [hnext]
      by_cases hallow : allow neighborId (depth + 1) = true
      · simp only [List.filter_cons, hallow, if_true, Bool.true_and]
        by_cases hknown : neighborId ∈ dist.keys
        · rw [if_neg (by simp [hknown])]
          simp only [discover, if_pos hknown]
          exact ih dist queue
        · rw [if_pos (by simp [hknown])]
          simp only [discover, if_neg hknown]
          have hrows := @insertNew_fresh dist (neighborId, depth + 1) hknown
          have hkeys : (dist.insertNew (neighborId, depth + 1)).keys =
              dist.keys ++ [neighborId] := by
            unfold KeyedTable.keys
            rw [hrows, List.map_append]
            rfl
          obtain ⟨hdist, hqueue⟩ := ih (dist.insertNew (neighborId, depth + 1))
            (queue ++ [(neighborId, depth + 1)])
          rw [hkeys] at hdist hqueue
          rw [hdist, hqueue, hrows]
          simp
      · rw [Bool.not_eq_true] at hallow
        simp only [List.filter_cons, hallow, Bool.false_and, Bool.false_eq_true, if_false]
        exact ih dist queue

end Relax

section Distances
variable (s : Storage β) (allow : Int → Nat → Bool) (direction : TrailDirection)
  (options : BfsTraversalOptions)

def distanceFetch (a : Int) : EdgeFetchResult :=
  s.getEdgesForNodeLimited a direction options.toEdgeFilters (some options.maxEdgesPerNode)

/-- A step of the search as it runs: along a fetched edge. -/
def FetchedStep (level : Nat) (a b : Int) : Prop :=
  level < options.maxDepth ∧
    b ∈ (distanceFetch s direction options a).edges.filterMap (neighborForDirection a direction) ∧
    allow b (level + 1) = true

/-- A step of the search as it should be: along a visible edge. -/
def VisibleStep (level : Nat) (a b : Int) : Prop :=
  level < options.maxDepth ∧
    (∃ edge ∈ s.incidentEdges options.toEdgeFilters direction a,
      neighborForDirection a direction edge = some b) ∧
    allow b (level + 1) = true

/-- The state of the loop, with what it has taken off its queue. -/
structure Measures (start : Int) (dist : DepthMap) (queue : List (Int × Nat)) (truncated : Bool)
    (taken : List (Int × Nat)) : Prop where
  search : Search (FetchedStep s allow direction options) start taken queue
  rows : dist.rows = taken ++ queue
  levels : ∀ p ∈ taken ++ queue, p.2 ≤ options.maxNodes
  fetched : truncated = false → ∀ p ∈ taken, p.2 < options.maxDepth →
    (distanceFetch s direction options p.1).truncated = false

variable {s allow direction options} {start : Int} {dist : DepthMap} {queue : List (Int × Nat)}
  {truncated : Bool} {taken : List (Int × Nat)}

theorem measures_start (start : Int) :
    Measures s allow direction options start (KeyedTable.empty.upsert (start, 0)) [(start, 0)]
      false [] where
  search := .start
  rows := rfl
  levels := by simp
  fetched := by simp

theorem FetchedStep.visible {level : Nat} {a b : Int}
    (h : FetchedStep s allow direction options level a b) :
    VisibleStep s allow direction options level a b := by
  obtain ⟨hlevel, hb, hallow⟩ := h
  obtain ⟨edge, hedge, hb⟩ := List.mem_filterMap.mp hb
  exact ⟨hlevel, ⟨edge, mem_incidentEdges_of_mem_fetch hedge, hb⟩, hallow⟩

theorem VisibleStep.fetched {level : Nat} {a b : Int}
    (h : VisibleStep s allow direction options level a b)
    (hfetch : (distanceFetch s direction options a).truncated = false) :
    FetchedStep s allow direction options level a b := by
  obtain ⟨hlevel, ⟨edge, hedge, hb⟩, hallow⟩ := h
  refine ⟨hlevel, List.mem_filterMap.mpr ⟨edge, ?_, hb⟩, hallow⟩
  have hall := fetch_eq_incidentEdges hfetch
  unfold distanceFetch
  rwa [hall]

theorem Measures.skip {currentId : Int} {depth : Nat}
    (h : Measures s allow direction options start dist ((currentId, depth) :: queue) truncated
      taken)
    (hdepth : depth ≥ options.maxDepth) :
    Measures s allow direction options start dist queue truncated
      (taken ++ [(currentId, depth)]) where
  search := h.search.skip fun b hb => Nat.not_lt.mpr hdepth hb.1
  rows := by
    rw [h.rows]
    simp
  levels := by
    intro p hp
    exact h.levels p (by simpa using hp)
  fetched := by
    intro htruncated p hp hlt
    rcases List.mem_append.mp hp with hp | hp
    · exact h.fetched htruncated p hp hlt
    · rw [List.mem_singleton.mp hp] at hlt
      exact absurd hlt (Nat.not_lt.mpr hdepth)

theorem Measures.expand {currentId : Int} {depth : Nat}
    (h : Measures s allow direction options start dist ((currentId, depth) :: queue) truncated
      taken)
    (hsize : ¬ dist.size ≥ options.maxNodes) (hcap : options.maxNodes ≤ u32Max)
    (hdepth : ¬ depth ≥ options.maxDepth) :
    let found := Storage.relax allow direction currentId depth
      (distanceFetch s direction options currentId).edges (dist, queue)
    Measures s allow direction options start found.1 found.2
      (truncated || (distanceFetch s direction options currentId).truncated)
      (taken ++ [(currentId, depth)]) := by
  have hlevel : depth < dist.size := by
    have hlt := h.search.level_lt_length (p := (currentId, depth)) (by simp)
    rwa [← h.rows] at hlt
  obtain ⟨hrows, hqueue⟩ := @relax_spec allow direction currentId depth (by omega)
    (distanceFetch s direction options currentId).edges dist queue
  have hfound := discover_discovers (depth + 1)
    (((distanceFetch s direction options currentId).edges.filterMap
      (neighborForDirection currentId direction)).filter (allow · (depth + 1))) dist.keys
  dsimp only at hrows hqueue ⊢
  generalize discover (depth + 1) _ dist.keys = found at hrows hqueue hfound
  have hkeys : dist.keys = (taken ++ (currentId, depth) :: queue).map (·.1) := by
    unfold KeyedTable.keys
    rw [h.rows]
  rw [hkeys] at hfound
  refine ⟨?_, ?_, ?_, ?_⟩
  · rw [hqueue]
    refine h.search.take (hfound.congr fun b => ?_)
    rw [List.mem_filter]
    exact ⟨fun hb => ⟨Nat.lt_of_not_le hdepth, hb⟩, fun hb => hb.2⟩
  · rw [hrows, hqueue, h.rows]
    simp
  · rw [hqueue]
    intro p hp
    rcases BreadthFirst.Search.mem_take_iff.mp hp with hp | hp
    · exact h.levels p hp
    · rw [(hfound.unknown p hp).2.2]
      omega
  · intro htruncated p hp hlt
    rw [Bool.or_eq_false_iff] at htruncated
    rcases List.mem_append.mp hp with hp | hp
    · exact h.fetched htruncated.1 p hp hlt
    · rw [List.mem_singleton.mp hp]
      exact htruncated.2

/-- The loop ends, whatever it meets; unless it was truncated its queue is empty. -/
theorem distancesLoop_spec (hcap : options.maxNodes ≤ u32Max) {places : List Int}
    (hstart : start ∈ places)
    (hplaces : ∀ a b, (∃ edge ∈ s.incidentEdges options.toEdgeFilters direction a,
      neighborForDirection a direction edge = some b) → b ∈ places)
    (fuel : Nat) (h : Measures s allow direction options start dist queue truncated taken)
    (hfuel : places.length < fuel + taken.length) :
    ∃ dist' truncated', s.distancesLoop allow direction options fuel dist queue truncated =
        some (dist', truncated') ∧
      ∃ taken' queue', Measures s allow direction options start dist' queue' truncated' taken' ∧
        (truncated' = false → queue' = []) := by
  induction fuel generalizing dist queue truncated taken with
  | zero =>
    have hlength := h.search.length_le hstart fun n a b hstep => hplaces a b hstep.visible.2.1
    rw [List.length_append] at hlength
    omega
  | succ fuel ih =>
    cases queue with
    | nil => exact ⟨dist, truncated, rfl, taken, [], h, fun _ => rfl⟩
    | cons place queue =>
      obtain ⟨currentId, depth⟩ := place
      have hfuel' : places.length < fuel + (taken ++ [(currentId, depth)]).length := by
        rw [List.length_append, List.length_singleton]
        omega
      unfold Storage.distancesLoop
      split
      · refine ⟨dist, true, rfl, taken, (currentId, depth) :: queue, ?_, by simp⟩
        exact ⟨h.search, h.rows, h.levels, by simp⟩
      · rename_i hsize
        split
        · rename_i hdepth
          exact ih (h.skip hdepth) hfuel'
        · rename_i hdepth
          exact ih (h.expand hsize hcap hdepth) hfuel'

/-- The distances of a search that was not truncated are exact. -/
theorem Measures.get_eq_some_iff (h : Measures s allow direction options start dist [] false taken)
    (hallow : ∀ b m n, m ≤ n → allow b n = true → allow b m = true) {id : Int} {n : Nat} :
    dist.get id = some n ↔ IsDistance (VisibleStep s allow direction options) start id n := by
  have hsearch : Search (VisibleStep s allow direction options) start taken [] := by
    refine h.search.widen (fun _ _ _ hstep => hstep.visible) ?_
    intro p hp b hstep
    exact hstep.fetched (h.fetched rfl p hp hstep.1)
  have hrows := h.rows
  rw [List.append_nil] at hrows
  rw [CodeStory.Graph.get_eq_some_iff, hrows]
  apply hsearch.mem_iff_isDistance
  rintro m n a b hmn ⟨hlevel, hedge, hb⟩
  exact ⟨Nat.lt_of_le_of_lt hmn hlevel, hedge, hallow b _ _ (Nat.succ_le_succ hmn) hb⟩

theorem Measures.get_le (h : Measures s allow direction options start dist queue truncated taken)
    {id : Int} {n : Nat} (hget : dist.get id = some n) : n ≤ options.maxNodes := by
  have hmem := CodeStory.Graph.get_eq_some_iff.mp hget
  rw [h.rows] at hmem
  exact h.levels (id, n) hmem

end Distances

end CodeStory.Graph
