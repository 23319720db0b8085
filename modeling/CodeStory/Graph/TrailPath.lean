import CodeStory.Graph.TrailDistances

/-!
# The trail to a target is right

When no step of `get_trail_to_target` was cut short and the target can be reached, the greedy
loop walks along a shortest path: a node on it at distance `i` from the root has distance
`T - i` to the target, and some edge leads to such a node for `i + 1`, so the least key belongs
to one. Every selected node has distances from the root and to the target that fit the limit.
-/

set_option autoImplicit false

namespace CodeStory.Graph

universe u

open BreadthFirst (Walk IsDistance Search)
open Tables (u32Max)
open Worklist (push mem_push)

variable {β : Type u}

/-- A step along a visible edge, from its source to its target. -/
def OutStep (s : Storage β) (config : TrailConfig) (a b : Int) : Prop :=
  ∃ edge ∈ s.visibleEdges config.toEdgeFilters,
    edge.effectiveSource = a ∧ edge.effectiveTarget = b

/-- A step of the search back from the target. -/
def BackStep (s : Storage β) (config : TrailConfig) (distFromRoot : DepthMap) (level : Nat)
    (a b : Int) : Prop :=
  level < config.maxDepth ∧ OutStep s config b a ∧
    Storage.throughRoot distFromRoot config.traversalOptions b (level + 1) = true

section Steps
variable {s : Storage β} {config : TrailConfig} {level : Nat} {a b : Int}

theorem visibleStep_outgoing_iff :
    VisibleStep s (fun _ _ => true) .outgoing config.traversalOptions level a b ↔
      level < config.maxDepth ∧ OutStep s config a b := by
  constructor
  · rintro ⟨hlevel, ⟨edge, hedge, hb⟩, -⟩
    obtain ⟨hvisible, htouches⟩ := mem_incidentEdges.mp hedge
    have hsource : edge.effectiveSource = a := of_decide_eq_true htouches
    rw [neighborForDirection, if_pos hsource] at hb
    exact ⟨hlevel, edge, hvisible, hsource, Option.some.inj hb⟩
  · rintro ⟨hlevel, edge, hvisible, hsource, rfl⟩
    refine ⟨hlevel, ⟨edge, mem_incidentEdges.mpr ⟨hvisible, decide_eq_true hsource⟩, ?_⟩, rfl⟩
    rw [neighborForDirection, if_pos hsource]

theorem visibleStep_incoming_iff {distFromRoot : DepthMap} :
    VisibleStep s (Storage.throughRoot distFromRoot config.traversalOptions) .incoming
      config.traversalOptions level a b ↔ BackStep s config distFromRoot level a b := by
  constructor
  · rintro ⟨hlevel, ⟨edge, hedge, hb⟩, hallow⟩
    obtain ⟨hvisible, htouches⟩ := mem_incidentEdges.mp hedge
    have htarget : edge.effectiveTarget = a := of_decide_eq_true htouches
    rw [neighborForDirection, if_pos htarget] at hb
    exact ⟨hlevel, ⟨edge, hvisible, Option.some.inj hb, htarget⟩, hallow⟩
  · rintro ⟨hlevel, ⟨edge, hvisible, rfl, htarget⟩, hallow⟩
    refine ⟨hlevel, ⟨edge, mem_incidentEdges.mpr ⟨hvisible, decide_eq_true htarget⟩, ?_⟩, hallow⟩
    rw [neighborForDirection, if_pos htarget]

end Steps

theorem bfsCap_le (config : TrailConfig) : config.bfsCap ≤ 100000 := Nat.min_le_right _ _

/-- Both searches of a path have run to their ends. -/
structure PathSearch.Exact (s : Storage β) (config : TrailConfig) (search : PathSearch) : Prop where
  maxDepth_eq : search.maxDepth = config.maxDepth
  rootId_eq : search.rootId = config.rootId
  from_iff : ∀ id n, search.distFromRoot.get id = some n ↔
    n ≤ config.maxDepth ∧ IsDistance (fun _ => OutStep s config) config.rootId id n
  to_iff : ∀ id n, search.distToTarget.get id = some n ↔
    IsDistance (BackStep s config search.distFromRoot) search.targetId id n
  from_le : ∀ id n, search.distFromRoot.get id = some n → n ≤ 100000
  to_le : ∀ id n, search.distToTarget.get id = some n → n ≤ 100000

namespace PathSearch.Exact
variable {s : Storage β} {config : TrailConfig} {search : PathSearch} {id : Int} {i m n : Nat}

theorem fits_iff (h : search.Exact s config) {length : Nat} (hlength : length ≤ 300000) :
    search.fits length = true ↔ length ≤ config.maxDepth := by
  unfold PathSearch.fits
  rw [h.maxDepth_eq, Bool.or_eq_true, decide_eq_true_eq, decide_eq_true_eq]
  constructor
  · rintro (hmax | hle)
    · rw [hmax]
      exact Nat.le_trans hlength (by decide)
    · exact hle
  · exact .inr

theorem walk_from (h : search.Exact s config) (hget : search.distFromRoot.get id = some i) :
    Walk (fun _ => OutStep s config) config.rootId i id :=
  ((h.from_iff id i).mp hget).2.1

/-- A distance to the target is the length of a walk there. -/
theorem walk_to (h : search.Exact s config) (hget : search.distToTarget.get id = some m) :
    Walk (fun _ => OutStep s config) id m search.targetId := by
  have hback := ((h.to_iff id m).mp hget).1
  have hplain : Walk (fun _ a b => OutStep s config b a) search.targetId m id :=
    hback.mono fun _ _ _ hstep => hstep.2.1
  exact hplain.reverse

/-- A node the root reaches, from where the target is near enough, has a distance to it. -/
theorem exists_to (h : search.Exact s config)
    (hwalk : Walk (fun _ => OutStep s config) id n search.targetId)
    (hget : search.distFromRoot.get id = some i) (hfits : i + n ≤ config.maxDepth) :
    ∃ m ≤ n, search.distToTarget.get id = some m := by
  have hback : ∀ n id i, Walk (fun _ a b => OutStep s config b a) search.targetId n id →
      search.distFromRoot.get id = some i → i + n ≤ config.maxDepth →
      Walk (BackStep s config search.distFromRoot) search.targetId n id := by
    intro n id i hwalk
    induction hwalk generalizing i with
    | nil => intro _ _; exact .nil
    | @snoc n a b _ hstep ih =>
      intro hget hfits
      -- one step on, the target is nearer by one and the root at most one farther away
      have hnext : Walk (fun _ => OutStep s config) config.rootId (i + 1) a :=
        .snoc (h.walk_from hget) hstep
      obtain ⟨k, hk, hdistance⟩ := hnext.exists_isDistance
      have hgetnext : search.distFromRoot.get a = some k :=
        (h.from_iff a k).mpr ⟨by omega, hdistance⟩
      refine .snoc (ih k hgetnext (by omega)) ⟨by omega, hstep, ?_⟩
      unfold Storage.throughRoot
      rw [hget]
      have hle : i + (n + 1) ≤ config.traversalOptions.maxDepth := hfits
      simp [hle]
  obtain ⟨m, hm, hdistance⟩ := (hback n id i hwalk.reverse hget hfits).exists_isDistance
  exact ⟨m, hm, (h.to_iff id m).mpr hdistance⟩

end PathSearch.Exact

/-! ## The greedy loop -/

section Greedy
variable {search : PathSearch} {current : Int} {dCur : Nat}

theorem candidate_eq_some {edge : Edge} {key : Nat × Int} :
    search.candidate current dCur edge = some key ↔
      edge.effectiveSource = current ∧ edge.effectiveTarget = key.2 ∧
        search.distFromRoot.get key.2 = some (u32SaturatingAdd dCur 1) ∧
        search.distToTarget.get key.2 = some key.1 ∧
        search.fits (dCur + 1 + key.1) = true ∧ key.2 ∈ search.included := by
  unfold PathSearch.candidate
  constructor
  · intro h
    split at h
    · exact absurd h (by simp)
    · rename_i hsource
      dsimp only at h
      split at h
      · rename_i dNext dTo hfrom hto
        split at h
        · rename_i hkeeps
          obtain rfl := Option.some.inj h
          simp only [Bool.and_eq_true, decide_eq_true_eq, List.contains_iff_mem] at hkeeps
          obtain ⟨⟨hnext, hfits⟩, hincluded⟩ := hkeeps
          exact ⟨not_not.mp hsource, rfl, hnext ▸ hfrom, hto, hfits, hincluded⟩
        · exact absurd h (by simp)
      · exact absurd h (by simp)
  · rintro ⟨hsource, htarget, hfrom, hto, hfits, hincluded⟩
    rw [if_neg (not_not.mpr hsource), htarget]
    dsimp only
    rw [hfrom, hto]
    simp [hfits, hincluded]

theorem fst_le_of_keyBefore {a b : Nat × Int} (h : PathSearch.keyBefore a b = true) :
    a.1 ≤ b.1 := by
  simp only [PathSearch.keyBefore, Bool.or_eq_true, Bool.and_eq_true, decide_eq_true_eq] at h
  omega

theorem fst_le_of_not_keyBefore {a b : Nat × Int} (h : PathSearch.keyBefore a b = false) :
    b.1 ≤ a.1 := by
  simp only [PathSearch.keyBefore, Bool.or_eq_false_iff, Bool.and_eq_false_iff,
    decide_eq_false_iff_not] at h
  omega

/-- The best key comes from an edge or was best before, and no key beats it. -/
theorem bestNext_eq_some {edges : List Edge} {best : Option (Nat × Int)} {key : Nat × Int}
    (h : search.bestNext current dCur edges best = some key) :
    (best = some key ∨ ∃ edge ∈ edges, search.candidate current dCur edge = some key) ∧
      (∀ old, best = some old → key.1 ≤ old.1) ∧
      ∀ edge ∈ edges, ∀ other, search.candidate current dCur edge = some other →
        key.1 ≤ other.1 := by
  induction edges generalizing best with
  | nil =>
    unfold PathSearch.bestNext at h
    subst h
    refine ⟨.inl rfl, ?_, by simp⟩
    intro old hold
    obtain rfl := Option.some.inj hold
    exact Nat.le_refl _
  | cons edge edges ih =>
    unfold PathSearch.bestNext at h
    cases hcandidate : search.candidate current dCur edge with
    | none =>
      rw [hcandidate] at h
      obtain ⟨horigin, hold, hedges⟩ := ih h
      refine ⟨horigin.imp_right ?_, hold, ?_⟩
      · rintro ⟨other, hmem, hother⟩
        exact ⟨other, List.mem_cons_of_mem _ hmem, hother⟩
      · intro other hmem k hk
        rcases List.mem_cons.mp hmem with rfl | hmem
        · rw [hcandidate] at hk
          exact absurd hk (by simp)
        · exact hedges other hmem k hk
    | some found =>
      rw [hcandidate] at h
      dsimp only at h
      split at h
      · rename_i hbetter
        obtain ⟨horigin, hfound, hedges⟩ := ih h
        have hle := hfound found rfl
        refine ⟨.inr ?_, ?_, ?_⟩
        · rcases horigin with horigin | ⟨other, hmem, hother⟩
          · rw [Option.some.inj horigin] at hcandidate
            exact ⟨edge, List.mem_cons_self, hcandidate⟩
          · exact ⟨other, List.mem_cons_of_mem _ hmem, hother⟩
        · rintro old rfl
          exact Nat.le_trans hle (fst_le_of_keyBefore (by simpa using hbetter))
        · intro other hmem k hk
          rcases List.mem_cons.mp hmem with rfl | hmem
          · rw [hcandidate] at hk
            rw [← Option.some.inj hk]
            exact hle
          · exact hedges other hmem k hk
      · rename_i hworse
        obtain ⟨horigin, hold, hedges⟩ := ih h
        refine ⟨horigin.imp_right ?_, hold, ?_⟩
        · rintro ⟨other, hmem, hother⟩
          exact ⟨other, List.mem_cons_of_mem _ hmem, hother⟩
        · intro other hmem k hk
          rcases List.mem_cons.mp hmem with rfl | hmem
          · rw [hcandidate] at hk
            obtain rfl := Option.some.inj hk
            cases best with
            | none => simp at hworse
            | some old =>
              have hnot : PathSearch.keyBefore found old = false := by simpa using hworse
              exact Nat.le_trans (hold old rfl) (fst_le_of_not_keyBefore hnot)
          · exact hedges other hmem k hk

theorem bestNext_ne_none {edges : List Edge} {best : Option (Nat × Int)}
    (h : best ≠ none ∨ ∃ edge ∈ edges, search.candidate current dCur edge ≠ none) :
    search.bestNext current dCur edges best ≠ none := by
  induction edges generalizing best with
  | nil =>
    rcases h with h | ⟨edge, hmem, -⟩
    · exact h
    · exact absurd hmem (by simp)
  | cons edge edges ih =>
    unfold PathSearch.bestNext
    cases hcandidate : search.candidate current dCur edge with
    | none =>
      apply ih
      refine h.imp_right ?_
      rintro ⟨other, hmem, hother⟩
      rcases List.mem_cons.mp hmem with rfl | hmem
      · exact absurd hcandidate hother
      · exact ⟨other, hmem, hother⟩
    | some found =>
      dsimp only
      split
      · exact ih (.inl (by simp))
      · rename_i hworse
        cases best with
        | none => simp at hworse
        | some old => exact ih (.inl (by simp))

/-- The loop forgets no fetch that was cut short. -/
theorem reconstructPath_complete {s : Storage β} {config : TrailConfig} (fuel : Nat)
    {pathNodes : List Int} {truncated : Bool} {result : List Int × Bool}
    (hresult : s.reconstructPath config search fuel current pathNodes truncated = some result)
    (hcomplete : result.2 = false) : truncated = false := by
  induction fuel generalizing current pathNodes truncated with
  | zero => exact absurd hresult (by simp [Storage.reconstructPath])
  | succ fuel ih =>
    unfold Storage.reconstructPath at hresult
    split at hresult
    · obtain rfl := Option.some.inj hresult
      exact hcomplete
    · split at hresult
      · obtain rfl := Option.some.inj hresult
        exact hcomplete
      · dsimp only at hresult
        split at hresult
        · obtain rfl := Option.some.inj hresult
          exact (Bool.or_eq_false_iff.mp hcomplete).1
        · exact (Bool.or_eq_false_iff.mp (ih hresult)).1

/-- The loop ends: each step goes one level farther from the root. -/
theorem reconstructPath_ends {s : Storage β} {config : TrailConfig} {cap : Nat}
    (hcap : ∀ id n, search.distFromRoot.get id = some n → n ≤ cap) (hsmall : cap < u32Max)
    (fuel : Nat) {pathNodes : List Int} {truncated : Bool}
    (hcurrent : search.distFromRoot.get current = some dCur) (hfuel : cap < fuel + dCur) :
    ∃ result,
      s.reconstructPath config search fuel current pathNodes truncated = some result := by
  induction fuel generalizing current dCur pathNodes truncated with
  | zero =>
    have := hcap current dCur hcurrent
    omega
  | succ fuel ih =>
    unfold Storage.reconstructPath
    split
    · exact ⟨_, rfl⟩
    · rw [hcurrent]
      dsimp only
      split
      · exact ⟨_, rfl⟩
      · rename_i dTo next hbest
        rcases (bestNext_eq_some hbest).1 with horigin | ⟨edge, -, hcandidate⟩
        · exact absurd horigin (by simp)
        · obtain ⟨-, -, hfrom, -⟩ := candidate_eq_some.mp hcandidate
          have hle := hcap current dCur hcurrent
          have hsat : u32SaturatingAdd dCur 1 = dCur + 1 := by
            unfold u32SaturatingAdd
            omega
          rw [hsat] at hfrom
          exact ih hfrom (by omega)

end Greedy

/-! ## A shortest path -/

/-- The node lies on a shortest path of length `T`, `i` steps from the root. -/
structure PathSearch.OnShortest (search : PathSearch) (T : Nat) (id : Int) (i : Nat) : Prop where
  le : i ≤ T
  from_eq : search.distFromRoot.get id = some i
  to_eq : search.distToTarget.get id = some (T - i)

/-- The nodes of a shortest path after `current`, which is `i` steps from the root. -/
def PathSearch.ShortestFrom (s : Storage β) (config : TrailConfig) (search : PathSearch) (T : Nat) :
    Int → Nat → List Int → Prop
  | current, i, [] => current = search.targetId ∧ i = T
  | current, i, next :: rest => OutStep s config current next ∧
      search.OnShortest T next (i + 1) ∧ search.ShortestFrom s config T next (i + 1) rest

section Shortest
variable {s : Storage β} {config : TrailConfig} {search : PathSearch} {T : Nat}

theorem mem_included (h : search.Exact s config) {id : Int} {i m : Nat}
    (hfrom : search.distFromRoot.get id = some i) (hto : search.distToTarget.get id = some m)
    (hfits : i + m ≤ config.maxDepth) : id ∈ search.included := by
  unfold PathSearch.included
  rw [mem_push, mem_push]
  refine .inl (.inl (List.mem_map.mpr ⟨(id, i), List.mem_filter.mpr ⟨?_, ?_⟩, rfl⟩))
  · exact get_eq_some_iff.mp hfrom
  · rw [← h.maxDepth_eq] at hfits
    simp [hto, PathSearch.fits, hfits]

variable (h : search.Exact s config) (hT : search.distFromRoot.get search.targetId = some T)
include h hT

theorem le_maxDepth : T ≤ config.maxDepth := ((h.from_iff _ _).mp hT).1

theorem le_total {id : Int} {i m : Nat} (hfrom : search.distFromRoot.get id = some i)
    (hwalk : Walk (fun _ => OutStep s config) id m search.targetId) : T ≤ i + m :=
  ((h.from_iff _ _).mp hT).2.2 ((h.walk_from hfrom).trans hwalk)

theorem onShortest_of_walk {id : Int} {i m : Nat} (hfrom : search.distFromRoot.get id = some i)
    (hwalk : Walk (fun _ => OutStep s config) id m search.targetId) (htotal : i + m = T) :
    search.OnShortest T id i := by
  obtain ⟨n, hn, hto⟩ := h.exists_to hwalk hfrom (htotal ▸ le_maxDepth h hT)
  have hge := le_total h hT hfrom (h.walk_to hto)
  obtain rfl : n = T - i := by omega
  exact ⟨by omega, hfrom, hto⟩

theorem root_onShortest : search.OnShortest T config.rootId 0 := by
  have hfrom : search.distFromRoot.get config.rootId = some 0 :=
    (h.from_iff _ _).mpr ⟨Nat.zero_le _, .nil, fun _ _ => Nat.zero_le _⟩
  exact onShortest_of_walk h hT hfrom (h.walk_from hT) (Nat.zero_add T)

/-- From a node on a shortest path the loop can always go on. -/
theorem exists_candidate {current : Int} {i : Nat} (hcurrent : search.OnShortest T current i)
    (hne : current ≠ search.targetId) :
    i < T ∧ ∃ edge ∈ s.incidentEdges config.toEdgeFilters .outgoing current, ∃ next,
      search.candidate current i edge = some (T - (i + 1), next) := by
  have hwalk := h.walk_to hcurrent.to_eq
  have hlt : i < T := by
    by_contra hnot
    have hzero : T - i = 0 := by omega
    rw [hzero] at hwalk
    cases hwalk
    exact hne rfl
  obtain ⟨k, hk⟩ : ∃ k, T - i = k + 1 := ⟨T - i - 1, by omega⟩
  rw [hk] at hwalk
  obtain ⟨next, ⟨edge, hvisible, hsource, htarget⟩, hrest⟩ := hwalk.head
  obtain ⟨j, hj, hdistance⟩ := BreadthFirst.Walk.exists_isDistance
    (.snoc (h.walk_from hcurrent.from_eq) ⟨edge, hvisible, hsource, htarget⟩)
  have hmax := le_maxDepth h hT
  have hfrom : search.distFromRoot.get next = some j :=
    (h.from_iff next j).mpr ⟨by omega, hdistance⟩
  have hge := le_total h hT hfrom hrest
  obtain rfl : j = i + 1 := by omega
  have hnext := onShortest_of_walk h hT hfrom hrest (by omega)
  have hsmall := h.from_le _ _ hcurrent.from_eq
  have hsmallT := h.from_le _ _ hT
  have hsat : u32SaturatingAdd i 1 = i + 1 := by
    unfold u32SaturatingAdd u32Max
    omega
  refine ⟨hlt, edge, mem_incidentEdges.mpr ⟨hvisible, decide_eq_true hsource⟩, next, ?_⟩
  refine candidate_eq_some.mpr ⟨hsource, htarget, hsat ▸ hfrom, hnext.to_eq, ?_, ?_⟩
  · exact (h.fits_iff (by simp only; omega)).mpr (by simp only; omega)
  · exact mem_included h hnext.from_eq hnext.to_eq (by omega)

/-- The least key belongs to a node on a shortest path. -/
theorem onShortest_of_bestNext {current : Int} {i : Nat} {key : Nat × Int}
    (hcurrent : search.OnShortest T current i) (hne : current ≠ search.targetId)
    (hbest : search.bestNext current i
      (s.incidentEdges config.toEdgeFilters .outgoing current) none = some key) :
    OutStep s config current key.2 ∧ search.OnShortest T key.2 (i + 1) := by
  obtain ⟨hlt, edge, hedge, next, hcandidate⟩ := exists_candidate h hT hcurrent hne
  obtain ⟨horigin, -, hleast⟩ := bestNext_eq_some hbest
  have hle := hleast edge hedge _ hcandidate
  rcases horigin with horigin | ⟨chosen, hchosen, hkey⟩
  · exact absurd horigin (by simp)
  · obtain ⟨hsource, htarget, hfrom, hto, -, -⟩ := candidate_eq_some.mp hkey
    have hsmall := h.from_le _ _ hcurrent.from_eq
    have hsat : u32SaturatingAdd i 1 = i + 1 := by
      unfold u32SaturatingAdd u32Max
      omega
    rw [hsat] at hfrom
    have hge := le_total h hT hfrom (h.walk_to hto)
    have heq : key.1 = T - (i + 1) := by
      dsimp only at hle
      omega
    rw [heq] at hto
    exact ⟨⟨chosen, (mem_incidentEdges.mp hchosen).1, hsource, htarget⟩, by omega, hfrom, hto⟩

/-- The loop reaches the target along a shortest path, unless a fetch was cut short. -/
theorem reconstructPath_spec (fuel : Nat) {current : Int} {i : Nat} {pathNodes : List Int}
    {truncated : Bool} (hcurrent : search.OnShortest T current i)
    {result : List Int × Bool}
    (hresult : s.reconstructPath config search fuel current pathNodes truncated = some result)
    (hcomplete : result.2 = false) :
    truncated = false ∧ ∃ rest, result.1 = pathNodes ++ rest ∧
      search.ShortestFrom s config T current i rest := by
  induction fuel generalizing current i pathNodes truncated with
  | zero => exact absurd hresult (by simp [Storage.reconstructPath])
  | succ fuel ih =>
    unfold Storage.reconstructPath at hresult
    by_cases htarget : current = search.targetId
    · rw [if_pos htarget] at hresult
      obtain rfl := Option.some.inj hresult
      refine ⟨hcomplete, [], by simp, htarget, ?_⟩
      have hfrom := hcurrent.from_eq
      rw [htarget, hT] at hfrom
      exact (Option.some.inj hfrom).symm
    · rw [if_neg htarget, hcurrent.from_eq] at hresult
      dsimp only at hresult
      cases hbest : search.bestNext current i (s.outgoingEdges config current).edges none with
      | none =>
        rw [hbest] at hresult
        obtain rfl := Option.some.inj hresult
        rw [Bool.or_eq_false_iff] at hcomplete
        have hall : (s.outgoingEdges config current).edges =
            s.incidentEdges config.toEdgeFilters .outgoing current :=
          fetch_eq_incidentEdges hcomplete.2
        obtain ⟨-, edge, hedge, next, hcandidate⟩ := exists_candidate h hT hcurrent htarget
        rw [hall] at hbest
        exact absurd hbest (bestNext_ne_none (.inr ⟨edge, hedge, by simp [hcandidate]⟩))
      | some key =>
        rw [hbest] at hresult
        have htruncated := reconstructPath_complete fuel hresult hcomplete
        rw [Bool.or_eq_false_iff] at htruncated
        have hall : (s.outgoingEdges config current).edges =
            s.incidentEdges config.toEdgeFilters .outgoing current :=
          fetch_eq_incidentEdges htruncated.2
        rw [hall] at hbest
        obtain ⟨hstep, hnext⟩ := onShortest_of_bestNext h hT hcurrent htarget hbest
        obtain ⟨-, rest, hpath, hrest⟩ := ih hnext hresult
        exact ⟨htruncated.1, key.2 :: rest, by rw [hpath]; simp, hstep, hnext, hrest⟩

end Shortest

end CodeStory.Graph
