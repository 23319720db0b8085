import Mathlib.Data.List.Nodup
import Mathlib.Data.List.Perm.Subperm
import Mathlib.Data.Nat.Find
import Mathlib.Order.Bounds.Basic

/-!
# Breadth-first search with steps that depend on the level

`allowed n a b` says that a walk may go from `a` to `b` as its step number `n`. A search takes
the places off a queue in order and discovers what they lead to. `Search` is what holds between
two of its turns, with the places taken off so far and the queue, both with their levels. When
the queue is empty and what is allowed late is also allowed early, the levels are exactly the
lengths of the shortest walks.
-/

set_option autoImplicit false

universe u

namespace BreadthFirst
variable {ν : Type u}

/-- A walk from `root`, by its length and its end. -/
inductive Walk (allowed : Nat → ν → ν → Prop) (root : ν) : Nat → ν → Prop where
  | nil : Walk allowed root 0 root
  | snoc {n : Nat} {a b : ν} :
    Walk allowed root n a → allowed n a b → Walk allowed root (n + 1) b

/-- The length of a shortest walk. -/
def IsDistance (allowed : Nat → ν → ν → Prop) (root : ν) (b : ν) (n : Nat) : Prop :=
  IsLeast { n | Walk allowed root n b } n

section Walks
variable {allowed : Nat → ν → ν → Prop} {step : ν → ν → Prop} {root a b : ν} {m n limit : Nat}

theorem Walk.mono {other : Nat → ν → ν → Prop} (h : Walk allowed root n b)
    (hother : ∀ n a b, allowed n a b → other n a b) : Walk other root n b := by
  induction h with
  | nil => exact .nil
  | snoc _ hstep ih => exact .snoc ih (hother _ _ _ hstep)

theorem Walk.trans (h : Walk (fun _ => step) root m a) (h' : Walk (fun _ => step) a n b) :
    Walk (fun _ => step) root (m + n) b := by
  induction h' with
  | nil => exact h
  | snoc _ hstep ih => exact .snoc ih hstep

theorem Walk.head (h : Walk (fun _ => step) root (n + 1) b) :
    ∃ a, step root a ∧ Walk (fun _ => step) a n b := by
  generalize hlength : n + 1 = k at h
  induction h generalizing n with
  | nil => omega
  | @snoc m a b hwalk hstep ih =>
    cases m with
    | zero =>
      cases hwalk
      obtain rfl : n = 0 := by omega
      exact ⟨b, hstep, .nil⟩
    | succ m =>
      obtain ⟨first, hfirst, hrest⟩ := ih rfl
      obtain rfl : n = m + 1 := by omega
      exact ⟨first, hfirst, .snoc hrest hstep⟩

theorem Walk.reverse (h : Walk (fun _ => step) root n b) :
    Walk (fun _ a b => step b a) b n root := by
  induction h with
  | nil => exact .nil
  | @snoc n a b _ hstep ih =>
    have hfirst : Walk (fun _ a b => step b a) b 1 a := .snoc .nil hstep
    have hboth := hfirst.trans ih
    rwa [Nat.add_comm] at hboth

/-- A limit on the level of each step is a limit on the length. -/
theorem walk_limited_iff :
    Walk (fun level a b => level < limit ∧ step a b) root n b ↔
      n ≤ limit ∧ Walk (fun _ => step) root n b := by
  constructor
  · intro h
    induction h with
    | nil => exact ⟨Nat.zero_le _, .nil⟩
    | snoc _ hstep ih => exact ⟨hstep.1, .snoc ih.2 hstep.2⟩
  · rintro ⟨hlimit, h⟩
    induction h with
    | nil => exact .nil
    | snoc _ hstep ih => exact .snoc (ih (by omega)) ⟨by omega, hstep⟩

theorem isDistance_limited_iff :
    IsDistance (fun level a b => level < limit ∧ step a b) root b n ↔
      n ≤ limit ∧ IsDistance (fun _ => step) root b n := by
  constructor
  · rintro ⟨hwalk, hleast⟩
    obtain ⟨hlimit, hplain⟩ := walk_limited_iff.mp hwalk
    refine ⟨hlimit, hplain, ?_⟩
    intro k hk
    by_cases hklimit : k ≤ limit
    · exact hleast (walk_limited_iff.mpr ⟨hklimit, hk⟩)
    · omega
  · rintro ⟨hlimit, hplain, hleast⟩
    exact ⟨walk_limited_iff.mpr ⟨hlimit, hplain⟩, fun k hk => hleast (walk_limited_iff.mp hk).2⟩

/-- Where there is a walk there is a shortest one. -/
theorem Walk.exists_isDistance (h : Walk allowed root n b) :
    ∃ m ≤ n, IsDistance allowed root b m := by
  classical
  have hex : ∃ n, Walk allowed root n b := ⟨n, h⟩
  exact ⟨Nat.find hex, Nat.find_min' hex h, Nat.find_spec hex, fun k hk => Nat.find_min' hex hk⟩

theorem IsDistance.unique (h : IsDistance allowed root b m) (h' : IsDistance allowed root b n) :
    m = n :=
  IsLeast.unique h h'

end Walks

/-- What holds between two turns of a search: the places taken off the queue, in order, and the
queue, with the level of each place. -/
structure Search (allowed : Nat → ν → ν → Prop) (root : ν) (taken queue : List (ν × Nat)) :
    Prop where
  once : ((taken ++ queue).map (·.1)).Nodup
  started : (root, 0) ∈ taken ++ queue
  ordered : queue.Pairwise fun p q => p.2 ≤ q.2
  near : ∀ p ∈ taken ++ queue, ∀ q ∈ queue, p.2 ≤ q.2 + 1
  walked : ∀ p ∈ taken ++ queue, Walk allowed root p.2 p.1
  closed : ∀ p ∈ taken, ∀ b, allowed p.2 p.1 b → ∃ n, (b, n) ∈ taken ++ queue ∧ n ≤ p.2 + 1
  levels : ∀ p ∈ taken ++ queue, p.2 ≠ 0 → ∃ q ∈ taken ++ queue, q.2 + 1 = p.2

/-- What one turn discovers: the allowed places that are not known yet, each once. -/
structure Discovers (known : List ν) (level : Nat) (reached : ν → Prop)
    (found : List (ν × Nat)) : Prop where
  once : (found.map (·.1)).Nodup
  unknown : ∀ p ∈ found, p.1 ∉ known ∧ reached p.1 ∧ p.2 = level
  complete : ∀ b, reached b → b ∈ known ∨ (b, level) ∈ found

section Discover
variable [DecidableEq ν]

/-- The places of a list that are not known yet, each where it first appears. -/
def discover (level : Nat) : List ν → List ν → List (ν × Nat)
  | [], _ => []
  | b :: places, known =>
    if b ∈ known then discover level places known
    else (b, level) :: discover level places (known ++ [b])

theorem discover_discovers (level : Nat) (places known : List ν) :
    Discovers known level (· ∈ places) (discover level places known) := by
  induction places generalizing known with
  | nil => exact ⟨List.nodup_nil, by simp [discover], by simp⟩
  | cons b places ih =>
    unfold discover
    split
    · rename_i hknown
      refine ⟨(ih known).once, ?_, ?_⟩
      · intro p hp
        obtain ⟨hunknown, hreached, hlevel⟩ := (ih known).unknown p hp
        exact ⟨hunknown, List.mem_cons_of_mem _ hreached, hlevel⟩
      · intro c hc
        rcases List.mem_cons.mp hc with rfl | hc
        · exact .inl hknown
        · exact (ih known).complete c hc
    · rename_i hknown
      have ih := ih (known ++ [b])
      refine ⟨?_, ?_, ?_⟩
      · rw [List.map_cons, List.nodup_cons]
        refine ⟨?_, ih.once⟩
        intro hb
        obtain ⟨p, hp, rfl⟩ := List.mem_map.mp hb
        exact (ih.unknown p hp).1 (by simp)
      · intro p hp
        rcases List.mem_cons.mp hp with rfl | hp
        · exact ⟨hknown, List.mem_cons_self, rfl⟩
        · obtain ⟨hunknown, hreached, hlevel⟩ := ih.unknown p hp
          exact ⟨fun hmem => hunknown (List.mem_append_left _ hmem),
            List.mem_cons_of_mem _ hreached, hlevel⟩
      · intro c hc
        rcases List.mem_cons.mp hc with rfl | hc
        · exact .inr List.mem_cons_self
        · rcases ih.complete c hc with hmem | hmem
          · rcases List.mem_append.mp hmem with hmem | hmem
            · exact .inl hmem
            · rw [List.mem_singleton.mp hmem]
              exact .inr List.mem_cons_self
          · exact .inr (List.mem_cons_of_mem _ hmem)

end Discover

theorem Discovers.congr {known : List ν} {level : Nat} {reached reached' : ν → Prop}
    {found : List (ν × Nat)} (h : Discovers known level reached found)
    (hreached : ∀ b, reached b ↔ reached' b) : Discovers known level reached' found := by
  obtain rfl : reached = reached' := funext fun b => propext (hreached b)
  exact h

namespace Search
variable {allowed : Nat → ν → ν → Prop} {root : ν} {taken queue found : List (ν × Nat)}
  {p : ν × Nat}

theorem start : Search allowed root [] [(root, 0)] where
  once := List.nodup_singleton _
  started := List.mem_singleton.mpr rfl
  ordered := List.pairwise_singleton _ _
  near := by
    intro p hp q hq
    rw [List.nil_append, List.mem_singleton] at hp
    rw [hp]
    exact Nat.zero_le _
  walked := by
    intro p hp
    rw [List.nil_append, List.mem_singleton] at hp
    rw [hp]
    exact .nil
  closed := by simp
  levels := by simp

theorem mem_take_iff {q : ν × Nat} :
    q ∈ taken ++ [p] ++ (queue ++ found) ↔ q ∈ taken ++ p :: queue ∨ q ∈ found := by
  simp only [List.mem_append, List.mem_cons, List.not_mem_nil, or_false]
  tauto

/-- One turn of the search. -/
theorem take (h : Search allowed root taken (p :: queue))
    (hfound : Discovers ((taken ++ p :: queue).map (·.1)) (p.2 + 1) (allowed p.2 p.1) found) :
    Search allowed root (taken ++ [p]) (queue ++ found) where
  once := by
    have hlist : taken ++ [p] ++ (queue ++ found) = taken ++ p :: queue ++ found := by simp
    rw [hlist, List.map_append]
    apply h.once.append hfound.once
    intro b hb hb'
    obtain ⟨q, hq, rfl⟩ := List.mem_map.mp hb'
    exact (hfound.unknown q hq).1 hb
  started := mem_take_iff.mpr (.inl h.started)
  ordered := by
    obtain ⟨-, hordered⟩ := List.pairwise_cons.mp h.ordered
    refine List.pairwise_append.mpr ⟨hordered, ?_, ?_⟩
    · rw [List.pairwise_iff_forall_sublist]
      intro q r hsub
      have hq := hfound.unknown q (hsub.subset (by simp))
      have hr := hfound.unknown r (hsub.subset (by simp))
      exact Nat.le_of_eq (hq.2.2.trans hr.2.2.symm)
    · intro q hq r hr
      rw [(hfound.unknown r hr).2.2]
      exact h.near q (by simp [hq]) p List.mem_cons_self
  near := by
    have hhead : ∀ q ∈ queue, p.2 ≤ q.2 := (List.pairwise_cons.mp h.ordered).1
    intro q hq r hr
    rcases mem_take_iff.mp hq with hq | hq
    · rcases List.mem_append.mp hr with hr | hr
      · exact h.near q hq r (List.mem_cons_of_mem _ hr)
      · have hnear := h.near q hq p List.mem_cons_self
        rw [(hfound.unknown r hr).2.2]
        omega
    · rw [(hfound.unknown q hq).2.2]
      rcases List.mem_append.mp hr with hr | hr
      · have := hhead r hr
        omega
      · rw [(hfound.unknown r hr).2.2]
        omega
  walked := by
    intro q hq
    rcases mem_take_iff.mp hq with hq | hq
    · exact h.walked q hq
    · obtain ⟨-, hreached, hlevel⟩ := hfound.unknown q hq
      rw [hlevel]
      exact .snoc (h.walked p (by simp)) hreached
  closed := by
    intro q hq b hb
    rcases List.mem_append.mp hq with hq | hq
    · obtain ⟨n, hmem, hn⟩ := h.closed q hq b hb
      exact ⟨n, mem_take_iff.mpr (.inl hmem), hn⟩
    · obtain rfl := List.mem_singleton.mp hq
      rcases hfound.complete b hb with hknown | hmem
      · obtain ⟨r, hr, rfl⟩ := List.mem_map.mp hknown
        exact ⟨r.2, mem_take_iff.mpr (.inl hr), h.near r hr q List.mem_cons_self⟩
      · exact ⟨q.2 + 1, mem_take_iff.mpr (.inr hmem), Nat.le_refl _⟩
  levels := by
    intro q hq hne
    rcases mem_take_iff.mp hq with hq | hq
    · obtain ⟨r, hr, hlevel⟩ := h.levels q hq hne
      exact ⟨r, mem_take_iff.mpr (.inl hr), hlevel⟩
    · exact ⟨p, by simp, (hfound.unknown q hq).2.2.symm⟩

/-- A place that leads nowhere. -/
theorem skip (h : Search allowed root taken (p :: queue)) (hnone : ∀ b, ¬ allowed p.2 p.1 b) :
    Search allowed root (taken ++ [p]) queue := by
  have hfound : Discovers ((taken ++ p :: queue).map (·.1)) (p.2 + 1) (allowed p.2 p.1) [] :=
    ⟨List.nodup_nil, by simp, fun b hb => absurd hb (hnone b)⟩
  simpa using h.take hfound

/-- A search over fewer steps is one over more, if it has missed none at the places it took. -/
theorem widen {other : Nat → ν → ν → Prop} (h : Search allowed root taken queue)
    (hwider : ∀ n a b, allowed n a b → other n a b)
    (hmissed : ∀ p ∈ taken, ∀ b, other p.2 p.1 b → allowed p.2 p.1 b) :
    Search other root taken queue where
  once := h.once
  started := h.started
  ordered := h.ordered
  near := h.near
  walked := fun p hp => (h.walked p hp).mono hwider
  closed := fun p hp b hb => h.closed p hp b (hmissed p hp b hb)
  levels := h.levels

theorem reached_le (h : Search allowed root taken [])
    (hearly : ∀ m n a b, m ≤ n → allowed n a b → allowed m a b) {n : Nat} {b : ν}
    (hwalk : Walk allowed root n b) : ∃ m, (b, m) ∈ taken ∧ m ≤ n := by
  induction hwalk with
  | nil => exact ⟨0, by simpa using h.started, Nat.le_refl _⟩
  | @snoc n a b _ hstep ih =>
    obtain ⟨m, hmem, hm⟩ := ih
    obtain ⟨k, hk, hle⟩ := h.closed (a, m) hmem b (hearly m n a b hm hstep)
    rw [List.append_nil] at hk
    exact ⟨k, hk, by simp only at hle; omega⟩

theorem eq_of_mem (h : Search allowed root taken queue) {b : ν} {m n : Nat}
    (hm : (b, m) ∈ taken ++ queue) (hn : (b, n) ∈ taken ++ queue) : m = n :=
  congrArg Prod.snd (List.inj_on_of_nodup_map h.once hm hn rfl)

/-- A finished search has found each place that can be reached, with its distance. -/
theorem mem_iff_isDistance (h : Search allowed root taken [])
    (hearly : ∀ m n a b, m ≤ n → allowed n a b → allowed m a b) {b : ν} {n : Nat} :
    (b, n) ∈ taken ↔ IsDistance allowed root b n := by
  have hleast : ∀ m, (b, m) ∈ taken → IsDistance allowed root b m := by
    intro m hmem
    refine ⟨h.walked (b, m) (by simpa using hmem), ?_⟩
    intro k hwalk
    obtain ⟨j, hj, hle⟩ := h.reached_le hearly hwalk
    have heq : m = j := h.eq_of_mem (List.mem_append_left _ hmem) (List.mem_append_left _ hj)
    rw [heq]
    exact hle
  constructor
  · exact hleast n
  · intro hdistance
    obtain ⟨m, hmem, -⟩ := h.reached_le hearly hdistance.1
    rw [hdistance.unique (hleast m hmem)]
    exact hmem

/-- A level is smaller than the number of places known. -/
theorem level_lt_length (h : Search allowed root taken queue) (hp : p ∈ taken ++ queue) :
    p.2 < (taken ++ queue).length := by
  have hall : ∀ n (p : ν × Nat), p ∈ taken ++ queue → p.2 = n →
      ∀ m ≤ n, m ∈ (taken ++ queue).map (·.2) := by
    intro n
    induction n with
    | zero =>
      intro p hp hn m hm
      obtain rfl : m = p.2 := by omega
      exact List.mem_map.mpr ⟨p, hp, rfl⟩
    | succ n ih =>
      intro p hp hn m hm
      obtain ⟨q, hq, hlevel⟩ := h.levels p hp (by omega)
      by_cases hlast : m = p.2
      · exact List.mem_map.mpr ⟨p, hp, hlast.symm⟩
      · exact ih q hq (by omega) m (by omega)
  have hsub : List.range (p.2 + 1) ⊆ (taken ++ queue).map (·.2) := by
    intro m hm
    have hlt := List.mem_range.mp hm
    exact hall p.2 p hp rfl m (by omega)
  have hlength := (List.subperm_of_subset List.nodup_range hsub).length_le
  rw [List.length_range, List.length_map] at hlength
  omega

/-- Places that all come from one list cannot be more than the list holds. -/
theorem length_le (h : Search allowed root taken queue) {places : List ν} (hroot : root ∈ places)
    (hplaces : ∀ n a b, allowed n a b → b ∈ places) :
    (taken ++ queue).length ≤ places.length := by
  have hsub : (taken ++ queue).map (·.1) ⊆ places := by
    intro b hb
    obtain ⟨p, hp, rfl⟩ := List.mem_map.mp hb
    obtain ⟨b, n⟩ := p
    cases h.walked _ hp with
    | nil => exact hroot
    | snoc _ hstep => exact hplaces _ _ _ hstep
  have hlength := (List.subperm_of_subset h.once hsub).length_le
  rwa [List.length_map] at hlength

end Search

/-! ## Level by level from several sources -/

/-- The length of a shortest walk from any of the sources. -/
def IsLayer (step : ν → ν → Prop) (source : ν → Prop) (b : ν) (n : Nat) : Prop :=
  IsLeast { n | ∃ root, source root ∧ Walk (fun _ => step) root n b } n

/-- What holds after `level` rounds that each widen the frontier at once. -/
structure Layered (step : ν → ν → Prop) (source : ν → Prop) (level : Nat)
    (distance : ν → Option Nat) (frontier : List ν) : Prop where
  known : ∀ b n, distance b = some n ↔ n ≤ level ∧ IsLayer step source b n
  front : ∀ b, b ∈ frontier ↔ distance b = some level

section Layers
variable {step : ν → ν → Prop} {source : ν → Prop} {level : Nat}
  {distance distance' : ν → Option Nat} {frontier frontier' : List ν} {a b : ν} {m n : Nat}

theorem isLayer_zero_iff : IsLayer step source b 0 ↔ source b := by
  constructor
  · rintro ⟨⟨root, hroot, hwalk⟩, _⟩
    cases hwalk
    exact hroot
  · intro hb
    exact ⟨⟨b, hb, .nil⟩, fun n _ => Nat.zero_le n⟩

theorem IsLayer.unique (h : IsLayer step source b m) (h' : IsLayer step source b n) : m = n :=
  IsLeast.unique h h'

/-- What a source reaches lies in a layer that is not farther. -/
theorem exists_isLayer {root : ν} (hroot : source root) (h : Walk (fun _ => step) root n b) :
    ∃ m ≤ n, IsLayer step source b m := by
  classical
  have hex : ∃ n root, source root ∧ Walk (fun _ => step) root n b := ⟨n, root, hroot, h⟩
  exact ⟨Nat.find hex, Nat.find_min' hex ⟨root, hroot, h⟩, Nat.find_spec hex,
    fun k hk => Nat.find_min' hex hk⟩

/-- The last step of a shortest walk comes from the layer before. -/
theorem IsLayer.before (h : IsLayer step source b (n + 1)) :
    ∃ a, IsLayer step source a n ∧ step a b := by
  obtain ⟨⟨root, hroot, hwalk⟩, hleast⟩ := h
  cases hwalk with
  | @snoc _ a _ hwalk hstep =>
    refine ⟨a, ⟨⟨root, hroot, hwalk⟩, ?_⟩, hstep⟩
    rintro k ⟨root', hroot', hwalk'⟩
    have := hleast ⟨root', hroot', .snoc hwalk' hstep⟩
    omega

theorem IsLayer.exists_layer (h : IsLayer step source b n) (hle : m ≤ n) :
    ∃ a, IsLayer step source a m := by
  induction n generalizing b with
  | zero =>
    obtain rfl : m = 0 := by omega
    exact ⟨b, h⟩
  | succ n ih =>
    by_cases heq : m = n + 1
    · exact ⟨b, heq ▸ h⟩
    · obtain ⟨a, ha, _⟩ := h.before
      exact ih ha (by omega)

theorem Layered.start (hdistance : ∀ b n, distance b = some n ↔ n = 0 ∧ source b)
    (hfrontier : ∀ b, b ∈ frontier ↔ source b) :
    Layered step source 0 distance frontier where
  known b n := by
    rw [hdistance]
    constructor
    · rintro ⟨rfl, hb⟩
      exact ⟨Nat.le_refl 0, isLayer_zero_iff.mpr hb⟩
    · rintro ⟨hn, hlayer⟩
      obtain rfl : n = 0 := by omega
      exact ⟨rfl, isLayer_zero_iff.mp hlayer⟩
  front b := by
    rw [hfrontier, hdistance]
    simp

/-- One round: the unknown places that the frontier leads to are the next layer. -/
theorem Layered.advance (h : Layered step source level distance frontier)
    (hdistance : ∀ b n, distance' b = some n ↔ distance b = some n ∨
      (n = level + 1 ∧ distance b = none ∧ ∃ a ∈ frontier, step a b))
    (hfrontier : ∀ b, b ∈ frontier' ↔ distance b = none ∧ ∃ a ∈ frontier, step a b) :
    Layered step source (level + 1) distance' frontier' := by
  have hnext : ∀ b, (distance b = none ∧ ∃ a ∈ frontier, step a b) ↔
      IsLayer step source b (level + 1) := by
    intro b
    constructor
    · rintro ⟨hnone, a, ha, hstep⟩
      obtain ⟨_, ⟨⟨root, hroot, hwalk⟩, _⟩⟩ := (h.known a level).mp ((h.front a).mp ha)
      refine ⟨⟨root, hroot, .snoc hwalk hstep⟩, ?_⟩
      rintro k ⟨root', hroot', hwalk'⟩
      obtain ⟨m, hm, hlayer⟩ := exists_isLayer hroot' hwalk'
      by_contra hlt
      have hknown := (h.known b m).mpr ⟨by omega, hlayer⟩
      rw [hnone] at hknown
      cases hknown
    · intro hlayer
      obtain ⟨a, ha, hstep⟩ := hlayer.before
      refine ⟨?_, a, (h.front a).mpr ((h.known a level).mpr ⟨Nat.le_refl _, ha⟩), hstep⟩
      cases hb : distance b with
      | none => rfl
      | some m =>
        obtain ⟨hm, hlayer'⟩ := (h.known b m).mp hb
        have := hlayer.unique hlayer'
        omega
  refine ⟨?_, ?_⟩
  · intro b n
    rw [hdistance, hnext, h.known]
    constructor
    · rintro (⟨hn, hlayer⟩ | ⟨rfl, hlayer⟩)
      · exact ⟨by omega, hlayer⟩
      · exact ⟨Nat.le_refl _, hlayer⟩
    · rintro ⟨hn, hlayer⟩
      by_cases heq : n = level + 1
      · exact Or.inr ⟨heq, heq ▸ hlayer⟩
      · exact Or.inl ⟨by omega, hlayer⟩
  · intro b
    rw [hfrontier, hdistance]
    constructor
    · intro hb
      exact Or.inr ⟨rfl, hb⟩
    · rintro (hb | ⟨_, hb⟩)
      · have := ((h.known b (level + 1)).mp hb).1
        omega
      · exact hb

/-- Behind an empty frontier there is nothing. -/
theorem Layered.exhausted (h : Layered step source level distance []) {limit : Nat}
    (hlimit : level ≤ limit) (b : ν) (n : Nat) :
    distance b = some n ↔ n ≤ limit ∧ IsLayer step source b n := by
  rw [h.known]
  constructor
  · rintro ⟨hn, hlayer⟩
    exact ⟨by omega, hlayer⟩
  · rintro ⟨_, hlayer⟩
    refine ⟨?_, hlayer⟩
    by_contra hlt
    obtain ⟨a, ha⟩ := hlayer.exists_layer (show level ≤ n by omega)
    have := (h.front a).mpr ((h.known a level).mpr ⟨Nat.le_refl _, ha⟩)
    exact absurd this List.not_mem_nil

end Layers

end BreadthFirst
