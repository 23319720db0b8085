import Mathlib.Data.List.Nodup
import Mathlib.Data.List.Perm.Basic
import Mathlib.Logic.Relation

/-!
# Collecting items over everything reachable

A queue is worked off in order. A place that is seen for the first time contributes its items,
unless it is the start, and queues its successors; items are kept in the order of their first
appearance. What is collected depends on the successor rows and on the items as sets only.
-/

set_option autoImplicit false

universe u v

namespace Worklist
variable {ν : Type u} {γ : Type v} [DecidableEq ν] [DecidableEq γ]

def successors (rows : List (ν × ν)) (place : ν) : List ν :=
  (rows.filter fun row => row.1 = place).map (·.2)

/-- Append what is not there yet. -/
def push (found : List γ) (item : γ) : List γ := if item ∈ found then found else found ++ [item]

def extend (found items : List γ) : List γ := items.foldl push found

theorem length_rows_visit (rows : List (ν × ν)) {visited : List ν} {place : ν}
    (h : place ∉ visited) :
    (rows.filter fun row => row.1 ∉ place :: visited).length + (successors rows place).length =
      (rows.filter fun row => row.1 ∉ visited).length := by
  induction rows with
  | nil => rfl
  | cons row rows ih =>
    rw [successors, List.length_map] at ih ⊢
    by_cases hplace : row.1 = place
    · have hseen : row.1 ∉ visited := hplace ▸ h
      simp_all
      omega
    · by_cases hvisited : row.1 ∈ visited
      · simp_all
      · simp_all
        omega

def collect (rows : List (ν × ν)) (items : ν → List γ) (start : ν) :
    List ν → List ν → List γ → List γ
  | [], _, found => found
  | place :: pending, visited, found =>
    if place ∈ visited then collect rows items start pending visited found
    else
      collect rows items start (pending ++ successors rows place) (place :: visited)
        (if place = start then found else extend found (items place))
termination_by pending visited =>
  (rows.filter fun row => row.1 ∉ visited).length + pending.length
decreasing_by
  · simp
  · rename_i h
    have := length_rows_visit rows h
    simp only [List.length_append, List.length_cons]
    omega

/-- The items of all places reachable from the start, the start excepted. -/
def collectFrom (rows : List (ν × ν)) (items : ν → List γ) (start : ν) : List γ :=
  collect rows items start [start] [] []

theorem mem_successors {rows : List (ν × ν)} {place next : ν} :
    next ∈ successors rows place ↔ (place, next) ∈ rows := by
  unfold successors
  simp only [List.mem_map, List.mem_filter, decide_eq_true_iff]
  constructor
  · rintro ⟨⟨a, b⟩, ⟨hrow, rfl⟩, rfl⟩
    exact hrow
  · intro hrow
    exact ⟨(place, next), ⟨hrow, rfl⟩, rfl⟩

theorem mem_push {found : List γ} {item c : γ} : c ∈ push found item ↔ c ∈ found ∨ c = item := by
  unfold push
  split
  · rename_i h
    constructor
    · exact .inl
    · rintro (hc | rfl)
      · exact hc
      · exact h
  · simp

theorem mem_extend {found items : List γ} {c : γ} :
    c ∈ extend found items ↔ c ∈ found ∨ c ∈ items := by
  unfold extend
  induction items generalizing found with
  | nil => simp
  | cons item items ih =>
    rw [List.foldl_cons, ih, mem_push, List.mem_cons, or_assoc]

theorem nodup_extend {found : List γ} (items : List γ) (h : found.Nodup) :
    (extend found items).Nodup := by
  unfold extend
  induction items generalizing found with
  | nil => exact h
  | cons item items ih =>
    apply ih
    unfold push
    split
    · exact h
    · rename_i hnew
      apply h.append (List.nodup_singleton item)
      intro c hc hitem
      rw [List.mem_singleton.mp hitem] at hc
      exact hnew hc

section Loop
variable {rows : List (ν × ν)} {items : ν → List γ} {start : ν}

/-- What holds each time the head of the queue is taken. -/
structure Explored (rows : List (ν × ν)) (items : ν → List γ) (start : ν)
    (pending visited : List ν) (found : List γ) : Prop where
  reached : ∀ place, place ∈ visited ∨ place ∈ pending →
    Relation.ReflTransGen (fun a b => (a, b) ∈ rows) start place
  closed : ∀ a ∈ visited, ∀ b, (a, b) ∈ rows → b ∈ visited ∨ b ∈ pending
  started : start ∈ visited ∨ start ∈ pending
  found_iff : ∀ c, c ∈ found ↔ ∃ place ∈ visited, place ≠ start ∧ c ∈ items place

omit [DecidableEq ν] [DecidableEq γ] in
theorem Explored.skip {place : ν} {pending visited : List ν} {found : List γ}
    (h : Explored rows items start (place :: pending) visited found) (hseen : place ∈ visited) :
    Explored rows items start pending visited found where
  reached := by
    intro other hother
    exact h.reached other (hother.imp_right (List.mem_cons_of_mem _))
  closed := by
    intro a ha b hb
    rcases h.closed a ha b hb with hb | hb
    · exact .inl hb
    · rcases List.mem_cons.mp hb with rfl | hb
      · exact .inl hseen
      · exact .inr hb
  started := by
    rcases h.started with hs | hs
    · exact .inl hs
    · rcases List.mem_cons.mp hs with hs | hs
      · exact .inl (hs ▸ hseen)
      · exact .inr hs
  found_iff := h.found_iff

theorem Explored.visit {place : ν} {pending visited : List ν} {found : List γ}
    (h : Explored rows items start (place :: pending) visited found) :
    Explored rows items start (pending ++ successors rows place) (place :: visited)
      (if place = start then found else extend found (items place)) where
  reached := by
    have hplace := h.reached place (.inr List.mem_cons_self)
    intro other hother
    rcases hother with hother | hother
    · rcases List.mem_cons.mp hother with rfl | hother
      · exact hplace
      · exact h.reached other (.inl hother)
    · rcases List.mem_append.mp hother with hother | hother
      · exact h.reached other (.inr (List.mem_cons_of_mem _ hother))
      · exact hplace.tail (mem_successors.mp hother)
  closed := by
    intro a ha b hb
    rcases List.mem_cons.mp ha with rfl | ha
    · exact .inr (List.mem_append_right _ (mem_successors.mpr hb))
    · rcases h.closed a ha b hb with hb | hb
      · exact .inl (List.mem_cons_of_mem _ hb)
      · rcases List.mem_cons.mp hb with rfl | hb
        · exact .inl List.mem_cons_self
        · exact .inr (List.mem_append_left _ hb)
  started := by
    rcases h.started with hs | hs
    · exact .inl (List.mem_cons_of_mem _ hs)
    · rcases List.mem_cons.mp hs with hs | hs
      · exact .inl (List.mem_cons.mpr (.inl hs))
      · exact .inr (List.mem_append_left _ hs)
  found_iff := by
    intro c
    simp only [List.mem_cons, exists_eq_or_imp]
    split
    · rename_i hstart
      simp [hstart, h.found_iff c]
    · rename_i hstart
      rw [mem_extend, h.found_iff c]
      simp [hstart, or_comm]

theorem mem_collect_iff (pending visited : List ν) (found : List γ)
    (h : Explored rows items start pending visited found) (c : γ) :
    c ∈ collect rows items start pending visited found ↔
      ∃ place, Relation.ReflTransGen (fun a b => (a, b) ∈ rows) start place ∧
        place ≠ start ∧ c ∈ items place := by
  induction pending, visited, found using collect.induct rows items start with
  | case1 visited found =>
    rw [collect, h.found_iff]
    -- The queue is empty: what is visited is exactly what can be reached.
    have hall : ∀ place, Relation.ReflTransGen (fun a b => (a, b) ∈ rows) start place →
        place ∈ visited := by
      intro place hreach
      induction hreach with
      | refl => simpa using h.started
      | tail _ hrow ih => simpa using h.closed _ ih _ hrow
    constructor
    · rintro ⟨place, hplace, hrest⟩
      exact ⟨place, h.reached place (.inl hplace), hrest⟩
    · rintro ⟨place, hplace, hrest⟩
      exact ⟨place, hall place hplace, hrest⟩
  | case2 visited found place pending hseen ih =>
    rw [collect, if_pos hseen]
    exact ih (h.skip hseen)
  | case3 visited found place pending hnew ih =>
    rw [collect, if_neg hnew]
    exact ih h.visit

theorem nodup_collect (pending visited : List ν) (found : List γ) (h : found.Nodup) :
    (collect rows items start pending visited found).Nodup := by
  induction pending, visited, found using collect.induct rows items start with
  | case1 visited found =>
    rw [collect]
    exact h
  | case2 visited found place pending hseen ih =>
    rw [collect, if_pos hseen]
    exact ih h
  | case3 visited found place pending hnew ih =>
    rw [collect, if_neg hnew]
    apply ih
    split
    · exact h
    · exact nodup_extend _ h

end Loop

theorem mem_collectFrom_iff {rows : List (ν × ν)} {items : ν → List γ} {start : ν} {c : γ} :
    c ∈ collectFrom rows items start ↔
      ∃ place, Relation.ReflTransGen (fun a b => (a, b) ∈ rows) start place ∧
        place ≠ start ∧ c ∈ items place := by
  apply mem_collect_iff
  constructor
  · intro place hplace
    obtain rfl : place = start := by simpa using hplace
    exact .refl
  · intro a ha
    cases ha
  · exact .inr List.mem_cons_self
  · simp

theorem nodup_collectFrom (rows : List (ν × ν)) (items : ν → List γ) (start : ν) :
    (collectFrom rows items start).Nodup :=
  nodup_collect _ _ _ List.nodup_nil

/-- Rows and items in another order give the same collection, in some order. -/
theorem collectFrom_perm {rows rows' : List (ν × ν)} {items items' : ν → List γ} (start : ν)
    (hrows : ∀ row, row ∈ rows ↔ row ∈ rows')
    (hitems : ∀ place c, c ∈ items place ↔ c ∈ items' place) :
    (collectFrom rows items start).Perm (collectFrom rows' items' start) := by
  apply (List.perm_ext_iff_of_nodup (nodup_collectFrom _ _ _) (nodup_collectFrom _ _ _)).mpr
  intro c
  simp only [mem_collectFrom_iff, hrows, hitems]

/-! ## Everything reachable, noted when it is queued -/

section Flood
variable {rows : List (ν × ν)} {start : ν}

/-- Note and queue a place unless it is known; the pair is what is known and the queue. -/
def note (state : List ν × List ν) (next : ν) : List ν × List ν :=
  if next ∈ state.1 then state else (state.1 ++ [next], state.2 ++ [next])

/-- Work off the queue for at most so many turns. -/
def flood (rows : List (ν × ν)) : Nat → List ν × List ν → List ν
  | 0, state => state.1
  | _ + 1, (known, []) => known
  | turns + 1, (known, place :: queue) =>
    flood rows turns ((successors rows place).foldl note (known, queue))

/-- Every place is queued at most once, so there are enough turns. -/
def reachableFrom (rows : List (ν × ν)) (start : ν) : List ν :=
  flood rows (rows.length + 1) ([start], [start])

/-- What holds before each turn. -/
structure Flooded (rows : List (ν × ν)) (start : ν) (state : List ν × List ν) : Prop where
  started : start ∈ state.1
  reached : ∀ place ∈ state.1, Relation.ReflTransGen (fun a b => (a, b) ∈ rows) start place
  queued : state.2 ⊆ state.1
  closed : ∀ a ∈ state.1, a ∈ state.2 ∨ ∀ b, (a, b) ∈ rows → b ∈ state.1

/-- The rows that still lead to an unknown place, and the queue. -/
def flooding (rows : List (ν × ν)) (state : List ν × List ν) : Nat :=
  (rows.filter fun row => row.2 ∉ state.1).length + state.2.length

theorem mem_foldl_note {nexts : List ν} {state : List ν × List ν} {b : ν} :
    b ∈ (nexts.foldl note state).1 ↔ b ∈ state.1 ∨ b ∈ nexts := by
  induction nexts generalizing state with
  | nil => simp
  | cons next nexts ih =>
    rw [List.foldl_cons, ih, List.mem_cons, ← or_assoc]
    apply or_congr_left
    unfold note
    split
    · rename_i hknown
      constructor
      · exact Or.inl
      · rintro (h | rfl)
        · exact h
        · exact hknown
    · simp

theorem mem_queue_foldl_note {nexts : List ν} {state : List ν × List ν} {b : ν} :
    b ∈ (nexts.foldl note state).2 ↔ b ∈ state.2 ∨ (b ∈ nexts ∧ b ∉ state.1) := by
  induction nexts generalizing state with
  | nil => simp
  | cons next nexts ih =>
    rw [List.foldl_cons, ih]
    unfold note
    by_cases hknown : next ∈ state.1
    · rw [if_pos hknown]
      constructor
      · rintro (h | ⟨h, hnew⟩)
        · exact Or.inl h
        · exact Or.inr ⟨List.mem_cons_of_mem _ h, hnew⟩
      · rintro (h | ⟨h, hnew⟩)
        · exact Or.inl h
        · rcases List.mem_cons.mp h with rfl | h
          · exact absurd hknown hnew
          · exact Or.inr ⟨h, hnew⟩
    · rw [if_neg hknown]
      by_cases hb : b = next
      · simp [hb, hknown]
      · simp [hb]

theorem flooding_note {state : List ν × List ν} {place next : ν} (hrow : (place, next) ∈ rows) :
    flooding rows (note state next) ≤ flooding rows state := by
  unfold note
  split
  · exact Nat.le_refl _
  · rename_i hnew
    have hfilter : rows.filter (fun row => row.2 ∉ state.1 ++ [next]) =
        (rows.filter fun row => row.2 ∉ state.1).filter fun row => row.2 ≠ next := by
      rw [List.filter_filter]
      apply List.filter_congr
      intro row _
      simp [and_comm]
    have hlt : ((rows.filter fun row => row.2 ∉ state.1).filter
        fun row => row.2 ≠ next).length < (rows.filter fun row => row.2 ∉ state.1).length := by
      rw [List.length_filter_lt_length_iff_exists]
      exact ⟨(place, next), List.mem_filter.mpr ⟨hrow, by simpa using hnew⟩, by simp⟩
    unfold flooding
    dsimp only
    rw [hfilter, List.length_append, List.length_singleton]
    omega

theorem flooding_foldl_note {place : ν} {nexts : List ν} {state : List ν × List ν}
    (hrows : ∀ next ∈ nexts, (place, next) ∈ rows) :
    flooding rows (nexts.foldl note state) ≤ flooding rows state := by
  induction nexts generalizing state with
  | nil => exact Nat.le_refl _
  | cons next nexts ih =>
    rw [List.foldl_cons]
    exact Nat.le_trans (ih fun other hother => hrows other (List.mem_cons_of_mem _ hother))
      (flooding_note (hrows next List.mem_cons_self))

theorem Flooded.turn {place : ν} {known queue : List ν}
    (h : Flooded rows start (known, place :: queue)) :
    Flooded rows start ((successors rows place).foldl note (known, queue)) := by
  have hplace : place ∈ known := h.queued List.mem_cons_self
  refine ⟨?_, ?_, ?_, ?_⟩
  · rw [mem_foldl_note]
    exact Or.inl h.started
  · intro b hb
    rcases mem_foldl_note.mp hb with hb | hb
    · exact h.reached b hb
    · exact (h.reached place hplace).tail (mem_successors.mp hb)
  · intro b hb
    rw [mem_foldl_note]
    rcases mem_queue_foldl_note.mp hb with hb | ⟨hb, _⟩
    · exact Or.inl (h.queued (List.mem_cons_of_mem _ hb))
    · exact Or.inr hb
  · intro a ha
    rw [mem_queue_foldl_note]
    by_cases hknown : a ∈ known
    · rcases h.closed a hknown with hqueued | hclosed
      · rcases List.mem_cons.mp hqueued with rfl | hqueued
        · refine Or.inr fun b hb => ?_
          rw [mem_foldl_note]
          exact Or.inr (mem_successors.mpr hb)
        · exact Or.inl (Or.inl hqueued)
      · refine Or.inr fun b hb => ?_
        rw [mem_foldl_note]
        exact Or.inl (hclosed b hb)
    · rcases mem_foldl_note.mp ha with ha | ha
      · exact absurd ha hknown
      · exact Or.inl (Or.inr ⟨ha, hknown⟩)

omit [DecidableEq ν] in
theorem Flooded.complete {known : List ν} (h : Flooded rows start (known, [])) {b : ν}
    (hb : Relation.ReflTransGen (fun a b => (a, b) ∈ rows) start b) : b ∈ known := by
  induction hb with
  | refl => exact h.started
  | tail _ hstep ih =>
    rcases h.closed _ ih with hqueued | hclosed
    · cases hqueued
    · exact hclosed _ hstep

theorem mem_flood_iff {turns : Nat} {state : List ν × List ν} (h : Flooded rows start state)
    (hturns : flooding rows state ≤ turns) {b : ν} :
    b ∈ flood rows turns state ↔ Relation.ReflTransGen (fun a b => (a, b) ∈ rows) start b := by
  induction turns generalizing state with
  | zero =>
    obtain ⟨known, queue⟩ := state
    obtain rfl : queue = [] := by
      apply List.eq_nil_of_length_eq_zero
      unfold flooding at hturns
      dsimp only at hturns
      omega
    exact ⟨h.reached b, h.complete⟩
  | succ turns ih =>
    obtain ⟨known, queue⟩ := state
    cases queue with
    | nil => exact ⟨h.reached b, h.complete⟩
    | cons place queue =>
      unfold flood
      apply ih h.turn
      have hle : flooding rows ((successors rows place).foldl note (known, queue)) ≤
          flooding rows (known, queue) :=
        flooding_foldl_note fun next hnext => mem_successors.mp hnext
      unfold flooding at hle hturns ⊢
      simp only [List.length_cons] at hle hturns ⊢
      omega

theorem mem_reachableFrom_iff {b : ν} :
    b ∈ reachableFrom rows start ↔
      Relation.ReflTransGen (fun a b => (a, b) ∈ rows) start b := by
  apply mem_flood_iff
  · refine ⟨List.mem_singleton.mpr rfl, ?_, fun _ h => h, fun a ha => Or.inl ha⟩
    intro place hplace
    rw [List.mem_singleton.mp hplace]
  · unfold flooding
    have hle := List.length_filter_le (fun row => decide (row.2 ∉ [start])) rows
    simp only [List.length_singleton]
    omega

end Flood

end Worklist
