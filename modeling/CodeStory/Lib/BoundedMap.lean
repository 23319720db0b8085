import Mathlib.Data.List.Basic
import Mathlib.Data.List.Nodup

/-!
# A bounded map that forgets the oldest key

Entries with a queue of their keys. `insert` renews a key and then drops keys from the front
of the queue until the entries fit. An entry of the result was there before or has just been
put in. A map that keeps the two structures in step is `Consistent`; one that agrees with the
list of everything that ever happened to it is `Recorded`, and then what it dropped was always
its oldest key.
-/

set_option autoImplicit false

universe u v

structure BoundedMap (K : Type u) (V : Type v) where
  entries : List (K × V)
  order : List K
  capacity : Nat

namespace BoundedMap
variable {K : Type u} {V : Type v} [DecidableEq K]

def withCapacity (capacity : Nat) : BoundedMap K V := ⟨[], [], max capacity 1⟩

def get (map : BoundedMap K V) (key : K) : Option V :=
  (map.entries.find? fun entry => entry.1 = key).map (·.2)

/-- Drop keys from the front of the queue while there are too many entries. -/
def evict (capacity : Nat) : List K → List (K × V) → List K × List (K × V)
  | [], entries => ([], entries)
  | key :: order, entries =>
    if entries.length > capacity then
      evict capacity order (entries.filter fun entry => entry.1 ≠ key)
    else (key :: order, entries)

def renewOrder (order : List K) (entries : List (K × V)) (key : K) : List K :=
  (if key ∈ entries.map (·.1) then order.filter (· ≠ key) else order) ++ [key]

def renewEntries (entries : List (K × V)) (key : K) (value : V) : List (K × V) :=
  (key, value) :: entries.filter fun entry => entry.1 ≠ key

def insert (map : BoundedMap K V) (key : K) (value : V) : BoundedMap K V :=
  let kept := evict map.capacity (renewOrder map.order map.entries key)
    (renewEntries map.entries key value)
  { map with order := kept.1, entries := kept.2 }

def remove (map : BoundedMap K V) (key : K) : BoundedMap K V :=
  { map with
    entries := map.entries.filter fun entry => entry.1 ≠ key
    order := map.order.filter (· ≠ key) }

def clear (map : BoundedMap K V) : BoundedMap K V := { map with entries := [], order := [] }

theorem mem_of_get {map : BoundedMap K V} {key : K} {value : V} (h : map.get key = some value) :
    (key, value) ∈ map.entries := by
  obtain ⟨entry, hentry, rfl⟩ := Option.map_eq_some_iff.mp h
  have hkey := List.find?_some hentry
  obtain rfl : entry.1 = key := of_decide_eq_true hkey
  exact List.mem_of_find?_eq_some hentry

theorem mem_evict {capacity : Nat} {entry : K × V} (order : List K) (entries : List (K × V))
    (h : entry ∈ (evict capacity order entries).2) : entry ∈ entries := by
  induction order generalizing entries with
  | nil => exact h
  | cons key order ih =>
    unfold evict at h
    split at h
    · exact (List.mem_filter.mp (ih _ h)).1
    · exact h

/-- An entry after an insertion is the new one or an old one. -/
theorem mem_insert {map : BoundedMap K V} {key : K} {value : V} {entry : K × V}
    (h : entry ∈ (map.insert key value).entries) :
    entry = (key, value) ∨ entry ∈ map.entries := by
  rcases List.mem_cons.mp (mem_evict _ _ h) with rfl | h
  · exact .inl rfl
  · exact .inr (List.mem_filter.mp h).1

theorem mem_of_mem_evict_order {capacity : Nat} {key : K} (order : List K)
    (entries : List (K × V)) (h : key ∈ (evict capacity order entries).1) : key ∈ order := by
  induction order generalizing entries with
  | nil => exact h
  | cons first order ih =>
    unfold evict at h
    split at h
    · exact List.mem_cons_of_mem _ (ih _ h)
    · exact h

/-- A key of the queue after an insertion is the new one or an old one. -/
theorem mem_order_insert {map : BoundedMap K V} {key other : K} {value : V}
    (h : other ∈ (map.insert key value).order) : other = key ∨ other ∈ map.order := by
  rcases List.mem_append.mp (mem_of_mem_evict_order _ _ h) with h | h
  · right
    split at h
    · exact (List.mem_filter.mp h).1
    · exact h
  · left
    exact List.mem_singleton.mp h

section Keys
variable {entries : List (K × V)}

omit [DecidableEq K] in
theorem keys_filter (p : K → Bool) :
    (entries.filter fun entry => p entry.1).map (·.1) = (entries.map (·.1)).filter p := by
  rw [List.filter_map]
  rfl

theorem exists_get_iff {map : BoundedMap K V} {key : K} :
    (∃ value, map.get key = some value) ↔ key ∈ map.entries.map (·.1) := by
  constructor
  · rintro ⟨value, h⟩
    exact List.mem_map.mpr ⟨_, mem_of_get h, rfl⟩
  · intro h
    obtain ⟨entry, hentry, rfl⟩ := List.mem_map.mp h
    have hfound : (map.entries.find? fun e => e.1 = entry.1).isSome := by
      rw [List.find?_isSome]
      exact ⟨entry, hentry, by simp⟩
    obtain ⟨found, hfound⟩ := Option.isSome_iff_exists.mp hfound
    exact ⟨found.2, by simp [get, hfound]⟩

theorem filter_ne_eq_self {order : List K} {key : K} (h : key ∉ order) :
    order.filter (· ≠ key) = order := by
  rw [List.filter_eq_self]
  intro other hother
  refine decide_eq_true ?_
  rintro rfl
  exact h hother

end Keys

/-- The queue lists every key of the entries once, and no other. -/
structure Consistent (order : List K) (entries : List (K × V)) : Prop where
  order_nodup : order.Nodup
  keys_nodup : (entries.map (·.1)).Nodup
  mem_order_iff : ∀ key, key ∈ order ↔ key ∈ entries.map (·.1)

namespace Consistent
variable {order : List K} {entries : List (K × V)}

omit [DecidableEq K] in
theorem nil : Consistent ([] : List K) ([] : List (K × V)) :=
  ⟨List.nodup_nil, List.nodup_nil, fun _ => by simp⟩

omit [DecidableEq K] in
theorem length_eq (h : Consistent order entries) : order.length = entries.length := by
  have hperm : order.Perm (entries.map (·.1)) :=
    (List.perm_ext_iff_of_nodup h.order_nodup h.keys_nodup).mpr h.mem_order_iff
  simpa using hperm.length_eq

omit [DecidableEq K] in
theorem filter (h : Consistent order entries) (p : K → Bool) :
    Consistent (order.filter p) (entries.filter fun entry => p entry.1) := by
  refine ⟨h.order_nodup.filter _, ?_, ?_⟩
  · rw [keys_filter]
    exact h.keys_nodup.filter _
  · intro key
    rw [keys_filter, List.mem_filter, List.mem_filter, h.mem_order_iff]

omit [DecidableEq K] in
theorem append (h : Consistent order entries) {key : K} (value : V) (hkey : key ∉ order) :
    Consistent (order ++ [key]) ((key, value) :: entries) := by
  refine ⟨?_, ?_, ?_⟩
  · refine List.nodup_append.mpr ⟨h.order_nodup, List.nodup_singleton key, ?_⟩
    intro other hother last hlast
    obtain rfl := List.mem_singleton.mp hlast
    rintro rfl
    exact hkey hother
  · exact List.nodup_cons.mpr ⟨fun hmem => hkey ((h.mem_order_iff key).mpr hmem), h.keys_nodup⟩
  · intro other
    rw [List.mem_append, h.mem_order_iff, List.mem_singleton, List.map_cons, List.mem_cons]
    exact or_comm

/-- Dropping the key at the front of the queue. -/
theorem tail {key : K} (h : Consistent (key :: order) entries) :
    Consistent order (entries.filter fun entry => entry.1 ≠ key) := by
  have hkey : key ∉ order := (List.nodup_cons.mp h.order_nodup).1
  have hfilter := h.filter fun other => decide (other ≠ key)
  have horder : (key :: order).filter (fun other => decide (other ≠ key)) = order := by
    rw [List.filter_cons_of_neg (by simp)]
    exact filter_ne_eq_self hkey
  rwa [horder] at hfilter

theorem evict (h : Consistent order entries) (capacity : Nat) :
    Consistent (evict capacity order entries).1 (evict capacity order entries).2 ∧
      (BoundedMap.evict capacity order entries).2.length ≤ capacity := by
  induction order generalizing entries with
  | nil =>
    refine ⟨h, ?_⟩
    have hlength := h.length_eq
    simp only [List.length_nil] at hlength
    simp only [BoundedMap.evict]
    omega
  | cons key order ih =>
    unfold BoundedMap.evict
    split
    · exact ih h.tail
    · rename_i hfits
      exact ⟨h, Nat.le_of_not_lt hfits⟩

omit [DecidableEq K] in
theorem not_mem_of_keys (h : Consistent order entries) {key : K}
    (hkey : key ∉ entries.map (·.1)) : key ∉ order :=
  fun hmem => hkey ((h.mem_order_iff key).mp hmem)

theorem renewOrder_eq (h : Consistent order entries) (key : K) :
    renewOrder order entries key = order.filter (· ≠ key) ++ [key] := by
  unfold renewOrder
  split
  · rfl
  · rename_i hkey
    rw [filter_ne_eq_self (h.not_mem_of_keys hkey)]

/-- The queue and the entries of an insertion before anything is dropped. -/
theorem renew (h : Consistent order entries) (key : K) (value : V) :
    Consistent (renewOrder order entries key) (renewEntries entries key value) := by
  rw [h.renewOrder_eq]
  exact (h.filter fun other => decide (other ≠ key)).append value (by simp)

end Consistent

/-- What can happen to a key. Logs of events have the latest one first. -/
inductive Event (K : Type u) where
  | inserted (key : K)
  | removed (key : K)
  | evicted (key : K)
  | cleared
  deriving DecidableEq, Repr

/-- When a key was last inserted, counted in events; zero if it never was. -/
def lastInserted : List (Event K) → K → Nat
  | [], _ => 0
  | .inserted other :: log, key =>
    if other = key then log.length + 1 else lastInserted log key
  | _ :: log, key => lastInserted log key

/-- The key has been inserted, and nothing has taken it away since. -/
def Live : List (Event K) → K → Prop
  | [], _ => False
  | .inserted other :: log, key => key = other ∨ Live log key
  | .removed other :: log, key => key ≠ other ∧ Live log key
  | .evicted other :: log, key => key ≠ other ∧ Live log key
  | .cleared :: _, _ => False

/-- The key is live, and every other live key was inserted again after its last insertion. -/
def LeastRecent (log : List (Event K)) (key : K) : Prop :=
  Live log key ∧ ∀ other, Live log other → other ≠ key →
    lastInserted log key < lastInserted log other

/-- At each eviction of the log the evicted key was the least recently inserted one. -/
def EvictsOldest : List (Event K) → Prop
  | [] => True
  | .evicted key :: log => LeastRecent log key ∧ EvictsOldest log
  | _ :: log => EvictsOldest log

/-- The evictions of `evict`, put on top of a log. -/
def evictLog (capacity : Nat) : List K → List (K × V) → List (Event K) → List (Event K)
  | [], _, log => log
  | key :: order, entries, log =>
    if entries.length > capacity then
      evictLog capacity order (entries.filter fun entry => entry.1 ≠ key) (.evicted key :: log)
    else log

def insertLog (map : BoundedMap K V) (key : K) (value : V) (log : List (Event K)) :
    List (Event K) :=
  evictLog map.capacity (renewOrder map.order map.entries key)
    (renewEntries map.entries key value) (.inserted key :: log)

theorem lastInserted_le_length (log : List (Event K)) (key : K) :
    lastInserted log key ≤ log.length := by
  induction log with
  | nil => exact Nat.le_refl 0
  | cons event log ih =>
    have hstep : lastInserted log key ≤ log.length + 1 := by omega
    cases event with
    | inserted other =>
      simp only [lastInserted, List.length_cons]
      split
      · exact Nat.le_refl _
      · exact hstep
    | removed other => exact hstep
    | evicted other => exact hstep
    | cleared => exact hstep

/-- The queue lists the live keys of the log by their last insertion. -/
structure Recorded (order : List K) (log : List (Event K)) : Prop where
  mem_iff_live : ∀ key, key ∈ order ↔ Live log key
  by_insertion : order.Pairwise fun a b => lastInserted log a < lastInserted log b
  evicts_oldest : EvictsOldest log

namespace Recorded
variable {order : List K} {log : List (Event K)}

theorem nil : Recorded ([] : List K) [] :=
  ⟨fun _ => by simp [Live], List.Pairwise.nil, trivial⟩

theorem cleared (h : Recorded order log) : Recorded [] (.cleared :: log) :=
  ⟨fun _ => by simp [Live], List.Pairwise.nil, h.evicts_oldest⟩

theorem removed (h : Recorded order log) (key : K) :
    Recorded (order.filter (· ≠ key)) (.removed key :: log) := by
  refine ⟨?_, h.by_insertion.filter _, h.evicts_oldest⟩
  intro other
  rw [List.mem_filter, h.mem_iff_live]
  simp only [Live, decide_eq_true_eq]
  exact and_comm

theorem inserted (h : Recorded order log) (key : K) :
    Recorded (order.filter (· ≠ key) ++ [key]) (.inserted key :: log) := by
  refine ⟨?_, ?_, h.evicts_oldest⟩
  · intro other
    rw [List.mem_append, List.mem_filter, h.mem_iff_live, List.mem_singleton]
    simp only [Live, decide_eq_true_eq]
    by_cases hother : other = key
    · simp [hother]
    · simp [hother]
  · have hother : ∀ other ∈ order.filter (· ≠ key),
        lastInserted (.inserted key :: log) other = lastInserted log other := by
      intro other hmem
      have hne : other ≠ key := of_decide_eq_true (List.mem_filter.mp hmem).2
      simp only [lastInserted]
      rw [if_neg (Ne.symm hne)]
    have hkey : lastInserted (.inserted key :: log) key = log.length + 1 := by
      simp [lastInserted]
    refine List.pairwise_append.mpr ⟨?_, List.pairwise_singleton _ _, ?_⟩
    · refine (h.by_insertion.filter _).imp_of_mem ?_
      intro a b ha hb hab
      rw [hother a ha, hother b hb]
      exact hab
    · intro other hmem last hlast
      obtain rfl := List.mem_singleton.mp hlast
      rw [hother other hmem, hkey]
      have hle := lastInserted_le_length log other
      omega

/-- The front of the queue is the least recently inserted key. -/
theorem leastRecent {key : K} (h : Recorded (key :: order) log) : LeastRecent log key := by
  refine ⟨(h.mem_iff_live key).mp List.mem_cons_self, ?_⟩
  intro other hother hne
  rcases List.mem_cons.mp ((h.mem_iff_live other).mpr hother) with rfl | hmem
  · exact absurd rfl hne
  · exact (List.pairwise_cons.mp h.by_insertion).1 other hmem

theorem evicted {key : K} (h : Recorded (key :: order) log) (hkey : key ∉ order) :
    Recorded order (.evicted key :: log) := by
  refine ⟨?_, (List.pairwise_cons.mp h.by_insertion).2, h.leastRecent, h.evicts_oldest⟩
  intro other
  simp only [Live, ← h.mem_iff_live, List.mem_cons]
  constructor
  · intro hmem
    exact ⟨fun heq => hkey (heq ▸ hmem), .inr hmem⟩
  · rintro ⟨hne, heq | hmem⟩
    · exact absurd heq hne
    · exact hmem

theorem evict {entries : List (K × V)} (h : Recorded order log)
    (hconsistent : Consistent order entries) (capacity : Nat) :
    Recorded (evict capacity order entries).1 (evictLog capacity order entries log) := by
  induction order generalizing entries log with
  | nil => exact h
  | cons key order ih =>
    unfold BoundedMap.evict evictLog
    split
    · exact ih (h.evicted (List.nodup_cons.mp hconsistent.order_nodup).1) hconsistent.tail
    · exact h

end Recorded

/-- A map and a log of everything that happened to it. -/
structure Faithful (map : BoundedMap K V) (log : List (Event K)) : Prop where
  consistent : Consistent map.order map.entries
  recorded : Recorded map.order log
  fits : map.entries.length ≤ map.capacity

namespace Faithful
variable {map : BoundedMap K V} {log : List (Event K)}

theorem withCapacity (capacity : Nat) : Faithful (.withCapacity capacity : BoundedMap K V) [] :=
  ⟨.nil, .nil, Nat.zero_le _⟩

theorem insert (h : Faithful map log) (key : K) (value : V) :
    Faithful (map.insert key value) (map.insertLog key value log) := by
  have hrenewed := h.consistent.renew key value
  have hrecorded : Recorded (renewOrder map.order map.entries key) (.inserted key :: log) := by
    rw [h.consistent.renewOrder_eq]
    exact h.recorded.inserted key
  obtain ⟨hconsistent, hfits⟩ := hrenewed.evict map.capacity
  exact ⟨hconsistent, hrecorded.evict hrenewed map.capacity, hfits⟩

theorem remove (h : Faithful map log) (key : K) :
    Faithful (map.remove key) (.removed key :: log) := by
  refine ⟨h.consistent.filter fun other => decide (other ≠ key), h.recorded.removed key, ?_⟩
  exact Nat.le_trans (List.length_filter_le _ _) h.fits

theorem clear (h : Faithful map log) : Faithful map.clear (.cleared :: log) :=
  ⟨.nil, h.recorded.cleared, Nat.zero_le _⟩

end Faithful

end BoundedMap
