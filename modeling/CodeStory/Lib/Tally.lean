import CodeStory.Lib.KeyedTable
import Mathlib.Data.List.Dedup

/-!
# Counting by key

A loop that raises one counter for each key it meets, and a counter that is at its limit stops
the loop. The other way to the same counters is to group the keys and count each group.
-/

set_option autoImplicit false

namespace Tally

universe u

/-- Keys with their counters. -/
abbrev Counters (κ : Type u) := KeyedTable (Prod.fst : κ × Nat → κ)

variable {κ : Type u} [DecidableEq κ]

def Counters.get (counters : Counters κ) (k : κ) : Nat :=
  ((counters.lookup k).map Prod.snd).getD 0

/-- One more for a key, unless its counter is at the limit. -/
def bump (limit : Nat) (counters : Counters κ) (k : κ) : Option (Counters κ) :=
  if counters.get k < limit then some (counters.upsert (k, counters.get k + 1)) else none

def bumpAll (limit : Nat) (counters : Counters κ) (keys : List κ) : Option (Counters κ) :=
  keys.foldlM (bump limit) counters

variable {limit : Nat} {counters after : Counters κ} {keys other : List κ}

/-! ## One step -/

theorem get_upsert (k l : κ) (n : Nat) :
    Counters.get (counters.upsert (k, n)) l = if k = l then n else counters.get l := by
  unfold Counters.get
  rw [KeyedTable.lookup_upsert]
  split <;> rfl

theorem mem_keys_upsert (k l : κ) (n : Nat) :
    l ∈ (counters.upsert (k, n)).keys ↔ l = k ∨ l ∈ counters.keys := by
  rw [KeyedTable.mem_keys_iff, KeyedTable.lookup_upsert, KeyedTable.mem_keys_iff]
  split
  · rename_i h
    exact iff_of_true ⟨_, rfl⟩ (.inl (h : k = l).symm)
  · rename_i h
    have hne : ¬ l = k := fun hlk => h hlk.symm
    rw [or_iff_right hne]

/-! ## Whole loops -/

variable [BEq κ] [LawfulBEq κ]

/-- What is counted and what is still to come is the same before and after a step. -/
theorem get_upsert_add_count (key k : κ) :
    Counters.get (counters.upsert (key, counters.get key + 1)) k + keys.count k =
      counters.get k + (key :: keys).count k := by
  rw [get_upsert, List.count_cons]
  by_cases hk : key = k
  · subst hk
    simp only [if_true, beq_self_eq_true]
    omega
  · simp only [hk, if_false, beq_iff_eq]
    omega

/-- What the loop adds to each counter, and which keys it leaves. -/
theorem of_bumpAll (h : bumpAll limit counters keys = some after) :
    (∀ k, after.get k = counters.get k + keys.count k) ∧
      ∀ k, k ∈ after.keys ↔ k ∈ counters.keys ∨ k ∈ keys := by
  induction keys generalizing counters with
  | nil =>
    obtain rfl : counters = after := Option.some.inj h
    simp
  | cons key keys ih =>
    rw [bumpAll, List.foldlM_cons, bump] at h
    split at h
    · obtain ⟨hget, hkeys⟩ := ih h
      constructor
      · intro k
        rw [hget, get_upsert_add_count]
      · intro k
        rw [hkeys, mem_keys_upsert, List.mem_cons]
        tauto
    · cases h

/-- The loop ends exactly when no counter has to pass its limit. -/
theorem bumpAll_isSome_iff :
    (∃ after, bumpAll limit counters keys = some after) ↔
      ∀ k ∈ keys, counters.get k + keys.count k ≤ limit := by
  induction keys generalizing counters with
  | nil => exact iff_of_true ⟨counters, rfl⟩ (by simp)
  | cons key keys ih =>
    unfold bumpAll
    rw [List.foldlM_cons, bump]
    split
    · rename_i hlimit
      change (∃ after, bumpAll limit (counters.upsert (key, counters.get key + 1)) keys =
        some after) ↔ _
      rw [ih]
      constructor
      · intro h k hk
        rw [← get_upsert_add_count]
        by_cases hmem : k ∈ keys
        · exact h k hmem
        · obtain rfl := (List.mem_cons.mp hk).resolve_right hmem
          rw [List.count_eq_zero_of_not_mem hmem, get_upsert, if_pos rfl]
          omega
      · intro h k hk
        rw [get_upsert_add_count]
        exact h k (List.mem_cons_of_mem key hk)
    · rename_i hlimit
      apply iff_of_false
      · rintro ⟨after, h⟩
        cases h
      · intro h
        have hkey := h key List.mem_cons_self
        rw [List.count_cons_self] at hkey
        omega

/-! ## Groups -/

/-- `GROUP BY` the key with `COUNT(*)`. -/
def group (keys : List κ) : Counters κ where
  rows := keys.dedup.map fun k => (k, keys.count k)
  nodup := by
    rw [List.map_map]
    exact (List.map_id _).symm ▸ List.nodup_dedup keys

omit [LawfulBEq κ] in
theorem of_mem_group {k : κ} {n : Nat} (h : (k, n) ∈ (group keys).rows) :
    k ∈ keys ∧ n = keys.count k := by
  obtain ⟨l, hl, heq⟩ := List.mem_map.mp h
  obtain ⟨rfl, rfl⟩ := Prod.mk.inj heq
  exact ⟨List.mem_dedup.mp hl, rfl⟩

theorem lookup_group (k : κ) :
    (group keys).lookup k = if k ∈ keys then some (k, keys.count k) else none := by
  apply Option.ext
  rintro ⟨l, n⟩
  rw [KeyedTable.lookup_eq_some_iff]
  constructor
  · rintro ⟨hrow, rfl⟩
    obtain ⟨hmem, rfl⟩ := of_mem_group hrow
    rw [if_pos hmem]
  · intro h
    split at h
    · rename_i hmem
      obtain ⟨rfl, rfl⟩ := Prod.mk.inj (Option.some.inj h)
      exact ⟨List.mem_map.mpr ⟨k, List.mem_dedup.mpr hmem, rfl⟩, rfl⟩
    · cases h

theorem get_group (k : κ) : (group keys).get k = keys.count k := by
  unfold Counters.get
  rw [lookup_group]
  split
  · rfl
  · rename_i hmem
    exact (List.count_eq_zero_of_not_mem hmem).symm

theorem group_perm_iff : (group keys).rows.Perm (group other).rows ↔ keys.Perm other := by
  constructor
  · intro h
    apply List.perm_iff_count.mpr
    intro k
    rw [← get_group, ← get_group]
    unfold Counters.get
    rw [KeyedTable.rows_perm_iff.mp h k]
  · intro h
    apply KeyedTable.rows_perm_iff.mpr
    intro k
    rw [lookup_group, lookup_group, h.count_eq]
    simp only [h.mem_iff]

/-- Counting from nothing is grouping. -/
theorem bumpAll_perm_group (h : bumpAll limit .empty keys = some after) :
    after.rows.Perm (group keys).rows := by
  obtain ⟨hget, hkeys⟩ := of_bumpAll h
  apply KeyedTable.rows_perm_iff.mpr
  intro k
  rw [lookup_group]
  have hk : k ∈ after.keys ↔ k ∈ keys := by
    rw [hkeys]
    exact or_iff_right List.not_mem_nil
  split
  · rename_i hmem
    obtain ⟨⟨l, n⟩, hrow⟩ := KeyedTable.mem_keys_iff.mp (hk.mpr hmem)
    obtain rfl : l = k := KeyedTable.key_of_lookup hrow
    have hn := hget l
    simp only [Counters.get, hrow, KeyedTable.lookup_empty, Option.map_some, Option.getD_some,
      Option.map_none, Option.getD_none, Nat.zero_add] at hn
    rw [hrow, hn]
  · rename_i hmem
    exact KeyedTable.lookup_eq_none_iff.mpr fun h => hmem (hk.mp h)

/-- Selecting keys before grouping, or groups afterwards. -/
theorem filter_group_perm (p : κ → Bool) :
    ((group keys).rows.filter fun row => p row.1).Perm (group (keys.filter p)).rows := by
  have hlookup : ∀ k, ((group keys).deleteWhere fun row => !p row.1).lookup k =
      (group (keys.filter p)).lookup k := by
    intro k
    rw [KeyedTable.lookup_deleteWhere, lookup_group, lookup_group]
    by_cases hmem : k ∈ keys
    · rw [if_pos hmem]
      by_cases hp : p k = true
      · rw [if_pos (List.mem_filter.mpr ⟨hmem, hp⟩), List.count_filter hp]
        simp [Option.filter, hp]
      · rw [if_neg fun h => hp (List.mem_filter.mp h).2]
        simp [Option.filter, hp]
    · rw [if_neg hmem, if_neg fun h => hmem (List.mem_filter.mp h).1]
      rfl
  have hperm := KeyedTable.rows_perm_iff.mpr hlookup
  unfold KeyedTable.deleteWhere at hperm
  simpa only [Bool.not_not] using hperm

end Tally
