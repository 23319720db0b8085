import Mathlib.Data.List.Pairwise
import Mathlib.Order.Defs.LinearOrder
import Mathlib.Order.Basic
import Mathlib.Order.Bounds.Basic
import Mathlib.Order.Lattice

/-!
# Maps in the order of their keys

A finite map as the list of its entries, with the keys strictly increasing, so that iteration
follows the keys. `put` writes an entry; `offer` writes one that competes with the entry that is
there.
-/

set_option autoImplicit false

universe u v

structure SortedMap (κ : Type u) [LinearOrder κ] (β : Type v) where
  entries : List (κ × β)
  sorted : entries.Pairwise fun a b => a.1 < b.1

namespace SortedMap
variable {κ : Type u} [LinearOrder κ] {β : Type v}

def empty : SortedMap κ β := ⟨[], List.Pairwise.nil⟩

def get (m : SortedMap κ β) (k : κ) : Option β := (m.entries.find? (·.1 = k)).map (·.2)

def keys (m : SortedMap κ β) : List κ := m.entries.map (·.1)

def putEntry (k : κ) (v : β) : List (κ × β) → List (κ × β)
  | [] => [(k, v)]
  | (k', v') :: rest =>
    if k < k' then (k, v) :: (k', v') :: rest
    else if k = k' then (k, v) :: rest
    else (k', v') :: putEntry k v rest

theorem mem_putEntry {k : κ} {v : β} {e : κ × β} {l : List (κ × β)} (h : e ∈ putEntry k v l) :
    e = (k, v) ∨ e ∈ l := by
  induction l with
  | nil => exact Or.inl (List.mem_singleton.mp h)
  | cons head rest ih =>
    obtain ⟨k', v'⟩ := head
    unfold putEntry at h
    split at h
    · exact List.mem_cons.mp h
    · split at h
      · rcases List.mem_cons.mp h with h | h
        · exact Or.inl h
        · exact Or.inr (List.mem_cons_of_mem _ h)
      · rcases List.mem_cons.mp h with h | h
        · exact Or.inr (h ▸ List.mem_cons_self)
        · rcases ih h with h | h
          · exact Or.inl h
          · exact Or.inr (List.mem_cons_of_mem _ h)

theorem sorted_putEntry {k : κ} {v : β} {l : List (κ × β)}
    (h : l.Pairwise fun a b => a.1 < b.1) :
    (putEntry k v l).Pairwise fun a b => a.1 < b.1 := by
  induction l with
  | nil => exact List.pairwise_singleton _ _
  | cons head rest ih =>
    obtain ⟨k', v'⟩ := head
    obtain ⟨hhead, hrest⟩ := List.pairwise_cons.mp h
    unfold putEntry
    split
    · rename_i hlt
      refine List.pairwise_cons.mpr ⟨?_, h⟩
      intro e he
      rcases List.mem_cons.mp he with rfl | he
      · exact hlt
      · exact lt_trans hlt (hhead e he)
    · split
      · rename_i heq
        subst heq
        exact List.pairwise_cons.mpr ⟨hhead, hrest⟩
      · rename_i hnlt hne
        refine List.pairwise_cons.mpr ⟨?_, ih hrest⟩
        intro e he
        rcases mem_putEntry he with rfl | he
        · exact lt_of_le_of_ne (not_lt.mp hnlt) (Ne.symm hne)
        · exact hhead e he

theorem find_putEntry (k k' : κ) (v : β) (l : List (κ × β)) :
    ((putEntry k v l).find? (·.1 = k')).map (·.2) =
      if k' = k then some v else (l.find? (·.1 = k')).map (·.2) := by
  induction l with
  | nil =>
    by_cases h : k' = k
    · simp [putEntry, h]
    · simp [putEntry, h, Ne.symm h]
  | cons head rest ih =>
    obtain ⟨key, value⟩ := head
    unfold putEntry
    split
    · by_cases h : k' = k
      · simp [h]
      · simp [h, Ne.symm h, List.find?_cons]
    · split
      · rename_i _ heq
        subst heq
        by_cases h : k' = k
        · simp [h]
        · simp [h, Ne.symm h]
      · rename_i _ hne
        by_cases hkey : key = k'
        · subst hkey
          simp [Ne.symm hne]
        · simp [hkey, ih]

def put (m : SortedMap κ β) (k : κ) (v : β) : SortedMap κ β :=
  ⟨putEntry k v m.entries, sorted_putEntry m.sorted⟩

/-- The entry becomes `v` when there is none, and otherwise the better of the two. -/
def offer (m : SortedMap κ β) (better : β → β → Bool) (k : κ) (v : β) : SortedMap κ β :=
  match m.get k with
  | none => m.put k v
  | some current => if better v current then m.put k v else m

@[simp] theorem get_empty (k : κ) : (empty : SortedMap κ β).get k = none := rfl

theorem get_put (m : SortedMap κ β) (k k' : κ) (v : β) :
    (m.put k v).get k' = if k' = k then some v else m.get k' :=
  find_putEntry k k' v m.entries

theorem mem_entries_iff {m : SortedMap κ β} {k : κ} {v : β} :
    (k, v) ∈ m.entries ↔ m.get k = some v := by
  unfold get
  constructor
  · intro h
    have hfind : m.entries.find? (·.1 = k) = some (k, v) := by
      rw [List.find?_eq_some_iff_append]
      refine ⟨by simp, ?_⟩
      obtain ⟨before, after, hsplit⟩ := List.append_of_mem h
      refine ⟨before, after, hsplit, ?_⟩
      intro e he
      have hsorted := m.sorted
      rw [hsplit, List.pairwise_append] at hsorted
      have hlt := hsorted.2.2 e he (k, v) List.mem_cons_self
      simp [ne_of_lt hlt]
    rw [hfind]
    rfl
  · intro h
    obtain ⟨e, he, rfl⟩ := Option.map_eq_some_iff.mp h
    have hkey : e.1 = k := by simpa using List.find?_some he
    have hmem := List.mem_of_find?_eq_some he
    rw [← hkey]
    exact hmem

theorem mem_keys_iff {m : SortedMap κ β} {k : κ} : k ∈ m.keys ↔ ∃ v, m.get k = some v := by
  unfold keys
  rw [List.mem_map]
  constructor
  · rintro ⟨⟨k', v⟩, he, rfl⟩
    exact ⟨v, mem_entries_iff.mp he⟩
  · rintro ⟨v, h⟩
    exact ⟨(k, v), mem_entries_iff.mpr h, rfl⟩

theorem mem_keys_put {m : SortedMap κ β} {k k' : κ} {v : β} :
    k' ∈ (m.put k v).keys ↔ k' = k ∨ k' ∈ m.keys := by
  rw [mem_keys_iff, mem_keys_iff, get_put]
  by_cases h : k' = k <;> simp [h]

theorem mem_keys_offer {m : SortedMap κ β} {better : β → β → Bool} {k k' : κ} {v : β} :
    k' ∈ (m.offer better k v).keys ↔ k' = k ∨ k' ∈ m.keys := by
  unfold offer
  split
  · exact mem_keys_put
  · rename_i current hcurrent
    have hk : k ∈ m.keys := mem_keys_iff.mpr ⟨current, hcurrent⟩
    split
    · exact mem_keys_put
    · constructor
      · exact Or.inr
      · rintro (rfl | h)
        · exact hk
        · exact h

theorem mem_keys_foldl_put {α : Type*} {key : α → κ} {value : α → β} {l : List α}
    {m : SortedMap κ β} {k : κ} :
    k ∈ (l.foldl (fun m a => m.put (key a) (value a)) m).keys ↔ k ∈ l.map key ∨ k ∈ m.keys := by
  induction l generalizing m with
  | nil => simp
  | cons a l ih =>
    rw [List.foldl_cons, ih, mem_keys_put, List.map_cons, List.mem_cons]
    constructor
    · rintro (h | h | h)
      · exact Or.inl (Or.inr h)
      · exact Or.inl (Or.inl h)
      · exact Or.inr h
    · rintro ((h | h) | h)
      · exact Or.inr (Or.inl h)
      · exact Or.inl h
      · exact Or.inr (Or.inr h)

theorem mem_keys_foldl_offer {better : β → β → Bool} {α : Type*} {key : α → κ} {value : α → β}
    {l : List α} {m : SortedMap κ β} {k : κ} :
    k ∈ (l.foldl (fun m a => m.offer better (key a) (value a)) m).keys ↔
      k ∈ l.map key ∨ k ∈ m.keys := by
  induction l generalizing m with
  | nil => simp
  | cons a l ih =>
    rw [List.foldl_cons, ih, mem_keys_offer, List.map_cons, List.mem_cons]
    constructor
    · rintro (h | h | h)
      · exact Or.inl (Or.inr h)
      · exact Or.inl (Or.inl h)
      · exact Or.inr h
    · rintro ((h | h) | h)
      · exact Or.inr (Or.inl h)
      · exact Or.inl h
      · exact Or.inr (Or.inr h)

/-- What wins the offers for a key: it was there or offered, and nothing else ranks before it. -/
theorem foldl_offer_spec {better : β → β → Bool} {le : β → β → Prop} (hrefl : ∀ v, le v v)
    (htrans : ∀ u v w, le u v → le v w → le u w)
    (hbetter : ∀ v w, better v w = true → le v w) (hworse : ∀ v w, better v w = false → le w v)
    {l : List (κ × β)} {m : SortedMap κ β} {k : κ} {v : β}
    (h : (l.foldl (fun m e => m.offer better e.1 e.2) m).get k = some v) :
    (m.get k = some v ∨ (k, v) ∈ l) ∧ ∀ w, m.get k = some w ∨ (k, w) ∈ l → le v w := by
  induction l generalizing m with
  | nil =>
    refine ⟨.inl h, ?_⟩
    intro w hw
    rcases hw with hw | hw
    · rw [List.foldl_nil, hw] at h
      cases h
      exact hrefl v
    · cases hw
  | cons e l ih =>
    obtain ⟨hfrom, hleast⟩ := ih h
    obtain ⟨key, value⟩ := e
    by_cases hkey : k = key
    · subst hkey
      have hoffer : ∃ u, (m.offer better k value).get k = some u ∧
          (m.get k = some u ∨ u = value) ∧ le u value ∧ ∀ w, m.get k = some w → le u w := by
        unfold offer
        cases hget : m.get k with
        | none => exact ⟨value, by rw [get_put, if_pos rfl], .inr rfl, hrefl value, by simp⟩
        | some current =>
          cases hb : better value current with
          | true =>
            refine ⟨value, ?_, .inr rfl, hrefl value, ?_⟩
            · dsimp only
              rw [hb, if_pos rfl, get_put, if_pos rfl]
            · intro w hw
              cases hw
              exact hbetter value current hb
          | false =>
            refine ⟨current, ?_, .inl rfl, hworse value current hb, ?_⟩
            · dsimp only
              rw [hb, if_neg Bool.false_ne_true, hget]
            · intro w hw
              cases hw
              exact hrefl current
      obtain ⟨u, hu, hsource, hvalue, hbefore⟩ := hoffer
      have hvu : le v u := hleast u (.inl hu)
      refine ⟨?_, ?_⟩
      · rcases hfrom with hfrom | hfrom
        · obtain rfl : u = v := Option.some.inj (hu.symm.trans hfrom)
          rcases hsource with hsource | rfl
          · exact .inl hsource
          · exact .inr List.mem_cons_self
        · exact .inr (List.mem_cons_of_mem _ hfrom)
      · intro w hw
        rcases hw with hw | hw
        · exact htrans v u w hvu (hbefore w hw)
        · rcases List.mem_cons.mp hw with hw | hw
          · cases hw
            exact htrans v u value hvu hvalue
          · exact hleast w (.inr hw)
    · have hget : (m.offer better key value).get k = m.get k := by
        unfold offer
        split
        · rw [get_put, if_neg hkey]
        · split
          · rw [get_put, if_neg hkey]
          · rfl
      have hmem : ∀ w, (k, w) ∈ (key, value) :: l ↔ (k, w) ∈ l := by
        intro w
        rw [List.mem_cons, Prod.mk.injEq]
        exact or_iff_right fun hw => hkey hw.1
      rw [hget] at hfrom hleast
      simp only [hmem]
      exact ⟨hfrom, hleast⟩

/-- Offers that compete by size leave the least of those for a key. -/
theorem get_foldl_offer_lt [LinearOrder β] {l : List (κ × β)} {k : κ} {v : β} :
    (l.foldl (fun m e => m.offer (fun a b => decide (a < b)) e.1 e.2) empty).get k = some v ↔
      IsLeast { w | (k, w) ∈ l } v := by
  have hleast : ∀ v, (l.foldl (fun m e => m.offer (fun a b => decide (a < b)) e.1 e.2)
      empty).get k = some v → IsLeast { w | (k, w) ∈ l } v := by
    intro v h
    obtain ⟨hfrom, hbefore⟩ := foldl_offer_spec le_refl (fun _ _ _ => le_trans)
      (fun a b hab => le_of_lt (of_decide_eq_true hab))
      (fun a b hab => not_lt.mp (of_decide_eq_false hab)) h
    refine ⟨hfrom.resolve_left (by simp), ?_⟩
    intro w hw
    exact hbefore w (.inr hw)
  constructor
  · exact hleast v
  · intro h
    have hkey : k ∈ (l.foldl (fun m e => m.offer (fun a b => decide (a < b)) e.1 e.2)
        empty).keys := by
      rw [mem_keys_foldl_offer]
      exact .inl (List.mem_map.mpr ⟨(k, v), h.1, rfl⟩)
    obtain ⟨u, hu⟩ := mem_keys_iff.mp hkey
    rw [hu, (hleast u hu).unique h]

/-- The entries of one map written over another. -/
theorem get_foldl_put_entries (m m' : SortedMap κ β) (k : κ) :
    (m'.entries.foldl (fun m e => m.put e.1 e.2) m).get k = (m'.get k).or (m.get k) := by
  have hfold : ∀ (l : List (κ × β)) (m : SortedMap κ β),
      l.Pairwise (fun a b => a.1 < b.1) →
      (l.foldl (fun m e => m.put e.1 e.2) m).get k =
        ((l.find? (·.1 = k)).map (·.2)).or (m.get k) := by
    intro l
    induction l with
    | nil => simp
    | cons e l ih =>
      intro m hsorted
      obtain ⟨hhead, htail⟩ := List.pairwise_cons.mp hsorted
      rw [List.foldl_cons, ih _ htail, get_put]
      by_cases hkey : k = e.1
      · subst hkey
        have hnone : l.find? (fun b => decide (b.1 = e.1)) = none := by
          rw [List.find?_eq_none]
          intro b hb
          simpa using ne_of_gt (hhead b hb)
        simp [hnone]
      · rw [if_neg hkey, List.find?_cons_of_neg (by simpa using Ne.symm hkey)]
  exact hfold m'.entries m m'.sorted

theorem nodup_entries (m : SortedMap κ β) : m.entries.Nodup :=
  m.sorted.imp fun h heq => absurd (congrArg Prod.fst heq) (ne_of_lt h)

/-- A map is what its keys are looked up to. -/
theorem ext_get {m m' : SortedMap κ β} (h : ∀ k, m.get k = m'.get k) : m = m' := by
  have hmem : ∀ e, e ∈ m.entries ↔ e ∈ m'.entries := by
    rintro ⟨k, v⟩
    rw [mem_entries_iff, mem_entries_iff, h]
  have hperm : m.entries.Perm m'.entries :=
    (List.perm_ext_iff_of_nodup m.nodup_entries m'.nodup_entries).mpr hmem
  have heq : m.entries = m'.entries := by
    refine List.Perm.eq_of_pairwise ?_ m.sorted m'.sorted hperm
    intro a b _ _ hab hba
    exact absurd hab (lt_asymm hba)
  cases m
  cases m'
  congr

end SortedMap
