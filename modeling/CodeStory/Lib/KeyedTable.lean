import Mathlib.Data.List.Nodup
import Mathlib.Data.List.Perm.Basic

/-!
# Tables with a primary key

A table is a list of rows no two of which share a key. The operations are the ones a
relational store offers on such a table: overwrite by key, insert unless the key is taken,
delete by a condition, rewrite every row without touching its key. The order of the rows
carries no meaning; what a table holds is what `lookup` returns.
-/

set_option autoImplicit false

universe u v

/-- Rows whose keys are pairwise distinct. -/
structure KeyedTable {α : Type u} {κ : Type v} (key : α → κ) where
  rows : List α
  nodup : (rows.map key).Nodup

namespace KeyedTable
variable {α : Type u} {κ : Type v} {key : α → κ}

@[ext] theorem ext {t s : KeyedTable key} (h : t.rows = s.rows) : t = s := by
  cases t
  cases s
  simp_all

instance [DecidableEq α] : DecidableEq (KeyedTable key) := fun t s =>
  decidable_of_iff (t.rows = s.rows) ⟨ext, fun h => h ▸ rfl⟩

def empty : KeyedTable key := ⟨[], List.nodup_nil⟩

def size (t : KeyedTable key) : Nat := t.rows.length

def keys (t : KeyedTable key) : List κ := t.rows.map key

def deleteWhere (t : KeyedTable key) (p : α → Bool) : KeyedTable key :=
  ⟨t.rows.filter fun x => !p x, (List.filter_sublist.map key).nodup t.nodup⟩

/-- Rewrite every row; the key of a row stays what it is. -/
def update (t : KeyedTable key) (f : α → α) (hf : ∀ x, key (f x) = key x) : KeyedTable key :=
  ⟨t.rows.map f, by simpa [List.map_map, Function.comp_def, hf] using t.nodup⟩

theorem eq_of_key_eq {t : KeyedTable key} {x y : α} (hx : x ∈ t.rows) (hy : y ∈ t.rows)
    (h : key x = key y) : x = y :=
  List.inj_on_of_nodup_map t.nodup hx hy h

theorem size_eq_of_keys {t s : KeyedTable key} (h : ∀ k, k ∈ t.keys ↔ k ∈ s.keys) :
    t.size = s.size := by
  have hperm : t.keys.Perm s.keys := (List.perm_ext_iff_of_nodup t.nodup s.nodup).mpr h
  simpa [keys, size] using hperm.length_eq

variable [DecidableEq κ]

def lookup (t : KeyedTable key) (k : κ) : Option α := t.rows.find? fun x => key x = k

def upsert (t : KeyedTable key) (x : α) : KeyedTable key where
  rows := t.rows.filter (fun y => key y ≠ key x) ++ [x]
  nodup := by
    rw [List.map_append]
    apply List.Nodup.append
    · exact (List.filter_sublist.map key).nodup t.nodup
    · simp
    · intro k hk hx
      obtain ⟨y, hy, rfl⟩ := List.mem_map.mp hk
      have hne := (List.mem_filter.mp hy).2
      simp_all

/-- Insert a row unless its key is taken. -/
def insertNew (t : KeyedTable key) (x : α) : KeyedTable key :=
  if h : key x ∈ t.keys then t
  else ⟨t.rows ++ [x], by
    rw [List.map_append]
    refine t.nodup.append (by simp) ?_
    intro k hk hx
    obtain rfl : k = key x := by simpa using hx
    exact h hk⟩

def upsertAll (t : KeyedTable key) (xs : List α) : KeyedTable key := xs.foldl upsert t

def insertAll (t : KeyedTable key) (xs : List α) : KeyedTable key := xs.foldl insertNew t

/-- The last row of a list that has a given key: the one that survives `upsertAll`. -/
def lastRow (key : α → κ) (xs : List α) (k : κ) : Option α :=
  xs.reverse.find? fun x => key x = k

theorem lookup_eq_some_iff {t : KeyedTable key} {k : κ} {x : α} :
    t.lookup k = some x ↔ x ∈ t.rows ∧ key x = k := by
  constructor
  · intro h
    exact ⟨List.mem_of_find?_eq_some h, of_decide_eq_true (List.find?_some h :)⟩
  · rintro ⟨hx, rfl⟩
    cases h : t.lookup (key x) with
    | none =>
      have hno := List.find?_eq_none.mp h x hx
      simp at hno
    | some y =>
      have hy := List.mem_of_find?_eq_some h
      have hkey : key y = key x := of_decide_eq_true (List.find?_some h :)
      rw [eq_of_key_eq hy hx hkey]

theorem key_of_lookup {t : KeyedTable key} {k : κ} {x : α} (h : t.lookup k = some x) :
    key x = k :=
  (lookup_eq_some_iff.mp h).2

theorem mem_keys_iff {t : KeyedTable key} {k : κ} : k ∈ t.keys ↔ ∃ x, t.lookup k = some x := by
  simp only [lookup_eq_some_iff, keys, List.mem_map]

theorem lookup_eq_none_iff {t : KeyedTable key} {k : κ} : t.lookup k = none ↔ k ∉ t.keys := by
  rw [mem_keys_iff]
  cases t.lookup k <;> simp

@[simp] theorem lookup_empty (k : κ) : (empty : KeyedTable key).lookup k = none := rfl

theorem mem_upsert {t : KeyedTable key} {x y : α} :
    y ∈ (t.upsert x).rows ↔ (y ∈ t.rows ∧ key y ≠ key x) ∨ y = x := by
  unfold upsert
  rw [List.mem_append, List.mem_filter, List.mem_singleton, decide_eq_true_iff]

theorem lookup_upsert (t : KeyedTable key) (x : α) (k : κ) :
    (t.upsert x).lookup k = if key x = k then some x else t.lookup k := by
  apply Option.ext
  intro y
  rw [lookup_eq_some_iff, mem_upsert]
  split
  · rename_i hk
    subst hk
    constructor
    · rintro ⟨⟨-, hne⟩ | rfl, hy⟩
      · exact absurd hy hne
      · rfl
    · intro h
      obtain rfl : x = y := Option.some.inj h
      exact ⟨.inr rfl, rfl⟩
  · rename_i hk
    rw [lookup_eq_some_iff]
    constructor
    · rintro ⟨⟨hy, -⟩ | rfl, hkey⟩
      · exact ⟨hy, hkey⟩
      · exact absurd hkey hk
    · rintro ⟨hy, hkey⟩
      exact ⟨.inl ⟨hy, fun h => hk (h.symm.trans hkey)⟩, hkey⟩

theorem lastRow_cons (x : α) (xs : List α) (k : κ) :
    lastRow key (x :: xs) k = (lastRow key xs k).or (if key x = k then some x else none) := by
  unfold lastRow
  rw [List.reverse_cons, List.find?_append]
  by_cases hk : key x = k <;> simp [hk]

/-- After a list of overwrites a key holds the last row of the list with that key, or what
it held before. -/
theorem lookup_upsertAll (xs : List α) (t : KeyedTable key) (k : κ) :
    (t.upsertAll xs).lookup k = (lastRow key xs k).or (t.lookup k) := by
  induction xs generalizing t with
  | nil => simp [upsertAll, lastRow]
  | cons x xs ih =>
    have hstep : t.upsertAll (x :: xs) = (t.upsert x).upsertAll xs := rfl
    rw [hstep, ih, lookup_upsert, lastRow_cons, Option.or_assoc]
    by_cases hk : key x = k <;> simp [hk]

theorem mem_of_lastRow {xs : List α} {k : κ} {x : α} (h : lastRow key xs k = some x) :
    x ∈ xs ∧ key x = k :=
  ⟨List.mem_reverse.mp (List.mem_of_find?_eq_some h), of_decide_eq_true (List.find?_some h :)⟩

theorem lastRow_eq_none_iff {xs : List α} {k : κ} :
    lastRow key xs k = none ↔ ∀ x ∈ xs, key x ≠ k := by
  simp [lastRow, List.find?_eq_none]

theorem exists_lastRow {xs : List α} {x : α} (hx : x ∈ xs) :
    ∃ y, lastRow key xs (key x) = some y := by
  cases h : lastRow key xs (key x) with
  | none => exact absurd rfl (lastRow_eq_none_iff.mp h x hx)
  | some y => exact ⟨y, rfl⟩

/-- Overwriting nothing by rows with distinct keys keeps them all. -/
theorem rows_upsertAll_empty {xs : List α} (h : (xs.map key).Nodup) :
    ((empty : KeyedTable key).upsertAll xs).rows.Perm xs := by
  apply (List.perm_ext_iff_of_nodup (List.Nodup.of_map key (KeyedTable.nodup _))
    (List.Nodup.of_map key h)).mpr
  intro x
  have hlookup : x ∈ ((empty : KeyedTable key).upsertAll xs).rows ↔
      lastRow key xs (key x) = some x := by
    rw [← Option.or_none (o := lastRow key xs (key x)), ← lookup_empty (key x),
      ← lookup_upsertAll, lookup_eq_some_iff]
    exact ⟨fun hx => ⟨hx, rfl⟩, fun hx => hx.1⟩
  rw [hlookup]
  constructor
  · intro hlast
    exact (mem_of_lastRow hlast).1
  · intro hx
    obtain ⟨y, hy⟩ := @exists_lastRow _ _ key _ xs x hx
    obtain ⟨hmem, hkey⟩ := mem_of_lastRow hy
    rw [hy, List.inj_on_of_nodup_map h hmem hx hkey]

theorem lastRow_append (xs ys : List α) (k : κ) :
    lastRow key (xs ++ ys) k = (lastRow key ys k).or (lastRow key xs k) := by
  unfold lastRow
  rw [List.reverse_append, List.find?_append]

/-- The last row of a key is the last one too among the rows of its kind. -/
theorem lastRow_filter {xs : List α} {k : κ} {x : α} {p : α → Bool}
    (h : lastRow key xs k = some x) (hp : p x = true) :
    lastRow key (xs.filter p) k = some x := by
  induction xs with
  | nil => simp [lastRow] at h
  | cons y ys ih =>
    rw [lastRow_cons] at h
    cases hys : lastRow key ys k with
    | some z =>
      obtain rfl : z = x := by simpa [hys] using h
      by_cases hy : p y = true
      · rw [List.filter_cons_of_pos hy, lastRow_cons, ih hys]
        rfl
      · rw [List.filter_cons_of_neg hy]
        exact ih hys
    | none =>
      have hkept : lastRow key (ys.filter p) k = none := by
        apply lastRow_eq_none_iff.mpr
        intro z hz
        exact lastRow_eq_none_iff.mp hys z (List.mem_filter.mp hz).1
      obtain ⟨hkey, rfl⟩ : key y = k ∧ y = x := by simpa [hys] using h
      rw [List.filter_cons_of_pos hp, lastRow_cons, hkept]
      simp [hkey]

/-- Looking up a list of keys gives at most one row for each. -/
theorem lastRow_filterMap_lookup (t : KeyedTable key) (ks : List κ) (k : κ) :
    lastRow key (ks.filterMap t.lookup) k = if k ∈ ks then t.lookup k else none := by
  cases hlast : lastRow key (ks.filterMap t.lookup) k with
  | some x =>
    obtain ⟨hx, hkey⟩ := mem_of_lastRow hlast
    obtain ⟨j, hj, hlookup⟩ := List.mem_filterMap.mp hx
    obtain rfl : j = k := (key_of_lookup hlookup).symm.trans hkey
    rw [if_pos hj, hlookup]
  | none =>
    split
    · rename_i hk
      cases hlookup : t.lookup k with
      | none => rfl
      | some x =>
        have hx : x ∈ ks.filterMap t.lookup := List.mem_filterMap.mpr ⟨k, hk, hlookup⟩
        exact absurd (key_of_lookup hlookup) (lastRow_eq_none_iff.mp hlast x hx)
    · rfl

/-- Items made from some rows and labelled with their keys: the item found for a row is the
one made from it. -/
theorem find?_filterMap {γ δ : Type*} {t : KeyedTable key} {f : α → Option γ} {g : γ → δ}
    {label : δ → κ} (hlabel : ∀ x c, f x = some c → label (g c) = key x) {x : α}
    (hx : x ∈ t.rows) :
    ((t.rows.filterMap f).map g).find? (fun d => label d = key x) = (f x).map g := by
  cases hfind : ((t.rows.filterMap f).map g).find? (fun d => label d = key x) with
  | some d =>
    obtain ⟨c, hc, rfl⟩ := List.mem_map.mp (List.mem_of_find?_eq_some hfind)
    obtain ⟨y, hy, hfy⟩ := List.mem_filterMap.mp hc
    have hkey : label (g c) = key x := of_decide_eq_true (List.find?_some hfind :)
    obtain rfl := eq_of_key_eq hy hx ((hlabel y c hfy).symm.trans hkey)
    rw [hfy]
    rfl
  | none =>
    cases hfx : f x with
    | none => rfl
    | some c =>
      have hmem : g c ∈ (t.rows.filterMap f).map g :=
        List.mem_map_of_mem (List.mem_filterMap.mpr ⟨x, hx, hfx⟩)
      exact absurd (hlabel x c hfx) (by simpa using List.find?_eq_none.mp hfind _ hmem)

theorem lookup_deleteWhere (t : KeyedTable key) (p : α → Bool) (k : κ) :
    (t.deleteWhere p).lookup k = (t.lookup k).filter fun x => !p x := by
  cases h : t.lookup k with
  | none =>
    apply lookup_eq_none_iff.mpr
    intro hk
    obtain ⟨x, hx⟩ := mem_keys_iff.mp hk
    obtain ⟨hmem, hkey⟩ := lookup_eq_some_iff.mp hx
    have hthere := lookup_eq_some_iff.mpr ⟨(List.mem_filter.mp hmem).1, hkey⟩
    simp [h] at hthere
  | some x =>
    obtain ⟨hmem, hkey⟩ := lookup_eq_some_iff.mp h
    by_cases hp : p x = true
    · rw [Option.filter_some_neg (by simp [hp])]
      apply lookup_eq_none_iff.mpr
      intro hk
      obtain ⟨y, hy⟩ := mem_keys_iff.mp hk
      obtain ⟨hymem, hykey⟩ := lookup_eq_some_iff.mp hy
      obtain ⟨hyrows, hyp⟩ := List.mem_filter.mp hymem
      obtain rfl := eq_of_key_eq hmem hyrows (hkey.trans hykey.symm)
      simp [hp] at hyp
    · rw [Option.filter_some_pos (by simpa using hp)]
      exact lookup_eq_some_iff.mpr ⟨List.mem_filter.mpr ⟨hmem, by simpa using hp⟩, hkey⟩

theorem lookup_update (t : KeyedTable key) (f : α → α) (hf : ∀ x, key (f x) = key x) (k : κ) :
    (t.update f hf).lookup k = (t.lookup k).map f := by
  unfold lookup update
  rw [List.find?_map]
  simp only [Function.comp_def, hf]

theorem filterMap_rows {γ : Type*} (t : KeyedTable key) (f : α → Option γ) :
    t.rows.filterMap f = t.keys.filterMap fun k => (t.lookup k).bind f := by
  unfold keys
  rw [List.filterMap_map]
  apply List.filterMap_congr
  intro x hx
  have hlookup : t.lookup (key x) = some x := lookup_eq_some_iff.mpr ⟨hx, rfl⟩
  rw [Function.comp_apply, hlookup, Option.bind_some]

/-- Two tables that agree on the columns `c`: what is read from these columns, row by row, is
the same in some order. -/
theorem filterMap_perm {γ δ : Type*} {t s : KeyedTable key} {c : α → δ} {f g : α → Option γ}
    (h : ∀ k, (t.lookup k).map c = (s.lookup k).map c) (hread : ∀ x y, c x = c y → f x = g y) :
    (t.rows.filterMap f).Perm (s.rows.filterMap g) := by
  have hkeys : t.keys.Perm s.keys := by
    apply (List.perm_ext_iff_of_nodup t.nodup s.nodup).mpr
    intro k
    have hk := congrArg Option.isSome (h k)
    rw [Option.isSome_map, Option.isSome_map] at hk
    change k ∈ t.keys ↔ k ∈ s.keys
    rw [mem_keys_iff, mem_keys_iff, ← Option.isSome_iff_exists, ← Option.isSome_iff_exists, hk]
  have hrow : ∀ k, (t.lookup k).bind f = (s.lookup k).bind g := by
    intro k
    have hk := h k
    cases ht : t.lookup k with
    | none =>
      cases hs : s.lookup k with
      | none => rfl
      | some y => simp [ht, hs] at hk
    | some x =>
      cases hs : s.lookup k with
      | none => simp [ht, hs] at hk
      | some y =>
        rw [ht, hs] at hk
        exact hread x y (Option.some.inj hk)
  rw [filterMap_rows t, filterMap_rows s, funext hrow]
  exact hkeys.filterMap _

/-- Tables with the same rows in some order are the ones that hold the same. -/
theorem rows_perm_iff {t s : KeyedTable key} :
    t.rows.Perm s.rows ↔ ∀ k, t.lookup k = s.lookup k := by
  constructor
  · intro h k
    apply Option.ext
    intro x
    rw [lookup_eq_some_iff, lookup_eq_some_iff, h.mem_iff]
  · intro h
    have hmap : ∀ k, (t.lookup k).map id = (s.lookup k).map id := by
      intro k
      rw [h k]
    have hperm := filterMap_perm (f := some) (g := some) hmap fun x y hxy => congrArg some hxy
    rwa [List.filterMap_some, List.filterMap_some] at hperm

theorem mem_keys_upsertAll {t : KeyedTable key} {xs : List α} {k : κ} :
    k ∈ (t.upsertAll xs).keys ↔ (∃ x ∈ xs, key x = k) ∨ k ∈ t.keys := by
  rw [mem_keys_iff, mem_keys_iff]
  simp only [lookup_upsertAll]
  cases h : lastRow key xs k with
  | some x =>
    obtain ⟨hx, hkey⟩ := mem_of_lastRow h
    exact iff_of_true ⟨x, rfl⟩ (.inl ⟨x, hx, hkey⟩)
  | none =>
    rw [Option.none_or, or_iff_right]
    rintro ⟨x, hx, hkey⟩
    exact lastRow_eq_none_iff.mp h x hx hkey

/-- Overwriting adds no row exactly when every key was there. -/
theorem size_upsertAll_eq_iff {t : KeyedTable key} {xs : List α} :
    (t.upsertAll xs).size = t.size ↔ ∀ x ∈ xs, key x ∈ t.keys := by
  constructor
  · intro hsize x hx
    have hsub : t.keys ⊆ (t.upsertAll xs).keys := fun k hk => mem_keys_upsertAll.mpr (.inr hk)
    have hperm : t.keys.Perm (t.upsertAll xs).keys := by
      apply (List.subperm_of_subset t.nodup hsub).perm_of_length_le
      simp only [keys, List.length_map]
      exact Nat.le_of_eq hsize
    exact hperm.mem_iff.mpr (mem_keys_upsertAll.mpr (.inl ⟨x, hx, rfl⟩))
  · intro hknown
    apply size_eq_of_keys
    intro k
    rw [mem_keys_upsertAll]
    constructor
    · rintro (⟨x, hx, rfl⟩ | hk)
      · exact hknown x hx
      · exact hk
    · exact .inr

/-! ## Partial copies -/

/-- Every row of `c` is the row of its key in `t`. -/
def Within (c t : KeyedTable key) : Prop := ∀ k x, c.lookup k = some x → t.lookup k = some x

namespace Within
variable {c t : KeyedTable key}

theorem empty (t : KeyedTable key) : Within (KeyedTable.empty : KeyedTable key) t :=
  fun _ _ h => by simp at h

/-- The same keys are overwritten on both sides: each of them has to end with the same row. -/
theorem upsertAll_iff {xs ys : List α} (h : Within c t)
    (hkeys : ∀ k, lastRow key xs k = none ↔ lastRow key ys k = none) :
    Within (c.upsertAll xs) (t.upsertAll ys) ↔ ∀ k, lastRow key ys k = lastRow key xs k := by
  constructor
  · intro hw k
    cases hx : lastRow key xs k with
    | none => exact (hkeys k).mp hx
    | some x =>
      have hrow : (t.upsertAll ys).lookup k = some x := by
        apply hw
        rw [lookup_upsertAll, hx]
        rfl
      rw [lookup_upsertAll] at hrow
      cases hy : lastRow key ys k with
      | none => simp [(hkeys k).mpr hy] at hx
      | some y => simpa [hy] using hrow
  · intro hlast k x hx
    rw [lookup_upsertAll] at hx ⊢
    rw [hlast k]
    cases hrow : lastRow key xs k with
    | none =>
      rw [hrow, Option.none_or] at hx
      exact h k x hx
    | some y =>
      rw [hrow] at hx
      exact hx

/-- Only the table is overwritten: a key of the copy has to get the row it has. -/
theorem upsertAll_right_iff {ys : List α} (h : Within c t) :
    Within c (t.upsertAll ys) ↔
      ∀ k x y, c.lookup k = some x → lastRow key ys k = some y → x = y := by
  constructor
  · intro hw k x y hx hy
    have hrow := hw k x hx
    rw [lookup_upsertAll, hy] at hrow
    exact (Option.some.inj hrow).symm
  · intro hsame k x hx
    rw [lookup_upsertAll]
    cases hy : lastRow key ys k with
    | none => exact h k x hx
    | some y => rw [hsame k x y hx hy]; rfl

/-- Rows read from the table may always be copied. -/
theorem upsertAll_left {xs : List α} (h : Within c t)
    (hxs : ∀ x ∈ xs, t.lookup (key x) = some x) : Within (c.upsertAll xs) t := by
  intro k x hx
  rw [lookup_upsertAll] at hx
  cases hrow : lastRow key xs k with
  | none =>
    rw [hrow, Option.none_or] at hx
    exact h k x hx
  | some y =>
    obtain rfl : y = x := by simpa [hrow] using hx
    obtain ⟨hy, rfl⟩ := mem_of_lastRow hrow
    exact hxs y hy

theorem deleteWhere {p : α → Bool} (h : Within c t) :
    Within (c.deleteWhere p) (t.deleteWhere p) := by
  intro k x hx
  rw [lookup_deleteWhere] at hx ⊢
  obtain ⟨hx, hp⟩ := Option.filter_eq_some_iff.mp hx
  exact Option.filter_eq_some_iff.mpr ⟨h k x hx, hp⟩

end Within

end KeyedTable
