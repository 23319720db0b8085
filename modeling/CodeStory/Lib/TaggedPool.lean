import CodeStory.Lib.Selection
import Mathlib.Data.Finset.Card
import Mathlib.Data.Finset.Insert
import Mathlib.Data.Finset.Option
import Mathlib.Data.List.Perm.Subperm

/-!
# Pools with few tags

A pool is a list whose elements may carry a tag, and a limit bounds the number of different tags in
it. An element is let in when its tag is there already or there is room for one more. Replacing an
element frees its tag only when no other element carries it, so whether the newcomer fits is asked
of the pool without the element it replaces.
-/

set_option autoImplicit false

namespace TaggedPool

universe u v

variable {α : Type u} {τ : Type v} [DecidableEq τ] (tag : α → Option τ)

def tags (pool : List α) : Finset τ := (pool.filterMap tag).toFinset

/-- Room for a tag, if there is one, among the tags in use. -/
def Fits (used : Finset τ) (limit : Nat) (candidate : Option τ) : Prop :=
  ∀ t ∈ candidate, t ∈ used ∨ used.card < limit

instance (used : Finset τ) (limit : Nat) (candidate : Option τ) :
    Decidable (Fits used limit candidate) :=
  match candidate with
  | none => isTrue fun _ h => absurd h (Option.not_mem_none _)
  | some t => decidable_of_iff (t ∈ used ∨ used.card < limit)
      ⟨fun h _ ht => Option.some.inj ht ▸ h, fun h => h t rfl⟩

variable {tag} {pool : List α} {a : α} {i limit : Nat}

/-! ## Tags after one change -/

theorem mem_tags {t : τ} : t ∈ tags tag pool ↔ ∃ x ∈ pool, tag x = some t := by
  unfold tags
  rw [List.mem_toFinset, List.mem_filterMap]

theorem tags_congr {pool' : List α} (h : pool.Perm pool') : tags tag pool = tags tag pool' := by
  ext t
  rw [mem_tags, mem_tags]
  exact exists_congr fun x => and_congr_left' h.mem_iff

theorem tags_cons : tags tag (a :: pool) = (tag a).toFinset ∪ tags tag pool := by
  ext t
  rw [Finset.mem_union, mem_tags, mem_tags, Option.mem_toFinset, List.exists_mem_cons_iff]
  exact or_congr Iff.rfl Iff.rfl

theorem tags_concat : tags tag (pool ++ [a]) = (tag a).toFinset ∪ tags tag pool := by
  rw [tags_congr (List.perm_append_singleton a pool), tags_cons]

theorem tags_mono {pool' : List α} (h : pool ⊆ pool') : tags tag pool ⊆ tags tag pool' := by
  intro t ht
  obtain ⟨x, hx, hxt⟩ := mem_tags.mp ht
  exact mem_tags.mpr ⟨x, h hx, hxt⟩

theorem perm_set_eraseIdx (h : i < pool.length) :
    (pool.set i a).Perm (a :: pool.eraseIdx i) := by
  have hnew : i < (pool.set i a).length := by rw [List.length_set]; exact h
  have herase : (pool.set i a).eraseIdx i = pool.eraseIdx i := List.eraseIdx_set_eq
  have hget : (pool.set i a)[i] = a := List.getElem_set_self hnew
  have hperm := List.getElem_cons_eraseIdx_perm hnew
  rw [herase, hget] at hperm
  exact hperm.symm

theorem tags_set (h : i < pool.length) :
    tags tag (pool.set i a) = (tag a).toFinset ∪ tags tag (pool.eraseIdx i) := by
  rw [tags_congr (perm_set_eraseIdx h), tags_cons]

/-! ## The limit -/

theorem card_union_le {used : Finset τ} {candidate : Option τ} (hused : used.card ≤ limit)
    (hfits : Fits used limit candidate) : (candidate.toFinset ∪ used).card ≤ limit := by
  cases candidate with
  | none =>
    rw [Option.toFinset_none, Finset.empty_union]
    exact hused
  | some t =>
    rw [Option.toFinset_some, ← Finset.insert_eq]
    rcases hfits t rfl with hmem | hroom
    · rw [Finset.insert_eq_of_mem hmem]
      exact hused
    · have := Finset.card_insert_le t used
      omega

theorem lt_card_union {used : Finset τ} {candidate : Option τ}
    (hfits : ¬ Fits used limit candidate) : limit < (candidate.toFinset ∪ used).card := by
  cases candidate with
  | none => exact absurd (fun t ht => absurd ht (Option.not_mem_none t)) hfits
  | some t =>
    have hneither : t ∉ used ∧ limit ≤ used.card := by
      by_contra hcon
      apply hfits
      rintro s ⟨⟩
      by_cases hmem : t ∈ used
      · exact .inl hmem
      · exact .inr (by_contra fun hroom => hcon ⟨hmem, by omega⟩)
    rw [Option.toFinset_some, ← Finset.insert_eq, Finset.card_insert_of_notMem hneither.1]
    omega

/-- An element that fits may be added. -/
theorem card_tags_concat_le (hpool : (tags tag pool).card ≤ limit)
    (hfits : Fits (tags tag pool) limit (tag a)) : (tags tag (pool ++ [a])).card ≤ limit := by
  rw [tags_concat]
  exact card_union_le hpool hfits

/-- A replacement keeps to the limit exactly when the newcomer fits in what is left. -/
theorem card_tags_set_le_iff (hpool : (tags tag pool).card ≤ limit) (h : i < pool.length) :
    (tags tag (pool.set i a)).card ≤ limit ↔ Fits (tags tag (pool.eraseIdx i)) limit (tag a) := by
  rw [tags_set h]
  constructor
  · intro hcard
    by_contra hfits
    have := lt_card_union hfits
    omega
  · apply card_union_le
    calc (tags tag (pool.eraseIdx i)).card
        ≤ (tags tag pool).card :=
          Finset.card_le_card (tags_mono (List.eraseIdx_sublist pool i).subset)
      _ ≤ limit := hpool

/-! ## What is drawn from a supply -/

/-- The pool and a reserve hold no more than what has arrived. -/
def Drawn (pool reserve arrived : List α) : Prop := (pool ++ reserve).Subperm arrived

namespace Drawn

variable {reserve arrived : List α}

theorem nil : Drawn ([] : List α) [] [] := List.Subperm.refl []

theorem push (h : Drawn pool reserve arrived) (a : α) :
    Drawn (pool ++ [a]) reserve (arrived ++ [a]) := by
  have hperm : (pool ++ [a] ++ reserve).Perm (pool ++ reserve ++ [a]) := by
    rw [List.append_assoc, List.append_assoc]
    exact List.perm_append_comm.append_left pool
  exact hperm.subperm.trans ((List.subperm_append_right [a]).mpr h)

theorem defer (h : Drawn pool reserve arrived) (a : α) :
    Drawn pool (reserve ++ [a]) (arrived ++ [a]) := by
  unfold Drawn
  rw [← List.append_assoc]
  exact (List.subperm_append_right [a]).mpr h

theorem skip (h : Drawn pool reserve arrived) (a : α) : Drawn pool reserve (arrived ++ [a]) :=
  h.trans (List.sublist_append_left arrived [a]).subperm

theorem replace (h : Drawn pool reserve arrived) {old : α} (hold : pool[i]? = some old) (a : α) :
    Drawn (pool.set i a) reserve (arrived ++ [a]) := by
  have hperm : (old :: pool.set i a).Perm (a :: pool) := Selection.perm_set a hold
  have hsub : (pool.set i a ++ reserve).Subperm (a :: (pool ++ reserve)) :=
    (List.sublist_cons_self old _).subperm.trans (hperm.append_right reserve).subperm
  have harrived : (a :: (pool ++ reserve)).Subperm (a :: arrived) := (List.subperm_cons a).mpr h
  have hlast : (a :: arrived).Perm (arrived ++ [a]) :=
    (List.perm_append_singleton a arrived).symm
  exact (hsub.trans harrived).trans hlast.subperm

end Drawn

end TaggedPool
