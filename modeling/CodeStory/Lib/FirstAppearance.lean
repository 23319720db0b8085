import Mathlib.Data.List.Induction
import Mathlib.Data.List.Nodup

/-!
# Merging by key

Elements arrive one after another. The first with a key takes a place at the end of a list, and
every later one with that key is absorbed by it. What stands in the list is, for each key in the
order of first appearance, the fold of all its elements, so batches do not matter.
-/

set_option autoImplicit false

namespace FirstAppearance

universe u v

variable {α : Type u} {κ : Type v} [DecidableEq κ] (key : α → κ) (absorb : α → α → α)

def mergeOne (a : α) : List α → List α
  | [] => [a]
  | existing :: rest =>
    if key existing = key a then absorb existing a :: rest else existing :: mergeOne a rest

def mergeAll (acc incoming : List α) : List α :=
  incoming.foldl (fun acc a => mergeOne key absorb a acc) acc

/-- The different keys in the order in which they first appear. -/
def firsts (keys : List κ) : List κ := keys.eraseDups

/-- The fold of all elements with a key, if there are any. -/
def gathered (arrived : List α) (k : κ) : Option α :=
  match arrived.filter (key · = k) with
  | [] => none
  | first :: later => some (later.foldl absorb first)

variable {key absorb} {a : α} {acc arrived : List α}

theorem mergeOne_new (h : ∀ e ∈ acc, key e ≠ key a) : mergeOne key absorb a acc = acc ++ [a] := by
  induction acc with
  | nil => rfl
  | cons e acc ih =>
    unfold mergeOne
    rw [if_neg (h e List.mem_cons_self), ih fun e' he' => h e' (List.mem_cons_of_mem _ he')]
    rfl

variable (key absorb) in
theorem mergeOne_known (h : ∃ e ∈ acc, key e = key a) :
    ∃ front existing back, acc = front ++ existing :: back ∧ key existing = key a ∧
      (∀ e ∈ front, key e ≠ key a) ∧
      mergeOne key absorb a acc = front ++ absorb existing a :: back := by
  induction acc with
  | nil =>
    obtain ⟨e, he, -⟩ := h
    exact absurd he List.not_mem_nil
  | cons e acc ih =>
    by_cases hkey : key e = key a
    · refine ⟨[], e, acc, rfl, hkey, fun _ h => absurd h List.not_mem_nil, ?_⟩
      unfold mergeOne
      rw [if_pos hkey]
      rfl
    · have hrest : ∃ e ∈ acc, key e = key a := by
        obtain ⟨e', he', hkey'⟩ := h
        rcases List.mem_cons.mp he' with rfl | he'
        · exact absurd hkey' hkey
        · exact ⟨e', he', hkey'⟩
      obtain ⟨front, existing, back, rfl, hexisting, hfront, heq⟩ := ih hrest
      refine ⟨e :: front, existing, back, rfl, hexisting, ?_, ?_⟩
      · intro e' he'
        rcases List.mem_cons.mp he' with rfl | he'
        · exact hkey
        · exact hfront e' he'
      · unfold mergeOne
        rw [if_neg hkey, heq]
        rfl

variable (key absorb) in
/-- The length tells whether a key was new. -/
theorem length_mergeOne (a : α) (acc : List α) :
    (mergeOne key absorb a acc).length =
      acc.length + if ∃ e ∈ acc, key e = key a then 0 else 1 := by
  by_cases h : ∃ e ∈ acc, key e = key a
  · obtain ⟨front, existing, back, rfl, -, -, heq⟩ := mergeOne_known key absorb h
    rw [heq, if_pos h, List.length_append, List.length_append]
    rfl
  · have hnew : ∀ e ∈ acc, key e ≠ key a := fun e he hkey => h ⟨e, he, hkey⟩
    rw [mergeOne_new hnew, if_neg h, List.length_append]
    rfl

theorem mergeAll_append (acc first second : List α) :
    mergeAll key absorb acc (first ++ second) =
      mergeAll key absorb (mergeAll key absorb acc first) second :=
  List.foldl_append

theorem gathered_concat_same (a : α) :
    gathered key absorb (arrived ++ [a]) (key a) =
      some (((gathered key absorb arrived (key a)).map (absorb · a)).getD a) := by
  unfold gathered
  have hone : [a].filter (key · = key a) = [a] := List.filter_cons_of_pos (decide_eq_true rfl)
  rw [List.filter_append, hone]
  cases arrived.filter (key · = key a) with
  | nil => rfl
  | cons first later =>
    rw [List.cons_append]
    dsimp only
    rw [List.foldl_append]
    rfl

theorem gathered_concat_other {k : κ} (h : key a ≠ k) :
    gathered key absorb (arrived ++ [a]) k = gathered key absorb arrived k := by
  unfold gathered
  have hnone : [a].filter (key · = k) = [] :=
    List.filter_cons_of_neg fun hk => h (of_decide_eq_true hk)
  rw [List.filter_append, hnone, List.append_nil]

theorem gathered_isSome {k : κ} :
    (gathered key absorb arrived k).isSome ↔ k ∈ arrived.map key := by
  unfold gathered
  rw [List.mem_map]
  constructor
  · intro h
    split at h
    · exact absurd h Bool.false_ne_true
    · rename_i first later heq
      have hmem : first ∈ arrived.filter (key · = k) := by
        rw [heq]
        exact List.mem_cons_self
      exact ⟨first, (List.mem_filter.mp hmem).1, of_decide_eq_true (List.mem_filter.mp hmem).2⟩
  · rintro ⟨e, he, hkey⟩
    have hmem : e ∈ arrived.filter (key · = k) :=
      List.mem_filter.mpr ⟨he, decide_eq_true hkey⟩
    split
    · rename_i hnil
      rw [hnil] at hmem
      exact absurd hmem List.not_mem_nil
    · rfl

/-- What a list of merged elements holds of the elements that have arrived. -/
structure Merged (key : α → κ) (absorb : α → α → α) (arrived acc : List α) : Prop where
  keys : acc.map key = firsts (arrived.map key)
  entries : ∀ e ∈ acc, gathered key absorb arrived (key e) = some e

theorem mem_firsts {l : List κ} {k : κ} : k ∈ firsts l ↔ k ∈ l := List.mem_eraseDups

theorem firsts_concat (l : List κ) (k : κ) :
    firsts (l ++ [k]) = if k ∈ l then firsts l else firsts l ++ [k] := by
  unfold firsts
  rw [List.eraseDups_append]
  by_cases h : k ∈ l
  · have hnone : List.removeAll [k] l = [] := by
      unfold List.removeAll
      exact List.filter_cons_of_neg (by rw [List.elem_eq_true_of_mem h]; exact Bool.false_ne_true)
    rw [hnone, if_pos h, List.eraseDups_nil, List.append_nil]
  · have hone : List.removeAll [k] l = [k] := by
      unfold List.removeAll
      apply List.filter_cons_of_pos
      rw [Bool.not_eq_true']
      exact Bool.eq_false_iff.mpr fun hin => h (List.mem_of_elem_eq_true hin)
    rw [hone, if_neg h]
    rfl

theorem nodup_firsts (l : List κ) : (firsts l).Nodup := by
  induction l using List.reverseRecOn with
  | nil => exact List.nodup_nil
  | append_singleton l k ih =>
    rw [firsts_concat]
    split
    · exact ih
    · rename_i h
      rw [← List.concat_eq_append]
      apply List.Nodup.concat
      · rw [mem_firsts]
        exact h
      · exact ih

variable (habsorb : ∀ e a, key e = key a → key (absorb e a) = key e)
include habsorb

theorem Merged.step (h : Merged key absorb arrived acc) (a : α) :
    Merged key absorb (arrived ++ [a]) (mergeOne key absorb a acc) := by
  have hmem : key a ∈ arrived.map key ↔ ∃ e ∈ acc, key e = key a := by
    rw [← List.mem_map, h.keys, mem_firsts]
  by_cases hknown : ∃ e ∈ acc, key e = key a
  · obtain ⟨front, existing, back, hacc, hexisting, hfront, heq⟩ :=
      mergeOne_known key absorb hknown
    have hsame : key (absorb existing a) = key existing := habsorb existing a hexisting
    have hnodup : (acc.map key).Nodup := by
      rw [h.keys]
      exact nodup_firsts _
    constructor
    · rw [List.map_append, List.map_singleton, firsts_concat, if_pos (hmem.mpr hknown), heq,
        ← h.keys, hacc, List.map_append, List.map_append, List.map_cons, List.map_cons, hsame]
    · intro e he
      rw [heq] at he
      rw [hacc, List.map_append, List.map_cons] at hnodup
      have hback : key existing ∉ back.map key :=
        (List.nodup_cons.mp (List.nodup_append.mp hnodup).2.1).1
      have hother : ∀ e' ∈ acc, key e' ≠ key a →
          gathered key absorb (arrived ++ [a]) (key e') = some e' := fun e' he' hne => by
        rw [gathered_concat_other fun hk => hne hk.symm]
        exact h.entries e' he'
      rcases List.mem_append.mp he with hin | hin
      · exact hother e (hacc ▸ List.mem_append_left _ hin) (hfront e hin)
      · rcases List.mem_cons.mp hin with rfl | hin
        · have hgathered := h.entries existing (hacc ▸ List.mem_append_right _ List.mem_cons_self)
          rw [hsame, hexisting, gathered_concat_same, ← hexisting, hgathered]
          rfl
        · apply hother e (hacc ▸ List.mem_append_right _ (List.mem_cons_of_mem _ hin))
          intro hk
          exact hback (List.mem_map.mpr ⟨e, hin, hk.trans hexisting.symm⟩)
  · have hnew : ∀ e ∈ acc, key e ≠ key a := fun e he hkey => hknown ⟨e, he, hkey⟩
    have hnot : key a ∉ arrived.map key := fun hin => hknown (hmem.mp hin)
    rw [mergeOne_new hnew]
    constructor
    · rw [List.map_append, List.map_append, List.map_singleton, firsts_concat, if_neg hnot,
        h.keys]
    · intro e he
      rcases List.mem_append.mp he with hin | hin
      · rw [gathered_concat_other fun hk => hnew e hin hk.symm]
        exact h.entries e hin
      · obtain rfl := List.mem_singleton.mp hin
        have hnone : gathered key absorb arrived (key e) = none :=
          Option.not_isSome_iff_eq_none.mp fun hsome => hnot (gathered_isSome.mp hsome)
        rw [gathered_concat_same, hnone]
        rfl

variable (key absorb) in
theorem mergeAll_merged (arrived : List α) :
    Merged key absorb arrived (mergeAll key absorb [] arrived) := by
  induction arrived using List.reverseRecOn with
  | nil => exact ⟨rfl, fun e he => absurd he List.not_mem_nil⟩
  | append_singleton arrived a ih =>
    rw [mergeAll_append]
    exact ih.step habsorb a

end FirstAppearance
