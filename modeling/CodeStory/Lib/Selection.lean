import Mathlib.Data.List.Sort
import Mathlib.Data.List.Destutter

/-!
# Greatest elements and bounded buffers

`maxBy` is the greatest element of a list under a comparison, the last of several equal ones.
`offer` hands an element to a buffer of bounded size that gives up its greatest element when it
is full; what a run of it keeps is the front of the sorted input, whatever the order of arrival.
A stable sort by a rank puts the low ranks before the high ones and leaves equal ranks in order.
-/

set_option autoImplicit false

namespace Selection

universe u
variable {α : Type u}

/-- Where at most one element passes, the order does not matter to who passes. -/
theorem filter_eq_of_perm {p : α → Bool} {l l' : List α} (hperm : l.Perm l')
    (hunique : ∀ a ∈ l, ∀ b ∈ l, p a = true → p b = true → a = b) : l.filter p = l'.filter p := by
  have hall : ∀ l : List α, l.Pairwise fun _ _ => True :=
    fun l => List.pairwise_of_forall fun _ _ => trivial
  refine List.Perm.eq_of_pairwise ?_ (hall _) (hall _) (hperm.filter p)
  intro a b ha hb _ _
  obtain ⟨ha, hpa⟩ := List.mem_filter.mp ha
  obtain ⟨hb, hpb⟩ := List.mem_filter.mp hb
  exact hunique a ha b (hperm.mem_iff.mpr hb) hpa hpb

theorem find?_eq_of_perm {p : α → Bool} {l l' : List α} (hperm : l.Perm l')
    (hunique : ∀ a ∈ l, ∀ b ∈ l, p a = true → p b = true → a = b) : l.find? p = l'.find? p := by
  rw [← List.head?_filter, ← List.head?_filter, filter_eq_of_perm hperm hunique]

/-- Elements that are picked out key by key are all there, once each. -/
theorem flatMap_filter_perm {κ : Type*} [DecidableEq κ] (key : α → κ) {keys : List κ}
    (hnodup : keys.Nodup) :
    ∀ l : List α, (∀ a ∈ l, key a ∈ keys) →
      (keys.flatMap fun k => l.filter fun a => key a = k).Perm l := by
  induction keys with
  | nil =>
    intro l h
    cases l with
    | nil => exact List.Perm.refl _
    | cons a l => exact absurd (h a List.mem_cons_self) List.not_mem_nil
  | cons k keys ih =>
    intro l h
    obtain ⟨hnew, hnodup⟩ := List.nodup_cons.mp hnodup
    have hrest : ∀ a ∈ l.filter (fun a => !decide (key a = k)), key a ∈ keys := by
      intro a ha
      obtain ⟨ha, hne⟩ := List.mem_filter.mp ha
      rcases List.mem_cons.mp (h a ha) with heq | hmem
      · simp [heq] at hne
      · exact hmem
    have hsame : (keys.flatMap fun k' => l.filter fun a => key a = k') =
        keys.flatMap fun k' => (l.filter fun a => !decide (key a = k)).filter fun a =>
          key a = k' := by
      apply List.flatMap_congr
      intro k' hk'
      rw [List.filter_filter]
      apply List.filter_congr
      intro a _
      by_cases heq : key a = k'
      · have hne : k' ≠ k := fun hbad => hnew (hbad ▸ hk')
        simp [heq, hne]
      · simp [heq]
    rw [List.flatMap_cons, hsame]
    exact ((ih hnodup _ hrest).append_left _).trans (List.filter_append_perm _ l)

/-- Dropping what has the key of its neighbour leaves something of every key. -/
theorem exists_mem_destutter {κ : Type*} [DecidableEq κ] (key : α → κ) {l : List α} {x : α}
    (h : x ∈ l) :
    ∃ kept ∈ l.destutter (fun left right => key left ≠ key right), key kept = key x := by
  cases l with
  | nil => exact absurd h List.not_mem_nil
  | cons first rest =>
    rw [List.destutter_cons']
    induction rest generalizing first x with
    | nil =>
      obtain rfl := List.mem_singleton.mp h
      exact ⟨x, List.mem_singleton_self x, rfl⟩
    | cons second rest ih =>
      by_cases hkey : key first = key second
      · rw [List.destutter'_cons_neg _ (not_not.mpr hkey)]
        rcases List.mem_cons.mp h with rfl | h
        · exact ih x List.mem_cons_self
        · rcases List.mem_cons.mp h with rfl | h
          · obtain ⟨kept, hkept, heq⟩ := ih first List.mem_cons_self
            exact ⟨kept, hkept, heq.trans hkey⟩
          · exact ih first (List.mem_cons_of_mem _ h)
      · rw [List.destutter'_cons_pos _ hkey]
        rcases List.mem_cons.mp h with rfl | h
        · exact ⟨x, List.mem_cons_self, rfl⟩
        · obtain ⟨kept, hkept, heq⟩ := ih second h
          exact ⟨kept, List.mem_cons_of_mem _ hkept, heq⟩

theorem mem_destutter_ne [DecidableEq α] {l : List α} {x : α} :
    x ∈ l.destutter (· ≠ ·) ↔ x ∈ l := by
  constructor
  · intro h
    exact (List.destutter_sublist _ l).mem h
  · intro h
    obtain ⟨kept, hkept, heq⟩ := exists_mem_destutter id h
    obtain rfl : kept = x := heq
    exact hkept

section Greatest
variable (cmp : α → α → Ordering)

def maxBy : List α → Option α
  | [] => none
  | x :: rest => some (rest.foldl (fun best y => if cmp best y = .gt then best else y) x)

variable {cmp}

theorem maxBy_eq_none_iff {l : List α} : maxBy cmp l = none ↔ l = [] := by
  cases l with
  | nil => exact iff_of_true rfl rfl
  | cons x rest => exact iff_of_false (Option.some_ne_none _) (List.cons_ne_nil x rest)

theorem foldl_max_mem (l : List α) (x : α) :
    l.foldl (fun best y => if cmp best y = .gt then best else y) x ∈ x :: l := by
  induction l generalizing x with
  | nil => exact List.mem_singleton.mpr rfl
  | cons y rest ih =>
    rw [List.foldl_cons]
    rcases List.mem_cons.mp (ih (if cmp x y = .gt then x else y)) with h | h
    · rw [h]
      split
      · exact List.mem_cons_self
      · exact List.mem_cons_of_mem _ List.mem_cons_self
    · exact List.mem_cons_of_mem _ (List.mem_cons_of_mem _ h)

theorem maxBy_mem {l : List α} {m : α} (h : maxBy cmp l = some m) : m ∈ l := by
  cases l with
  | nil => exact absurd h (Option.some_ne_none m).symm
  | cons x rest =>
    obtain rfl := Option.some.inj h
    exact foldl_max_mem rest x

variable [Std.TransCmp cmp]

theorem le_foldl_max (l : List α) (x : α) :
    ∀ a ∈ x :: l,
      (cmp a (l.foldl (fun best y => if cmp best y = .gt then best else y) x)).isLE := by
  induction l generalizing x with
  | nil =>
    intro a ha
    obtain rfl := List.mem_singleton.mp ha
    exact Ordering.isLE_of_eq_eq Std.ReflCmp.compare_self
  | cons y rest ih =>
    intro a ha
    rw [List.foldl_cons]
    have hchosen := ih (if cmp x y = .gt then x else y)
    have hbest := hchosen _ List.mem_cons_self
    rcases List.mem_cons.mp ha with rfl | ha
    · refine Std.TransCmp.isLE_trans ?_ hbest
      by_cases hgt : cmp a y = .gt
      · rw [if_pos hgt]
        exact Ordering.isLE_of_eq_eq Std.ReflCmp.compare_self
      · rw [if_neg hgt]
        exact Ordering.isLE_iff_ne_gt.mpr hgt
    · rcases List.mem_cons.mp ha with rfl | ha
      · refine Std.TransCmp.isLE_trans ?_ hbest
        by_cases hgt : cmp x a = .gt
        · rw [if_pos hgt]
          exact Ordering.isLE_of_eq_lt (Std.OrientedCmp.lt_of_gt hgt)
        · rw [if_neg hgt]
          exact Ordering.isLE_of_eq_eq Std.ReflCmp.compare_self
      · exact hchosen a (List.mem_cons_of_mem _ ha)

theorem le_maxBy {l : List α} {m : α} (h : maxBy cmp l = some m) :
    ∀ a ∈ l, (cmp a m).isLE := by
  cases l with
  | nil => exact absurd h (Option.some_ne_none m).symm
  | cons x rest =>
    obtain rfl := Option.some.inj h
    exact le_foldl_max rest x

end Greatest

/-! ## A bounded buffer -/

section Buffer
variable (cmp : α → α → Ordering) (limit : Nat)

/-- The greatest element of the buffer with its position. -/
def worst (scored : List α) : Option (α × Nat) :=
  maxBy (fun left right => cmp left.1 right.1) scored.zipIdx

/-- `none`: the buffer has no room and nothing to give up. -/
def offer (scored : List α) (candidate : α) : Option (List α) :=
  if scored.length < limit then some (scored ++ [candidate])
  else (worst cmp scored).map fun greatest =>
    if cmp candidate greatest.1 = .lt then scored.set greatest.2 candidate else scored

def sortBy (l : List α) : List α := l.insertionSort fun a b => cmp a b ≠ .gt

/-- The buffer holds a best part of what has arrived. -/
structure Keeps (arrived scored : List α) (dropped : List α) : Prop where
  perm : arrived.Perm (scored ++ dropped)
  best : ∀ a ∈ scored, ∀ b ∈ dropped, (cmp a b).isLE
  length : scored.length = min limit arrived.length

variable {cmp limit} [Std.TransCmp cmp]

theorem worst_spec {scored : List α} {greatest : α × Nat} (h : worst cmp scored = some greatest) :
    scored[greatest.2]? = some greatest.1 ∧ ∀ a ∈ scored, (cmp a greatest.1).isLE := by
  have : Std.TransCmp fun left right : α × Nat => cmp left.1 right.1 :=
    { eq_swap := Std.OrientedCmp.eq_swap, isLE_trans := Std.TransCmp.isLE_trans }
  constructor
  · exact List.mem_zipIdx_iff_getElem?.mp (maxBy_mem h)
  · intro a ha
    obtain ⟨i, hi⟩ := List.mem_iff_getElem?.mp ha
    exact le_maxBy h (a, i) (List.mem_zipIdx_iff_getElem?.mpr hi)

theorem perm_set {l : List α} {i : Nat} {old : α} (new : α) (h : l[i]? = some old) :
    (old :: l.set i new).Perm (new :: l) := by
  induction l generalizing i with
  | nil => exact absurd h (by simp)
  | cons x rest ih =>
    cases i with
    | zero =>
      obtain rfl := Option.some.inj h
      exact List.Perm.swap _ _ _
    | succ i =>
      have hrest : rest[i]? = some old := h
      calc (old :: x :: rest.set i new).Perm (x :: old :: rest.set i new) := List.Perm.swap _ _ _
        _ |>.Perm (x :: new :: rest) := (ih hrest).cons x
        _ |>.Perm (new :: x :: rest) := List.Perm.swap _ _ _

omit [Std.TransCmp cmp] in
theorem keeps_nil : Keeps cmp limit ([] : List α) [] [] where
  perm := List.Perm.refl _
  best := by simp
  length := by simp

/-- One arrival: it fills a free place, takes the place of the greatest element or is dropped. -/
theorem Keeps.offer {arrived scored dropped : List α} (h : Keeps cmp limit arrived scored dropped)
    (hlimit : 0 < limit) (candidate : α) :
    ∃ scored' dropped', Selection.offer cmp limit scored candidate = some scored' ∧
      Keeps cmp limit (arrived ++ [candidate]) scored' dropped' := by
  have hlen := h.length
  have htotal := h.perm.length_eq
  rw [List.length_append] at htotal
  have harrived : (arrived ++ [candidate]).Perm (candidate :: (scored ++ dropped)) :=
    (List.perm_append_singleton candidate arrived).trans (h.perm.cons candidate)
  unfold Selection.offer
  by_cases hroom : scored.length < limit
  · have hnone : dropped = [] := List.eq_nil_of_length_eq_zero (by omega)
    subst hnone
    rw [if_pos hroom]
    refine ⟨scored ++ [candidate], [], rfl, ?_, by simp, ?_⟩
    · rw [List.append_nil] at harrived ⊢
      exact harrived.trans (List.perm_append_singleton candidate scored).symm
    · simp only [List.length_append, List.length_singleton, List.length_nil] at htotal ⊢
      omega
  · rw [if_neg hroom]
    obtain ⟨greatest, hgreatest⟩ : ∃ greatest, worst cmp scored = some greatest := by
      apply Option.ne_none_iff_exists'.mp
      intro hnone
      have hempty : scored = [] := by simpa using maxBy_eq_none_iff.mp hnone
      rw [hempty] at hroom
      exact hroom hlimit
    obtain ⟨hat, hmax⟩ := worst_spec hgreatest
    rw [hgreatest]
    by_cases hless : cmp candidate greatest.1 = .lt
    · refine ⟨scored.set greatest.2 candidate, greatest.1 :: dropped, ?_, ?_, ?_, ?_⟩
      · exact congrArg some (if_pos hless)
      · refine harrived.trans (List.Perm.trans ?_ List.perm_middle.symm)
        exact (perm_set candidate hat).symm.append_right dropped
      · intro a ha b hb
        have hle : ∀ c ∈ candidate :: scored, (cmp c greatest.1).isLE := by
          intro c hc
          rcases List.mem_cons.mp hc with rfl | hc
          · exact Ordering.isLE_of_eq_lt hless
          · exact hmax c hc
        have ha' : a ∈ candidate :: scored :=
          (perm_set candidate hat).subset (List.mem_cons_of_mem _ ha)
        rcases List.mem_cons.mp hb with rfl | hb
        · exact hle a ha'
        · exact Std.TransCmp.isLE_trans (hle a ha') (h.best _ (List.mem_of_getElem? hat) b hb)
      · rw [List.length_set, List.length_append, List.length_singleton]
        omega
    · refine ⟨scored, candidate :: dropped, congrArg some (if_neg hless), ?_, ?_, ?_⟩
      · exact harrived.trans List.perm_middle.symm
      · intro a ha b hb
        rcases List.mem_cons.mp hb with rfl | hb
        · refine Std.TransCmp.isLE_trans (hmax a ha) ?_
          exact Std.OrientedCmp.isLE_of_isGE (Ordering.isGE_iff_ne_lt.mpr hless)
        · exact h.best a ha b hb
      · rw [List.length_append, List.length_singleton]
        omega

omit [Std.TransCmp cmp] in
theorem perm_sortBy (l : List α) : (sortBy cmp l).Perm l := List.perm_insertionSort _ l

theorem pairwise_sortBy (l : List α) : (sortBy cmp l).Pairwise fun a b => (cmp a b).isLE := by
  have : Std.Total fun a b : α => cmp a b ≠ .gt := by
    constructor
    intro a b
    by_cases hgt : cmp a b = .gt
    · right
      rw [Std.OrientedCmp.lt_of_gt hgt]
      decide
    · exact Or.inl hgt
  have : IsTrans α fun a b => cmp a b ≠ .gt := by
    constructor
    intro a b c hab hbc
    exact Ordering.isLE_iff_ne_gt.mp (Std.TransCmp.isLE_trans
      (Ordering.isLE_iff_ne_gt.mpr hab) (Ordering.isLE_iff_ne_gt.mpr hbc))
  apply (List.pairwise_insertionSort (fun a b : α => cmp a b ≠ .gt) l).imp
  intro a b hab
  exact Ordering.isLE_iff_ne_gt.mpr hab

/-- Where only equal elements compare equal, two sorted arrangements are one. -/
theorem sorted_unique {l l' : List α} (hperm : l.Perm l')
    (heq : ∀ a ∈ l, ∀ b ∈ l, cmp a b = .eq → a = b)
    (hl : l.Pairwise fun a b => (cmp a b).isLE) (hl' : l'.Pairwise fun a b => (cmp a b).isLE) :
    l = l' := by
  refine List.Perm.eq_of_pairwise ?_ hl hl' hperm
  intro a b ha hb hab hba
  exact heq a ha b (hperm.mem_iff.mpr hb) (Std.OrientedCmp.isLE_antisymm hab hba)

theorem sortBy_congr {l l' : List α} (hperm : l.Perm l')
    (heq : ∀ a ∈ l, ∀ b ∈ l, cmp a b = .eq → a = b) : sortBy cmp l = sortBy cmp l' := by
  apply sorted_unique ((perm_sortBy l).trans (hperm.trans (perm_sortBy l').symm)) ?_
    (pairwise_sortBy l) (pairwise_sortBy l')
  intro a ha b hb
  exact heq a ((perm_sortBy l).mem_iff.mp ha) b ((perm_sortBy l).mem_iff.mp hb)

/-- The buffer, sorted, is the front of what has arrived, sorted. -/
theorem Keeps.sortBy_eq_take {arrived scored dropped : List α}
    (h : Keeps cmp limit arrived scored dropped)
    (heq : ∀ a ∈ arrived, ∀ b ∈ arrived, cmp a b = .eq → a = b) :
    sortBy cmp scored = (sortBy cmp arrived).take (min limit arrived.length) := by
  have hwhole : sortBy cmp arrived = sortBy cmp scored ++ sortBy cmp dropped := by
    refine sorted_unique ?_ ?_ (pairwise_sortBy arrived) ?_
    · exact (perm_sortBy arrived).trans
        (h.perm.trans ((perm_sortBy scored).append (perm_sortBy dropped)).symm)
    · intro a ha b hb
      exact heq a ((perm_sortBy arrived).mem_iff.mp ha) b ((perm_sortBy arrived).mem_iff.mp hb)
    · refine List.pairwise_append.mpr ⟨pairwise_sortBy scored, pairwise_sortBy dropped, ?_⟩
      intro a ha b hb
      exact h.best a ((perm_sortBy scored).mem_iff.mp ha) b ((perm_sortBy dropped).mem_iff.mp hb)
  have hlength : (sortBy cmp scored).length = min limit arrived.length :=
    (perm_sortBy scored).length_eq.trans h.length
  rw [hwhole, List.take_append_of_le_length hlength.ge, List.take_of_length_le hlength.le]

end Buffer
/-! ## Sorting by a rank -/

section Rank

variable (rank : α → Nat)

def RankLe (a b : α) : Prop := rank a ≤ rank b

instance : DecidableRel (RankLe rank) := fun a b => inferInstanceAs (Decidable (rank a ≤ rank b))

instance : Std.Total (RankLe rank) := ⟨fun _ _ => Nat.le_total _ _⟩

instance : IsTrans α (RankLe rank) := ⟨fun _ _ _ => Nat.le_trans⟩

variable {rank}

theorem orderedInsert_low {k : Nat} {a : α} (ha : rank a < k) {low high : List α}
    (hhigh : ∀ b ∈ high, k ≤ rank b) :
    (low ++ high).orderedInsert (RankLe rank) a = low.orderedInsert (RankLe rank) a ++ high := by
  induction low with
  | nil =>
    cases high with
    | nil => rfl
    | cons b high =>
      have hb : k ≤ rank b := hhigh b List.mem_cons_self
      have hle : RankLe rank a b := by unfold RankLe; omega
      exact if_pos hle
  | cons x low ih =>
    rw [List.cons_append, List.orderedInsert_cons, List.orderedInsert_cons]
    split
    · rfl
    · rw [ih]
      rfl

theorem orderedInsert_high {k : Nat} {a : α} (ha : k ≤ rank a) {low high : List α}
    (hlow : ∀ b ∈ low, rank b < k) :
    (low ++ high).orderedInsert (RankLe rank) a = low ++ high.orderedInsert (RankLe rank) a := by
  induction low with
  | nil => rfl
  | cons x low ih =>
    have hx : rank x < k := hlow x List.mem_cons_self
    have hnot : ¬ RankLe rank a x := by unfold RankLe; omega
    rw [List.cons_append, List.orderedInsert_cons, if_neg hnot,
      ih fun b hb => hlow b (List.mem_cons_of_mem _ hb)]
    rfl

variable (rank)

/-- Sorting by a rank sorts those below a bound and puts the others, sorted, after them. -/
theorem insertionSort_split (k : Nat) (l : List α) :
    l.insertionSort (RankLe rank) =
      (l.filter fun a => rank a < k).insertionSort (RankLe rank) ++
        (l.filter fun a => ¬ rank a < k).insertionSort (RankLe rank) := by
  induction l with
  | nil => rfl
  | cons a l ih =>
    rw [List.insertionSort_cons, ih]
    by_cases ha : rank a < k
    · have hlow : (a :: l).filter (fun a => rank a < k) = a :: l.filter fun a => rank a < k :=
        List.filter_cons_of_pos (decide_eq_true ha)
      have hhigh : (a :: l).filter (fun a => ¬ rank a < k) = l.filter fun a => ¬ rank a < k :=
        List.filter_cons_of_neg fun h => of_decide_eq_true h ha
      rw [hlow, hhigh, List.insertionSort_cons]
      apply orderedInsert_low ha
      intro b hb
      have := of_decide_eq_true (List.mem_filter.mp ((List.mem_insertionSort _).mp hb)).2
      omega
    · have hlow : (a :: l).filter (fun a => rank a < k) = l.filter fun a => rank a < k :=
        List.filter_cons_of_neg fun h => ha (of_decide_eq_true h)
      have hhigh : (a :: l).filter (fun a => ¬ rank a < k) = a :: l.filter fun a => ¬ rank a < k :=
        List.filter_cons_of_pos (decide_eq_true ha)
      rw [hlow, hhigh, List.insertionSort_cons]
      apply orderedInsert_high (Nat.not_lt.mp ha)
      intro b hb
      exact of_decide_eq_true (List.mem_filter.mp ((List.mem_insertionSort _).mp hb)).2

theorem insertionSort_of_constant {k : Nat} {l : List α} (h : ∀ a ∈ l, rank a = k) :
    l.insertionSort (RankLe rank) = l := by
  apply List.Pairwise.insertionSort_eq
  apply List.pairwise_of_forall_mem_list
  intro a ha b hb
  unfold RankLe
  rw [h a ha, h b hb]

end Rank

section Keys
variable {κ : Type*} [LinearOrder κ]

/-- Only the comparisons of an element with later ones matter to a sort. -/
theorem insertionSort_congr {r r' : α → α → Prop} [DecidableRel r] [DecidableRel r'] {l : List α}
    (h : l.Pairwise fun a b => (r a b ↔ r' a b)) : l.insertionSort r = l.insertionSort r' := by
  have hinsert : ∀ (a : α) (l : List α), (∀ b ∈ l, r a b ↔ r' a b) →
      l.orderedInsert r a = l.orderedInsert r' a := by
    intro a l
    induction l with
    | nil => exact fun _ => rfl
    | cons b l ih =>
      intro hall
      rw [List.orderedInsert_cons, List.orderedInsert_cons,
        ih fun c hc => hall c (List.mem_cons_of_mem _ hc)]
      exact if_congr (hall b List.mem_cons_self) rfl rfl
  induction l with
  | nil => rfl
  | cons a l ih =>
    obtain ⟨hhead, htail⟩ := List.pairwise_cons.mp h
    rw [List.insertionSort_cons, List.insertionSort_cons, ih htail]
    apply hinsert
    intro b hb
    exact hhead b ((List.mem_insertionSort _).mp hb)

/-- A sort by different keys does not depend on the order of its input. -/
theorem insertionSort_eq_of_perm (key : α → κ) {r : α → α → Prop} [DecidableRel r]
    {l l' : List α} (hperm : l.Perm l') (hkeys : (l.map key).Nodup)
    (hr : ∀ a ∈ l, ∀ b ∈ l, key a ≠ key b → (r a b ↔ key a ≤ key b)) :
    l.insertionSort r = l'.insertionSort r := by
  have hsorted : ∀ l' : List α, l.Perm l' →
      l'.insertionSort r = l'.insertionSort (fun a b => key a ≤ key b) := by
    intro l' hperm
    apply insertionSort_congr
    have hne : l'.Pairwise fun a b => key a ≠ key b :=
      List.pairwise_map.mp ((hperm.map key).nodup_iff.mp hkeys)
    apply List.Pairwise.imp_of_mem _ hne
    intro a b ha hb hab
    exact hr a (hperm.mem_iff.mpr ha) b (hperm.mem_iff.mpr hb) hab
  have htotal : Std.Total fun a b : α => key a ≤ key b := ⟨fun a b => le_total (key a) (key b)⟩
  have htrans : IsTrans α fun a b => key a ≤ key b := ⟨fun _ _ _ => le_trans⟩
  rw [hsorted l (List.Perm.refl l), hsorted l' hperm]
  have hpermuted : (l.insertionSort fun a b => key a ≤ key b).Perm
      (l'.insertionSort fun a b => key a ≤ key b) :=
    (List.perm_insertionSort _ l).trans (hperm.trans (List.perm_insertionSort _ l').symm)
  refine List.Perm.eq_of_pairwise ?_ (List.pairwise_insertionSort _ l)
    (List.pairwise_insertionSort _ l') hpermuted
  intro a b ha hb hab hba
  apply List.inj_on_of_nodup_map hkeys ((List.mem_insertionSort _).mp ha)
    (hperm.mem_iff.mpr ((List.mem_insertionSort _).mp hb))
  exact le_antisymm hab hba

end Keys

end Selection
