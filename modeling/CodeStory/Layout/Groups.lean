import CodeStory.Layout.Folding

/-!
# Merge groups

What folding the nodes leaves, in closed form: the first node with a key gives its id to all later
ones with that key, so each of the four maps is a function of the list of nodes that were visited.
-/

set_option autoImplicit false

namespace CodeStory.Layout

open CodeStory.Graph (EdgeKind NodeKind)

section Closed
variable (memberHostById : SortedMap String String) (depthOf : String → Option Int)
  (center : String)

def shownAlone (node : GraphNode) : Bool := (memberHostById.get node.id).isNone

def keyOf (node : GraphNode) : Option String :=
  dedupeKeyForNode node.kind node.label ((depthOf node.id).getD (max 1 (asI32 node.depth)))
    (node.id = center)

/-- The first node with the key that is not a member. -/
def firstWithKey (visited : List GraphNode) (key : String) : Option GraphNode :=
  visited.find? fun node => shownAlone memberHostById node && keyOf depthOf center node = some key

def canonOf (visited : List GraphNode) (node : GraphNode) : String :=
  match keyOf depthOf center node with
  | none => node.id
  | some key => ((firstWithKey memberHostById depthOf center visited key).map (·.id)).getD node.id

/-- The nodes that are shown as the one with this id. -/
def groupOf (visited : List GraphNode) (canonical : String) : List GraphNode :=
  visited.filter fun node =>
    shownAlone memberHostById node && canonOf memberHostById depthOf center visited node = canonical

/-- What is kept for a group, which is nothing as long as it is empty. -/
def keptFor {β : Type} (group : List GraphNode) (value : List GraphNode → β) : Option β :=
  if group = [] then none else some (value group)

structure Grouped (visited : List GraphNode) (found : NodeFold) : Prop where
  byKey : ∀ key, found.canonicalNodeByKey.get key =
    (firstWithKey memberHostById depthOf center visited key).map (·.id)
  canon : ∀ id, found.canonicalNodeById.get id =
    (visited.find? fun node => shownAlone memberHostById node && node.id = id).map
      (canonOf memberHostById depthOf center visited)
  count : ∀ canonical, found.duplicateCountByCanonical.get canonical =
    keptFor (groupOf memberHostById depthOf center visited canonical) List.length
  merged : ∀ canonical, found.mergedIdsByCanonical.get canonical =
    keptFor (groupOf memberHostById depthOf center visited canonical) (List.map (·.id))

end Closed

section Folding
variable {memberHostById : SortedMap String String} {depthOf : String → Option Int}
  {center : String} {visited : List GraphNode} {node : GraphNode}

theorem firstWithKey_isSome {other : GraphNode} {key : String} (hmem : other ∈ visited)
    (hshown : shownAlone memberHostById other = true)
    (hkey : keyOf depthOf center other = some key) :
    (firstWithKey memberHostById depthOf center visited key).isSome := by
  unfold firstWithKey
  rw [List.find?_isSome]
  refine ⟨other, hmem, ?_⟩
  rw [hshown, hkey]
  exact decide_eq_true rfl

theorem firstWithKey_spec {first : GraphNode} {key : String}
    (h : firstWithKey memberHostById depthOf center visited key = some first) :
    first ∈ visited ∧ shownAlone memberHostById first = true ∧
      keyOf depthOf center first = some key := by
  have hp := List.find?_some h
  rw [Bool.and_eq_true] at hp
  exact ⟨List.mem_of_find?_eq_some h, hp.1, of_decide_eq_true hp.2⟩

/-- A node that comes later does not change what earlier ones are shown as. -/
theorem canonOf_append {other : GraphNode} (hmem : other ∈ visited)
    (hshown : shownAlone memberHostById other = true) (later : List GraphNode) :
    canonOf memberHostById depthOf center (visited ++ later) other =
      canonOf memberHostById depthOf center visited other := by
  unfold canonOf
  cases hkey : keyOf depthOf center other with
  | none => rfl
  | some key =>
    obtain ⟨first, hfirst⟩ :=
      Option.isSome_iff_exists.mp (firstWithKey_isSome hmem hshown hkey)
    have happend : firstWithKey memberHostById depthOf center (visited ++ later) key =
        some first := by
      unfold firstWithKey at hfirst ⊢
      rw [List.find?_append, hfirst]
      rfl
    dsimp only
    rw [hfirst, happend]

theorem groupOf_snoc (canonical : String) :
    groupOf memberHostById depthOf center (visited ++ [node]) canonical =
      groupOf memberHostById depthOf center visited canonical ++
        if shownAlone memberHostById node = true ∧
            canonOf memberHostById depthOf center (visited ++ [node]) node = canonical then [node]
        else [] := by
  unfold groupOf
  rw [List.filter_append]
  congr 1
  · apply List.filter_congr
    intro other hother
    cases hshown : shownAlone memberHostById other with
    | false => rfl
    | true => rw [canonOf_append hother hshown]
  · cases hshown : shownAlone memberHostById node with
    | false => simp [hshown]
    | true =>
      by_cases hcanon : canonOf memberHostById depthOf center (visited ++ [node]) node = canonical
      · simp [hshown, hcanon]
      · simp [hshown, hcanon]

theorem Grouped.skip {found : NodeFold} (h : Grouped memberHostById depthOf center visited found)
    (hmember : shownAlone memberHostById node = false) :
    Grouped memberHostById depthOf center (visited ++ [node]) found := by
  have hkey : ∀ key, firstWithKey memberHostById depthOf center (visited ++ [node]) key =
      firstWithKey memberHostById depthOf center visited key := by
    intro key
    unfold firstWithKey
    rw [List.find?_append, List.find?_singleton, hmember, Bool.false_and]
    exact Option.or_none
  have hcanon : ∀ other, canonOf memberHostById depthOf center (visited ++ [node]) other =
      canonOf memberHostById depthOf center visited other := by
    intro other
    unfold canonOf
    split
    · rfl
    · rw [hkey]
  have hgroup : ∀ canonical, groupOf memberHostById depthOf center (visited ++ [node]) canonical =
      groupOf memberHostById depthOf center visited canonical := by
    intro canonical
    rw [groupOf_snoc, if_neg (fun hbad => Bool.false_ne_true (hmember.symm.trans hbad.1)),
      List.append_nil]
  refine ⟨fun key => ?_, fun id => ?_, fun canonical => ?_, fun canonical => ?_⟩
  · rw [hkey]
    exact h.byKey key
  · rw [h.canon, List.find?_append, List.find?_singleton, hmember, Bool.false_and,
      funext hcanon]
    exact congrArg _ Option.or_none.symm
  · rw [hgroup]
    exact h.count canonical
  · rw [hgroup]
    exact h.merged canonical

theorem Grouped.canonicalIdFor {found : NodeFold}
    (h : Grouped memberHostById depthOf center visited found)
    (hshown : shownAlone memberHostById node = true) :
    found.canonicalIdFor (keyOf depthOf center node) node.id =
      canonOf memberHostById depthOf center (visited ++ [node]) node := by
  unfold NodeFold.canonicalIdFor canonOf
  cases hkey : keyOf depthOf center node with
  | none => rfl
  | some key =>
    dsimp only [Option.bind_some]
    rw [h.byKey]
    unfold firstWithKey
    rw [List.find?_append, List.find?_singleton, hshown, hkey]
    cases hfirst : visited.find? fun other =>
        shownAlone memberHostById other && keyOf depthOf center other = some key with
    | none => simp
    | some first => rfl

theorem Grouped.visit {found : NodeFold} (h : Grouped memberHostById depthOf center visited found)
    (hnew : ∀ other ∈ visited, other.id ≠ node.id) :
    Grouped memberHostById depthOf center (visited ++ [node])
      (foldNode memberHostById depthOf center found node) := by
  unfold foldNode
  split
  · rename_i hmember
    apply h.skip
    unfold shownAlone
    rw [← Option.not_isSome, hmember]
    rfl
  · rename_i halone
    have hshown : shownAlone memberHostById node = true := by
      unfold shownAlone
      rw [Option.isNone_iff_eq_none]
      exact Option.not_isSome_iff_eq_none.mp halone
    have hcanonical := h.canonicalIdFor hshown
    dsimp only
    unfold keyOf at hcanonical
    rw [hcanonical]
    have hgroup : ∀ canonical,
        groupOf memberHostById depthOf center (visited ++ [node]) canonical =
          groupOf memberHostById depthOf center visited canonical ++
            if canonOf memberHostById depthOf center (visited ++ [node]) node = canonical
            then [node] else [] := by
      intro canonical
      rw [groupOf_snoc]
      congr 1
      simp [hshown]
    refine ⟨fun key => ?_, fun id => ?_, fun canonical => ?_, fun canonical => ?_⟩
    · have hfirst : firstWithKey memberHostById depthOf center (visited ++ [node]) key =
          (firstWithKey memberHostById depthOf center visited key).or
            (if keyOf depthOf center node = some key then some node else none) := by
        unfold firstWithKey
        rw [List.find?_append, List.find?_singleton, hshown, Bool.true_and]
        congr 1
        simp
      rw [hfirst]
      cases hkey : keyOf depthOf center node with
      | none =>
        unfold keyOf at hkey
        rw [hkey]
        dsimp only
        rw [h.byKey, if_neg (by simp), Option.or_none]
      | some own =>
        have hcanon : canonOf memberHostById depthOf center (visited ++ [node]) node =
            ((firstWithKey memberHostById depthOf center visited own).map (·.id)).getD node.id := by
          rw [← h.canonicalIdFor hshown, hkey, ← h.byKey]
          rfl
        unfold keyOf at hkey
        rw [hkey]
        dsimp only
        unfold SortedMap.offer
        rw [h.byKey]
        cases hown : firstWithKey memberHostById depthOf center visited own with
        | none =>
          rw [hown] at hcanon
          dsimp only [Option.map_none]
          rw [SortedMap.get_put, hcanon]
          by_cases hkeys : key = own
          · rw [if_pos hkeys, hkeys, hown, if_pos rfl]
            rfl
          · rw [if_neg hkeys, if_neg (fun heq => hkeys (Option.some.inj heq).symm), h.byKey,
              Option.or_none]
        | some first =>
          dsimp only [Option.map_some]
          rw [if_neg Bool.false_ne_true, h.byKey]
          by_cases hkeys : key = own
          · rw [hkeys, hown]
            rfl
          · rw [if_neg (fun heq => hkeys (Option.some.inj heq).symm), Option.or_none]
    · dsimp only
      rw [SortedMap.get_put, List.find?_append, List.find?_singleton, hshown, Bool.true_and]
      by_cases hid : id = node.id
      · have hnone : visited.find? (fun other => shownAlone memberHostById other &&
            other.id = id) = none := by
          rw [List.find?_eq_none]
          intro other hother hbad
          rw [Bool.and_eq_true] at hbad
          exact hnew other hother ((of_decide_eq_true hbad.2).trans hid)
        rw [if_pos hid, hnone, hid]
        simp
      · have hne : ¬ node.id = id := fun heq => hid heq.symm
        rw [if_neg hid, h.canon]
        simp only [hne, decide_false, Bool.false_eq_true, if_false, Option.or_none]
        cases hfound : visited.find? fun other => shownAlone memberHostById other &&
          other.id = id with
        | none => rfl
        | some other =>
          have hp := List.find?_some hfound
          rw [Bool.and_eq_true] at hp
          dsimp only [Option.map_some]
          rw [canonOf_append (List.mem_of_find?_eq_some hfound) hp.1]
    · dsimp only
      rw [SortedMap.get_put, hgroup]
      by_cases hcanon : canonical = canonOf memberHostById depthOf center (visited ++ [node]) node
      · rw [if_pos hcanon, if_pos hcanon.symm, h.count, ← hcanon]
        unfold keptFor
        rw [if_neg (List.append_ne_nil_of_right_ne_nil _ (List.cons_ne_nil _ _)),
          List.length_append]
        split
        · rename_i hempty
          rw [hempty]
          rfl
        · rfl
      · rw [if_neg hcanon, if_neg (Ne.symm hcanon), List.append_nil, h.count]
    · dsimp only
      rw [SortedMap.get_put, hgroup]
      by_cases hcanon : canonical = canonOf memberHostById depthOf center (visited ++ [node]) node
      · rw [if_pos hcanon, if_pos hcanon.symm, h.merged, ← hcanon]
        unfold keptFor
        rw [if_neg (List.append_ne_nil_of_right_ne_nil _ (List.cons_ne_nil _ _)), List.map_append]
        split
        · rename_i hempty
          rw [hempty]
          rfl
        · rfl
      · rw [if_neg hcanon, if_neg (Ne.symm hcanon), List.append_nil, h.merged]

variable (memberHostById depthOf center) in
theorem grouped_foldNodes {nodes : List GraphNode} (hdistinct : (nodes.map (·.id)).Nodup) :
    Grouped memberHostById depthOf center nodes
      (nodes.foldl (foldNode memberHostById depthOf center) {}) := by
  induction nodes using List.reverseRecOn with
  | nil => exact ⟨fun _ => rfl, fun _ => rfl, fun _ => rfl, fun _ => rfl⟩
  | append_singleton nodes node ih =>
    rw [List.map_append, List.nodup_append] at hdistinct
    rw [List.foldl_append]
    apply (ih hdistinct.1).visit
    intro other hother heq
    exact hdistinct.2.2 _ (List.mem_map_of_mem hother) _ List.mem_cons_self heq

end Folding

end CodeStory.Layout
