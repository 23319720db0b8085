import CodeStory.Graph.SupportFreshness
import Mathlib.Order.Bounds.Basic

/-!
# Which method an override resolves to

What the traversals and the two narrowing steps compute has one description: the methods of
that name of the proper ancestors of the owner, of which the smallest is selected when they
all go by one name.
-/

set_option autoImplicit false

namespace CodeStory.Graph

namespace OverrideSupport
variable (support : OverrideSupport)

/-! ## What is overridden -/

def ProperAncestor {α : Type} (rows : List (α × α)) (start place : α) : Prop :=
  Relation.ReflTransGen (fun a b => (a, b) ∈ rows) start place ∧ place ≠ start

def overriddenByName (ownerName methodName : String) : Set Int :=
  {id | ∃ member ∈ support.members,
    ProperAncestor support.inheritanceByName ownerName member.ownerName ∧
      member.methodName = methodName ∧ member.methodId = id}

/-- The methods of an ancestor are those of its id and those of its name. -/
def overriddenById (ownerId : Int) (methodName : String) : Set Int :=
  {id | ∃ ancestor, ProperAncestor support.inheritance ownerId ancestor ∧
    ∃ member ∈ support.members,
      (member.ownerId = ancestor ∨ (ancestor, member.ownerName) ∈ support.nodeNames) ∧
        member.methodName = methodName ∧ member.methodId = id}

def owners (methodId : Int) : Set Int :=
  {id | ∃ member ∈ support.members, member.methodId = methodId ∧ member.ownerId = id}

def OneName (ids : Set Int) : Prop :=
  ids.Subsingleton ∨ ∃ name, ∀ id ∈ ids, (id, name) ∈ support.nodeNames

def Selects (ids : Set Int) (target : Int) : Prop := IsLeast ids target ∧ support.OneName ids

def Overrides (row : Tables.UnresolvedOverrideRow) (target : Int) : Prop :=
  match ownerNameFromMemberName row.sourceName with
  | some ownerName =>
    support.Selects (support.overriddenByName ownerName (shortMemberName row.sourceName)) target
  | none => ∃ owner, support.Selects (support.owners row.sourceId) owner ∧ owner ≠ 0 ∧
      support.Selects (support.overriddenById owner (shortMemberName row.sourceName)) target

/-- Every method is a node. -/
def Named (support : OverrideSupport) : Prop :=
  ∀ member ∈ support.members, ∃ name, (member.methodId, name) ∈ support.nodeNames

variable {support}

/-! ## Selecting from a list -/

theorem length_eq_one_iff_subsingleton {α : Type} {items : List α} (hnodup : items.Nodup)
    (hne : items ≠ []) :
    items.length = 1 ↔ {a | a ∈ items}.Subsingleton := by
  constructor
  · intro hlength
    obtain ⟨only, rfl⟩ := List.length_eq_one_iff.mp hlength
    intro a ha b hb
    rw [List.mem_singleton.mp ha, List.mem_singleton.mp hb]
  · intro hone
    have hle : items.length ≤ 1 := by
      cases items with
      | nil => exact Nat.zero_le 1
      | cons a rest =>
        cases rest with
        | nil => exact Nat.le_refl 1
        | cons b rest =>
          have hab : a = b := hone List.mem_cons_self
            (List.mem_cons_of_mem _ List.mem_cons_self)
          subst hab
          exact absurd List.mem_cons_self (List.nodup_cons.mp hnodup).1
    have hpos := List.length_pos_iff.mpr hne
    omega

section Selecting
variable {ids : List Int}

theorem mem_sortedIds {id : Int} : id ∈ sortedIds ids ↔ id ∈ ids :=
  (List.perm_insertionSort _ ids).mem_iff

theorem mem_sortedDistinct {id : Int} : id ∈ sortedDistinct ids ↔ id ∈ ids := by
  unfold sortedDistinct
  rw [mem_sortedIds, List.mem_dedup]

theorem nodup_sortedDistinct : (sortedDistinct ids).Nodup :=
  (List.perm_insertionSort _ ids.dedup).nodup_iff.mpr (List.nodup_dedup ids)

theorem isLeast_of_head?_sortedIds {target : Int} (h : (sortedIds ids).head? = some target) :
    IsLeast {id | id ∈ ids} target := by
  have hsorted : (sortedIds ids).Pairwise (· ≤ ·) := List.pairwise_insertionSort _ ids
  constructor
  · exact mem_sortedIds.mp (List.mem_of_head? h)
  · intro id hid
    have hin : id ∈ sortedIds ids := mem_sortedIds.mpr hid
    obtain ⟨rest, hrest⟩ := List.head?_eq_some_iff.mp h
    rw [hrest] at hsorted hin
    rcases List.mem_cons.mp hin with heq | hin
    · omega
    · exact List.rel_of_pairwise_cons hsorted hin

theorem head?_sortedIds_iff {target : Int} :
    (sortedIds ids).head? = some target ↔ IsLeast {id | id ∈ ids} target := by
  constructor
  · exact isLeast_of_head?_sortedIds
  · intro hleast
    cases hhead : (sortedIds ids).head? with
    | none =>
      have hempty : sortedIds ids = [] := List.head?_eq_none_iff.mp hhead
      have hin := mem_sortedIds.mpr hleast.1
      rw [hempty] at hin
      cases hin
    | some first => rw [(isLeast_of_head?_sortedIds hhead).unique hleast]

variable (hconsistent : support.Consistent)
include hconsistent

/-- Ids that all have a name count as one exactly when it is the same. -/
theorem nameCount_eq_one_iff (hne : ids ≠ [])
    (hnamed : ∀ id ∈ ids, ∃ name, (id, name) ∈ support.nodeNames) :
    support.nameCount ids = 1 ↔ ∃ name, ∀ id ∈ ids, (id, name) ∈ support.nodeNames := by
  have hmem : ∀ name, name ∈ (ids.filterMap support.ownerNameById).dedup ↔
      ∃ id ∈ ids, (id, name) ∈ support.nodeNames := by
    intro name
    rw [List.mem_dedup, List.mem_filterMap]
    simp only [hconsistent.ownerNameById_iff]
  constructor
  · intro hcount
    obtain ⟨name, hname⟩ := List.length_eq_one_iff.mp hcount
    refine ⟨name, ?_⟩
    intro id hid
    obtain ⟨other, hother⟩ := hnamed id hid
    have hin := (hmem other).mpr ⟨id, hid, hother⟩
    rw [hname] at hin
    rw [List.mem_singleton.mp hin] at hother
    exact hother
  · rintro ⟨name, hname⟩
    obtain ⟨id, hid⟩ := List.exists_mem_of_ne_nil ids hne
    have hin := (hmem name).mpr ⟨id, hid, hname id hid⟩
    have hunique : ∀ other ∈ (ids.filterMap support.ownerNameById).dedup, other = name := by
      intro other hother
      obtain ⟨id, hid, hin⟩ := (hmem other).mp hother
      have hfirst := hconsistent.ownerNameById_iff.mpr hin
      rw [hconsistent.ownerNameById_iff.mpr (hname id hid)] at hfirst
      exact (Option.some.inj hfirst).symm
    apply (length_eq_one_iff_subsingleton (List.nodup_dedup _) (List.ne_nil_of_mem hin)).mpr
    intro a ha b hb
    rw [hunique a ha, hunique b hb]

/-- The smallest id, if they are one or of one name. -/
theorem head?_if_one_iff (hnodup : ids.Nodup)
    (hnamed : ∀ id ∈ ids, ∃ name, (id, name) ∈ support.nodeNames) {target : Int} :
    (if ids.length = 1 ∨ support.nameCount ids = 1 then (sortedIds ids).head? else none) =
        some target ↔ support.Selects {id | id ∈ ids} target := by
  by_cases hne : ids = []
  · subst hne
    constructor
    · intro hselected
      split at hselected <;> cases hselected
    · intro hselects
      exact absurd hselects.1.1 List.not_mem_nil
  · have hcond : (ids.length = 1 ∨ support.nameCount ids = 1) ↔
        support.OneName {id | id ∈ ids} := by
      rw [length_eq_one_iff_subsingleton hnodup hne, nameCount_eq_one_iff hconsistent hne hnamed]
      rfl
    unfold Selects
    rw [← hcond, ← head?_sortedIds_iff]
    split
    · rename_i hone
      exact ⟨fun h => ⟨h, hone⟩, fun h => h.1⟩
    · rename_i hone
      constructor
      · intro h
        cases h
      · intro h
        exact absurd h.2 hone

/-- Narrowing leaves one id exactly when the ids go by one name. -/
theorem selected_iff (hnodup : ids.Nodup)
    (hnamed : ∀ id ∈ ids, ∃ name, (id, name) ∈ support.nodeNames) (flags : ResolutionFlags)
    {target : Int} :
    (selection flags (support.narrowed ids)).selected.map (·.1) = some target ↔
      support.Selects {id | id ∈ ids} target := by
  rw [← head?_if_one_iff hconsistent hnodup hnamed]
  unfold narrowed
  by_cases hone : ids.length = 1
  · obtain ⟨id, rfl⟩ := List.length_eq_one_iff.mp hone
    simp [selection, sortedIds]
  · by_cases hname : support.nameCount ids = 1
    · have hmany : 1 < ids.length := by
        cases ids with
        | nil => cases hname
        | cons id rest =>
          rw [List.length_cons] at hone ⊢
          omega
      have hlength : (sortedIds ids).length = ids.length :=
        (List.perm_insertionSort _ ids).length_eq
      rw [if_pos (by simp [hmany, hname]), if_pos (Or.inr hname)]
      cases hsorted : sortedIds ids with
      | nil =>
        rw [hsorted, List.length_nil] at hlength
        omega
      | cons first rest => simp [selection]
    · simp [hname, selection, hone]

end Selecting

/-! ## What the traversals find -/

theorem mem_methodsByOwnerAndName_iff {ownerId id : Int} {methodName : String} :
    id ∈ support.methodsByOwnerAndName ownerId methodName ↔ ∃ member ∈ support.members,
      member.ownerId = ownerId ∧ member.methodName = methodName ∧ member.methodId = id := by
  unfold methodsByOwnerAndName
  simp only [List.mem_map, List.mem_filter, Bool.and_eq_true, decide_eq_true_eq, and_assoc]

theorem mem_methodsByOwnerNameAndName_iff {ownerName methodName : String} {id : Int} :
    id ∈ support.methodsByOwnerNameAndName ownerName methodName ↔ ∃ member ∈ support.members,
      member.ownerName = ownerName ∧ member.methodName = methodName ∧ member.methodId = id := by
  unfold methodsByOwnerNameAndName
  simp only [List.mem_map, List.mem_filter, Bool.and_eq_true, decide_eq_true_eq, and_assoc]

theorem mem_collectByOwnerName_iff {ownerName methodName : String} {id : Int} :
    id ∈ support.collectOverrideCandidatesByOwnerName ownerName methodName ↔
      id ∈ support.overriddenByName ownerName methodName := by
  unfold collectOverrideCandidatesByOwnerName
  rw [Worklist.mem_collectFrom_iff]
  constructor
  · rintro ⟨ancestor, hreach, hne, hmethod⟩
    obtain ⟨member, hmember, rfl, hname, hid⟩ := mem_methodsByOwnerNameAndName_iff.mp hmethod
    exact ⟨member, hmember, ⟨hreach, hne⟩, hname, hid⟩
  · rintro ⟨member, hmember, hproper, hname, hid⟩
    refine ⟨member.ownerName, hproper.1, hproper.2, ?_⟩
    exact mem_methodsByOwnerNameAndName_iff.mpr ⟨member, hmember, rfl, hname, hid⟩

theorem mem_collectOverrideCandidates_iff (hconsistent : support.Consistent) {ownerId id : Int}
    {methodName : String} :
    id ∈ support.collectOverrideCandidates ownerId methodName ↔
      id ∈ support.overriddenById ownerId methodName := by
  unfold collectOverrideCandidates
  rw [Worklist.mem_collectFrom_iff]
  constructor
  · rintro ⟨ancestor, hreach, hne, hmethod⟩
    refine ⟨ancestor, ⟨hreach, hne⟩, ?_⟩
    rcases List.mem_append.mp hmethod with hmethod | hmethod
    · obtain ⟨member, hmember, howner, hname⟩ := mem_methodsByOwnerAndName_iff.mp hmethod
      exact ⟨member, hmember, Or.inl howner, hname⟩
    · cases hancestor : support.ownerNameById ancestor with
      | none =>
        rw [hancestor] at hmethod
        cases hmethod
      | some ancestorName =>
        rw [hancestor, Option.elim_some] at hmethod
        obtain ⟨member, hmember, rfl, hname⟩ := mem_methodsByOwnerNameAndName_iff.mp hmethod
        exact ⟨member, hmember, Or.inr (hconsistent.ownerNameById_iff.mp hancestor), hname⟩
  · rintro ⟨ancestor, hproper, member, hmember, howner, hname⟩
    refine ⟨ancestor, hproper.1, hproper.2, ?_⟩
    rcases howner with howner | howner
    · exact List.mem_append_left _
        (mem_methodsByOwnerAndName_iff.mpr ⟨member, hmember, howner, hname⟩)
    · apply List.mem_append_right
      rw [hconsistent.ownerNameById_iff.mpr howner, Option.elim_some]
      exact mem_methodsByOwnerNameAndName_iff.mpr ⟨member, hmember, rfl, hname⟩

theorem mem_ownerByMethod_iff {methodId id : Int} :
    id ∈ support.ownerByMethod methodId ↔ id ∈ support.owners methodId := by
  unfold ownerByMethod
  simp only [List.mem_map, List.mem_filter, decide_eq_true_eq, and_assoc]
  rfl

theorem uniqueOwner_iff (hconsistent : support.Consistent) {methodId owner : Int} :
    support.uniqueOwner methodId = some owner ↔
      support.Selects (support.owners methodId) owner := by
  have hnamed : ∀ id ∈ sortedDistinct (support.ownerByMethod methodId),
      ∃ name, (id, name) ∈ support.nodeNames := by
    intro id hid
    obtain ⟨member, hmember, -, rfl⟩ := mem_ownerByMethod_iff.mp (mem_sortedDistinct.mp hid)
    exact ⟨member.ownerName, hconsistent.owners member hmember⟩
  have hset : {id | id ∈ sortedDistinct (support.ownerByMethod methodId)} =
      support.owners methodId := by
    ext id
    exact mem_sortedDistinct.trans mem_ownerByMethod_iff
  have hsorted : sortedIds (sortedDistinct (support.ownerByMethod methodId)) =
      sortedDistinct (support.ownerByMethod methodId) :=
    (List.pairwise_insertionSort _ _).insertionSort_eq
  have hselect : (if (sortedDistinct (support.ownerByMethod methodId)).length = 1 ∨
      support.nameCount (sortedDistinct (support.ownerByMethod methodId)) = 1 then
        (sortedIds (sortedDistinct (support.ownerByMethod methodId))).head? else none) =
          some owner ↔ _ := head?_if_one_iff hconsistent nodup_sortedDistinct hnamed
  rw [hset, hsorted] at hselect
  rw [← hselect]
  unfold uniqueOwner
  simp only [Bool.or_eq_true, decide_eq_true_eq]

/-- The code selects what the description says. -/
theorem resolveOverride_iff (hconsistent : support.Consistent) (hnamed : support.Named)
    (flags : ResolutionFlags) (row : Tables.UnresolvedOverrideRow) {target : Int} :
    (support.resolveOverride flags row).selected.map (·.1) = some target ↔
      support.Overrides row target := by
  unfold resolveOverride Overrides
  dsimp only
  cases ownerNameFromMemberName row.sourceName with
  | some ownerName =>
    dsimp only
    have hset : {id | id ∈ sortedDistinct (support.collectOverrideCandidatesByOwnerName ownerName
        (shortMemberName row.sourceName))} =
          support.overriddenByName ownerName (shortMemberName row.sourceName) := by
      ext id
      exact mem_sortedDistinct.trans mem_collectByOwnerName_iff
    rw [← hset]
    apply selected_iff hconsistent nodup_sortedDistinct
    intro id hid
    obtain ⟨member, hmember, -, -, rfl⟩ := mem_collectByOwnerName_iff.mp (mem_sortedDistinct.mp hid)
    exact hnamed member hmember
  | none =>
    dsimp only
    cases howner : support.uniqueOwner row.sourceId with
    | none =>
      constructor
      · intro h
        cases h
      · rintro ⟨owner, hselects, -⟩
        rw [(uniqueOwner_iff hconsistent).mpr hselects] at howner
        cases howner
    | some owner =>
      have hselects := (uniqueOwner_iff hconsistent).mp howner
      have honly : ∀ other, support.Selects (support.owners row.sourceId) other → other = owner :=
        fun other hother => hother.1.unique hselects.1
      dsimp only
      split
      · rename_i hzero
        constructor
        · intro h
          cases h
        · rintro ⟨other, hother, hne, -⟩
          exact absurd (honly other hother ▸ hzero) hne
      · rename_i hne
        have hset : {id | id ∈ support.collectOverrideCandidates owner
            (shortMemberName row.sourceName)} =
              support.overriddenById owner (shortMemberName row.sourceName) := by
          ext id
          exact mem_collectOverrideCandidates_iff hconsistent
        have hiff : (selection flags (support.narrowed (support.collectOverrideCandidates owner
            (shortMemberName row.sourceName)))).selected.map (·.1) = some target ↔
              support.Selects (support.overriddenById owner (shortMemberName row.sourceName))
                target := by
          rw [← hset]
          apply selected_iff hconsistent (Worklist.nodup_collectFrom _ _ _)
          intro id hid
          obtain ⟨-, -, member, hmember, -, -, rfl⟩ :=
            (mem_collectOverrideCandidates_iff hconsistent).mp hid
          exact hnamed member hmember
        rw [hiff]
        constructor
        · intro h
          exact ⟨owner, hselects, hne, h⟩
        · rintro ⟨other, hother, -, h⟩
          rw [honly other hother] at h
          exact h

theorem Named.reordered {other : OverrideSupport} (h : support.Named)
    (hsame : support.Reordered other) : other.Named := by
  intro member hmember
  obtain ⟨name, hname⟩ := h member (hsame.members.mem_iff.mpr hmember)
  exact ⟨name, hsame.nodeNames.mem_iff.mp hname⟩

end OverrideSupport

theorem Tables.named_loadOverrideSupport (tables : Tables) : tables.loadOverrideSupport.Named := by
  intro member hmember
  obtain ⟨edge, -, hrow⟩ := List.mem_filterMap.mp hmember
  unfold overrideMemberRow at hrow
  split at hrow
  · split at hrow
    · rename_i owner method _ hmethod
      split at hrow
      · obtain rfl := Option.some.inj hrow
        refine ⟨method.serializedName, ?_⟩
        have hin := (KeyedTable.lookup_eq_some_iff.mp hmethod).1
        exact List.mem_map_of_mem (f := fun node : Node => (node.id, node.serializedName)) hin
      · cases hrow
    · cases hrow
  · cases hrow

/-- The target of a prepared override edge is what is computed for its row. -/
theorem ResolutionPass.overrideEdge_resolvedTarget {P : Type} (pass : ResolutionPass P)
    (prepared : P) {scope : ScopeCallerContext} {tables : Tables} {edge : Edge} {source : Node}
    (hkind : edge.kind = .overrideEdge) (hscope : scope.covers edge = true)
    (hsource : tables.node.lookup edge.source = some source) :
    (pass.overrideEdge prepared scope tables edge).resolvedTarget =
      (pass.computeOverrideResolution prepared
        ⟨edge.id, edge.source, source.serializedName⟩).selected.map (·.1) := by
  have hcovers : scope.covers (prepareOverride scope edge) = true := by
    rw [← hscope]
    cases scope with
    | unscoped => rfl
    | empty => rfl
    | scopedCallers callerIds =>
      unfold prepareOverride
      split <;> rfl
  have hprepared : prepareOverride scope edge =
      { edge with resolvedSource := some edge.source, resolvedTarget := none, confidence := none,
                  certainty := none, candidateTargets := none } := by
    unfold prepareOverride
    rw [if_pos ⟨hkind, hscope⟩]
  unfold overrideEdge
  dsimp only
  rw [hprepared] at hcovers ⊢
  have hrow : tables.overrideRow scope
      { edge with resolvedSource := some edge.source, resolvedTarget := none, confidence := none,
                  certainty := none, candidateTargets := none } =
        some ⟨edge.id, edge.source, source.serializedName⟩ := by
    unfold Tables.overrideRow
    rw [if_pos ⟨hkind, rfl, hcovers⟩]
    dsimp only
    rw [hsource]
    rfl
  rw [hrow]
  unfold resolveRow buildResolvedEdgeUpdate
  dsimp only
  cases (pass.computeOverrideResolution prepared
      ⟨edge.id, edge.source, source.serializedName⟩).selected with
  | none => rfl
  | some selected => rfl

/-- With the support of any tables, its rows in any order, an override edge in scope gets the
target that the description names, and none when it names none. -/
theorem override_resolution_is_exact (resolver : Resolver) (flags : ResolutionFlags)
    {loaded : Tables} {prepared : PreparedResolutionState}
    (hload : loaded.loadOverrideSupport.Reordered prepared.overrideSupport)
    (scope : ScopeCallerContext) {tables : Tables} {edge : Edge} {source : Node}
    (hedge : tables.edge.lookup edge.id = some edge) (hkind : edge.kind = .overrideEdge)
    (hscope : scope.covers edge = true) (hsource : tables.node.lookup edge.source = some source) :
    ∃ resolved,
      ((resolver.pass flags).resolveOverrides prepared scope tables).edge.lookup edge.id =
        some resolved ∧
      ∀ target, resolved.resolvedTarget = some target ↔
        loaded.loadOverrideSupport.Overrides ⟨edge.id, edge.source, source.serializedName⟩
          target := by
  have hin : edge ∈ tables.edge.rows := (KeyedTable.lookup_eq_some_iff.mp hedge).1
  refine ⟨(resolver.pass flags).overrideEdge prepared scope tables edge, ?_, ?_⟩
  · apply KeyedTable.lookup_eq_some_iff.mpr
    constructor
    · rw [ResolutionPass.resolveOverrides_rows]
      exact List.mem_map_of_mem hin
    · exact id_of_erase ((resolver.pass flags).overrideEdge_erase prepared scope tables edge)
  · intro target
    rw [(resolver.pass flags).overrideEdge_resolvedTarget prepared hkind hscope hsource]
    have hcompute := OverrideSupport.resolveOverride_reordered hload
      loaded.consistent_loadOverrideSupport flags ⟨edge.id, edge.source, source.serializedName⟩
    have hselected : ((resolver.pass flags).computeOverrideResolution prepared
        ⟨edge.id, edge.source, source.serializedName⟩).selected =
          (loaded.loadOverrideSupport.resolveOverride flags
            ⟨edge.id, edge.source, source.serializedName⟩).selected := hcompute.symm
    rw [hselected]
    exact OverrideSupport.resolveOverride_iff loaded.consistent_loadOverrideSupport
      loaded.named_loadOverrideSupport flags _

section Inputs
open Storage

/-- Types that derive from a base type with a method `run`; the same method is a member of each
type. -/
def derivedTables (types : List (Int × String)) : Tables where
  node := KeyedTable.empty.upsertAll
    ([plainNode 3 .classNode "Base", plainNode 10 .methodNode "run",
        plainNode 30 .methodNode "run"] ++
      types.map fun (id, name) => plainNode id .classNode name)
  edge := KeyedTable.empty.insertAll
    ([plainEdge 40 10 10 .overrideEdge, plainEdge 41 3 30 .memberEdge] ++
      types.flatMap fun (id, _) =>
        [plainEdge (100 + id) id 10 .memberEdge, plainEdge (200 + id) id 3 .inheritanceEdge])
  file := .empty
  error := []

def derivedResolved (types : List (Int × String)) : Tables :=
  (rustResolver.pass ⟨false, true, true⟩).resolveOverrides
    (.load rustResolver.languageFamily true (derivedTables types)) .unscoped (derivedTables types)

/-- One owner, or two of one name: the method of the base type. -/
theorem equally_named_owners_resolve :
    (∃ resolved, (derivedResolved [(1, "A")]).edge.lookup 40 = some resolved ∧
      ∀ target, resolved.resolvedTarget = some target ↔
        (derivedTables [(1, "A")]).loadOverrideSupport.Overrides ⟨40, 10, "run"⟩ target) ∧
      ((derivedResolved [(1, "A")]).edge.lookup 40).map (·.resolvedTarget) = some (some 30) ∧
      ((derivedResolved [(1, "A"), (2, "A")]).edge.lookup 40).map (·.resolvedTarget) =
        some (some 30) := by
  refine ⟨?_, by decide +kernel, by decide +kernel⟩
  have hedge : (derivedTables [(1, "A")]).edge.lookup (plainEdge 40 10 10 .overrideEdge).id =
      some (plainEdge 40 10 10 .overrideEdge) := by decide
  have hsource : (derivedTables [(1, "A")]).node.lookup (plainEdge 40 10 10 .overrideEdge).source =
      some (plainNode 10 .methodNode "run") := by decide
  exact override_resolution_is_exact rustResolver ⟨false, true, true⟩
    ⟨.refl _, .refl _, .refl _, .refl _⟩ .unscoped hedge rfl rfl hsource

/-- Whichever of its two owners is taken, the method overrides one method; it stays unresolved
when the owners have different names. -/
theorem differently_named_owners_stay_unresolved :
    ((derivedTables [(1, "A"), (2, "B")]).loadOverrideSupport.owners 10).Nonempty ∧
      (∀ owner ∈ (derivedTables [(1, "A"), (2, "B")]).loadOverrideSupport.owners 10, ∀ id,
        id ∈ (derivedTables [(1, "A"), (2, "B")]).loadOverrideSupport.overriddenById owner "run" ↔
          id = 30) ∧
      ((derivedResolved [(1, "A"), (2, "B")]).edge.lookup 40).map (·.resolvedTarget) =
        some none := by
  have howners : (derivedTables [(1, "A"), (2, "B")]).loadOverrideSupport.ownerByMethod 10 =
      [1, 2] := by decide
  have hfound : ∀ owner ∈ [1, 2],
      (derivedTables [(1, "A"), (2, "B")]).loadOverrideSupport.collectOverrideCandidates owner
        "run" = [30] := by decide +kernel
  refine ⟨⟨1, ?_⟩, ?_, by decide +kernel⟩
  · apply OverrideSupport.mem_ownerByMethod_iff.mp
    rw [howners]
    exact List.mem_cons_self
  · intro owner howner id
    have hin := OverrideSupport.mem_ownerByMethod_iff.mpr howner
    rw [howners] at hin
    rw [← OverrideSupport.mem_collectOverrideCandidates_iff
      (Tables.consistent_loadOverrideSupport _), hfound owner hin]
    exact List.mem_singleton

end Inputs

end CodeStory.Graph
