import CodeStory.Graph.Resolution
import CodeStory.Lib.Worklist
import Mathlib.Data.List.Sort
import Mathlib.Data.List.Dedup

/-!
# What overrides are resolved from

The support is four lists of rows; the hash maps of the source group them by key and are read
here through the functions that look a key up. Which override a method has is found by
following inheritance from its owner. The rows come back from a snapshot in the order of a
hash map, so what matters is that the selected target does not depend on their order.
-/

set_option autoImplicit false

namespace CodeStory.Graph

structure OverrideMember where
  ownerId : Int
  ownerName : String
  methodId : Int
  methodName : String
deriving DecidableEq

structure OverrideSupport where
  members : List OverrideMember
  inheritance : List (Int × Int)
  inheritanceByName : List (String × String)
  nodeNames : List (Int × String)
deriving DecidableEq

/-! ## Names of members -/

/-- The position of the last occurrence. -/
def lastIndexOf (part text : List Char) : Option Nat :=
  ((List.range (text.length + 1)).filter fun i => part.isPrefixOf (text.drop i)).getLast?

def shortMemberName (name : String) : String :=
  let text := name.toList
  let colon := ((lastIndexOf "::".toList text).map (· + 2)).getD 0
  let dot := ((lastIndexOf ".".toList text).map (· + 1)).getD 0
  String.ofList (text.drop (max colon dot))

def ownerNameFromMemberName (name : String) : Option String :=
  let text := name.toList
  match lastIndexOf "::".toList text, lastIndexOf ".".toList text with
  | some colon, some dot =>
    some (String.ofList (text.take (if colon + 1 > dot then colon else dot)))
  | some colon, none => some (String.ofList (text.take colon))
  | none, some dot => some (String.ofList (text.take dot))
  | none, none => none

/-! ## The maps -/

namespace OverrideSupport
variable (support : OverrideSupport)

def ownerByMethod (methodId : Int) : List Int :=
  (support.members.filter (·.methodId = methodId)).map (·.ownerId)

def methodsByOwnerAndName (ownerId : Int) (methodName : String) : List Int :=
  (support.members.filter fun member =>
    member.ownerId = ownerId && member.methodName = methodName).map (·.methodId)

def methodsByOwnerNameAndName (ownerName methodName : String) : List Int :=
  (support.members.filter fun member =>
    member.ownerName = ownerName && member.methodName = methodName).map (·.methodId)

/-- The first entry stays: owners of members come before the names of all nodes. -/
def ownerNameById (id : Int) : Option String :=
  ((support.members.find? (·.ownerId = id)).map (·.ownerName)).or
    ((support.nodeNames.find? (·.1 = id)).map (·.2))

/-! ## Selecting an override -/

def sortedIds (ids : List Int) : List Int := ids.insertionSort (· ≤ ·)

/-- `sort_unstable` followed by `dedup`. -/
def sortedDistinct (ids : List Int) : List Int := sortedIds ids.dedup

/-- How many names the ids go by. -/
def nameCount (ids : List Int) : Nat := (ids.filterMap support.ownerNameById).dedup.length

def collectOverrideCandidates (ownerId : Int) (methodName : String) : List Int :=
  Worklist.collectFrom support.inheritance
    (fun owner => support.methodsByOwnerAndName owner methodName ++
      (support.ownerNameById owner).elim [] (support.methodsByOwnerNameAndName · methodName))
    ownerId

def collectOverrideCandidatesByOwnerName (ownerName methodName : String) : List Int :=
  Worklist.collectFrom support.inheritanceByName
    (support.methodsByOwnerNameAndName · methodName) ownerName

/-- Several candidates of one name count as one. -/
def narrowed (candidates : List Int) : List Int :=
  if candidates.length > 1 && support.nameCount candidates = 1 then
    (sortedIds candidates).take 1
  else candidates

def selection (flags : ResolutionFlags) (candidates : List Int) : Selection where
  selected := if candidates.length = 1 then candidates.head?.map (·, 1) else none
  candidates := if flags.storeCandidates then candidates else []

/-- The owner of a method, if there is only one or they all go by one name. -/
def uniqueOwner (methodId : Int) : Option Int :=
  let owners := sortedDistinct (support.ownerByMethod methodId)
  if owners.length = 1 || support.nameCount owners = 1 then owners.head? else none

def resolveOverride (flags : ResolutionFlags) (row : Tables.UnresolvedOverrideRow) : Selection :=
  let methodName := shortMemberName row.sourceName
  match ownerNameFromMemberName row.sourceName with
  | some ownerName =>
    selection flags (support.narrowed
      (sortedDistinct (support.collectOverrideCandidatesByOwnerName ownerName methodName)))
  | none =>
    match support.uniqueOwner row.sourceId with
    | none => ⟨none, []⟩
    | some ownerId =>
      if ownerId = 0 then ⟨none, []⟩
      else
        selection flags (support.narrowed (support.collectOverrideCandidates ownerId methodName))

/-! ## Independence of the order -/

/-- Every owner of a member is named as the node it is, and no node has two names. -/
structure Consistent (support : OverrideSupport) : Prop where
  names : (support.nodeNames.map (·.1)).Nodup
  owners : ∀ member ∈ support.members, (member.ownerId, member.ownerName) ∈ support.nodeNames

/-- The same rows in another order. -/
structure Reordered (support other : OverrideSupport) : Prop where
  members : support.members.Perm other.members
  inheritance : support.inheritance.Perm other.inheritance
  inheritanceByName : support.inheritanceByName.Perm other.inheritanceByName
  nodeNames : support.nodeNames.Perm other.nodeNames

variable {support} {other : OverrideSupport}

theorem Reordered.symm (h : support.Reordered other) : other.Reordered support where
  members := h.members.symm
  inheritance := h.inheritance.symm
  inheritanceByName := h.inheritanceByName.symm
  nodeNames := h.nodeNames.symm

theorem Consistent.reordered (h : support.Consistent) (hsame : support.Reordered other) :
    other.Consistent where
  names := (hsame.nodeNames.map _).nodup_iff.mp h.names
  owners := by
    intro member hmember
    exact hsame.nodeNames.mem_iff.mp (h.owners member (hsame.members.mem_iff.mpr hmember))

/-- In a consistent support a name is the one of the node. -/
theorem Consistent.ownerNameById_iff (h : support.Consistent) {id : Int} {name : String} :
    support.ownerNameById id = some name ↔ (id, name) ∈ support.nodeNames := by
  have hunique : ∀ a b, (id, a) ∈ support.nodeNames → (id, b) ∈ support.nodeNames → a = b := by
    intro a b ha hb
    have hpair := List.inj_on_of_nodup_map h.names ha hb rfl
    exact congrArg Prod.snd hpair
  unfold ownerNameById
  cases hmember : support.members.find? (·.ownerId = id) with
  | some member =>
    obtain rfl : member.ownerId = id := of_decide_eq_true (List.find?_some hmember :)
    have hin := h.owners member (List.mem_of_find?_eq_some hmember)
    constructor
    · intro hname
      obtain rfl : member.ownerName = name := by simpa using hname
      exact hin
    · intro hname
      simp [hunique _ _ hin hname]
  | none =>
    cases hnode : support.nodeNames.find? (·.1 = id) with
    | some entry =>
      obtain rfl : entry.1 = id := of_decide_eq_true (List.find?_some hnode :)
      have hin := List.mem_of_find?_eq_some hnode
      constructor
      · intro hname
        obtain rfl : entry.2 = name := by simpa using hname
        exact hin
      · intro hname
        simp [hunique entry.2 name hin hname]
    | none =>
      constructor
      · intro hname
        simp at hname
      · intro hname
        have hother := List.find?_eq_none.mp hnode _ hname
        simp at hother

theorem ownerNameById_reordered (h : support.Consistent) (hsame : support.Reordered other) :
    other.ownerNameById = support.ownerNameById := by
  funext id
  apply Option.ext
  intro name
  rw [(h.reordered hsame).ownerNameById_iff, h.ownerNameById_iff, hsame.nodeNames.mem_iff]

theorem sortedIds_eq_of_perm {ids ids' : List Int} (h : ids.Perm ids') :
    sortedIds ids = sortedIds ids' := by
  have hperm : (sortedIds ids).Perm (sortedIds ids') :=
    ((List.perm_insertionSort _ _).trans h).trans (List.perm_insertionSort _ _).symm
  exact hperm.eq_of_pairwise (fun _ _ _ _ => Int.le_antisymm) (List.pairwise_insertionSort _ ids)
    (List.pairwise_insertionSort _ ids')

theorem sortedDistinct_congr {ids ids' : List Int} (h : ∀ id, id ∈ ids ↔ id ∈ ids') :
    sortedDistinct ids = sortedDistinct ids' := by
  apply sortedIds_eq_of_perm
  apply (List.perm_ext_iff_of_nodup (List.nodup_dedup _) (List.nodup_dedup _)).mpr
  simpa only [List.mem_dedup] using h

theorem nameCount_perm {ids ids' : List Int} (hnames : other.ownerNameById = support.ownerNameById)
    (h : ids.Perm ids') : support.nameCount ids = other.nameCount ids' := by
  unfold nameCount
  rw [hnames]
  exact (h.filterMap _).dedup.length_eq

/-- Candidates in another order: the same selection. -/
theorem selected_perm (flags : ResolutionFlags)
    (hnames : other.ownerNameById = support.ownerNameById) {ids ids' : List Int}
    (h : ids.Perm ids') :
    (selection flags (support.narrowed ids)).selected =
      (selection flags (other.narrowed ids')).selected := by
  unfold narrowed
  rw [nameCount_perm hnames h, h.length_eq, sortedIds_eq_of_perm h]
  split
  · rfl
  · unfold selection
    dsimp only
    rw [h.length_eq]
    split
    · rename_i hlength
      obtain ⟨id, rfl⟩ := List.length_eq_one_iff.mp hlength
      rw [List.perm_singleton.mp h]
    · rfl

section Reorder
variable (hsame : support.Reordered other)
include hsame

theorem mem_ownerByMethod_reordered (methodId id : Int) :
    id ∈ support.ownerByMethod methodId ↔ id ∈ other.ownerByMethod methodId :=
  ((hsame.members.filter _).map _).mem_iff

theorem mem_methodsByOwnerAndName_reordered (ownerId : Int) (methodName : String) (id : Int) :
    id ∈ support.methodsByOwnerAndName ownerId methodName ↔
      id ∈ other.methodsByOwnerAndName ownerId methodName :=
  ((hsame.members.filter _).map _).mem_iff

theorem mem_methodsByOwnerNameAndName_reordered (ownerName methodName : String) (id : Int) :
    id ∈ support.methodsByOwnerNameAndName ownerName methodName ↔
      id ∈ other.methodsByOwnerNameAndName ownerName methodName :=
  ((hsame.members.filter _).map _).mem_iff

theorem collectByOwnerName_reordered (ownerName methodName : String) (id : Int) :
    id ∈ support.collectOverrideCandidatesByOwnerName ownerName methodName ↔
      id ∈ other.collectOverrideCandidatesByOwnerName ownerName methodName := by
  apply List.Perm.mem_iff
  apply Worklist.collectFrom_perm
  · intro row
    exact hsame.inheritanceByName.mem_iff
  · intro owner id
    exact mem_methodsByOwnerNameAndName_reordered hsame owner methodName id

theorem collect_reordered (h : support.Consistent) (ownerId : Int) (methodName : String) :
    (support.collectOverrideCandidates ownerId methodName).Perm
      (other.collectOverrideCandidates ownerId methodName) := by
  apply Worklist.collectFrom_perm
  · intro row
    exact hsame.inheritance.mem_iff
  · intro owner id
    rw [ownerNameById_reordered h hsame, List.mem_append, List.mem_append,
      mem_methodsByOwnerAndName_reordered hsame]
    cases support.ownerNameById owner with
    | none => rfl
    | some ownerName =>
      simp only [Option.elim_some, mem_methodsByOwnerNameAndName_reordered hsame]

theorem uniqueOwner_reordered (h : support.Consistent) (methodId : Int) :
    support.uniqueOwner methodId = other.uniqueOwner methodId := by
  have hnames := ownerNameById_reordered h hsame
  unfold uniqueOwner
  dsimp only
  rw [sortedDistinct_congr (mem_ownerByMethod_reordered hsame methodId),
    nameCount_perm hnames (List.Perm.refl _)]

/-- The selected override does not depend on the order of the rows. -/
theorem resolveOverride_reordered (h : support.Consistent) (flags : ResolutionFlags)
    (row : Tables.UnresolvedOverrideRow) :
    (support.resolveOverride flags row).selected = (other.resolveOverride flags row).selected := by
  have hnames := ownerNameById_reordered h hsame
  unfold resolveOverride
  dsimp only
  cases ownerNameFromMemberName row.sourceName with
  | some ownerName =>
    dsimp only
    rw [sortedDistinct_congr (collectByOwnerName_reordered hsame ownerName
      (shortMemberName row.sourceName))]
    exact selected_perm flags hnames (List.Perm.refl _)
  | none =>
    dsimp only
    rw [uniqueOwner_reordered hsame h]
    cases other.uniqueOwner row.sourceId with
    | none => rfl
    | some ownerId =>
      dsimp only
      split
      · rfl
      · exact selected_perm flags hnames (collect_reordered hsame h ownerId _)

end Reorder

end OverrideSupport
end CodeStory.Graph
