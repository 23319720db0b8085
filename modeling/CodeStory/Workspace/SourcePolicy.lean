import CodeStory.Lib.Text
import CodeStory.Workspace.RefreshPlan

/-!
# Sources that the index policy leaves out

`source_inventory_with_policy_inner`, `carry_forward_verified_policy_exclusions` and
`revalidate_source_policy_exclusions` on a file tree without symbolic links that does not
change during the calls. The walk of `ignore` and the filters on it are given by what they let
through. A file is known by its size and by the hash of its bytes; the hash is absent when the
file cannot be read. Of a failure the place is kept.
-/

set_option autoImplicit false

namespace CodeStory.Workspace

open UnixPath

structure SourceTree extends FileSystem where
  size : List FileName → Nat
  contentHash : List FileName → Option String
  modificationTime : List FileName → Option Int

structure SourceIndexPolicy where
  policyVersion : String
  byteCap : Nat
  structuralUnitCap : Nat
  deriving DecidableEq, Repr

structure OversizedSourceExclusionCandidate where
  normalizedPath : String
  contentHash : String
  observedSize : Nat
  observedUnitCount : Nat
  policyVersion : String
  byteCap : Nat
  structuralUnitCap : Nat
  deriving DecidableEq, Repr

def SourceIndexPolicy.isValid (policy : SourceIndexPolicy) : Bool :=
  policy.byteCap ≠ 0 && policy.structuralUnitCap ≠ 0 && !Text.isBlank policy.policyVersion

/-- What `ignore` and the filters of `source_inventory_inner` yield below the source paths.
These are absolute, the project root being canonical, and so is every entry below them. -/
structure SourceWalk where
  candidates : List UnixPath
  absolute : ∀ path ∈ candidates, path.absolute = true
  issues : List UnixPath
  inspectedSourceRoots : Nat

section Files
variable (tree : SourceTree)

def currentContentIdentity (path : UnixPath) : Option (String × Nat) :=
  match tree.metadata path with
  | .error _ => none
  | .ok _ =>
    (tree.contentHash (path.locate tree.cwd)).map fun hash =>
      (hash, tree.size (path.locate tree.cwd))

/-- The tree as a refresh plan sees it. -/
def SourceTree.view : FileView where
  canonicalize cs := (tree.canonicalize (ofComponents cs)).toOption
  modificationTimeMillis cs :=
    match tree.metadata (ofComponents cs) with
    | .error _ => none
    | .ok _ => tree.modificationTime ((ofComponents cs).locate tree.cwd)
  currentContentHash cs := (currentContentIdentity tree (ofComponents cs)).map (·.1)

def workspaceRoot (rootDir : UnixPath) : UnixPath :=
  match tree.canonicalize rootDir with
  | .ok resolved => resolved
  | .error _ => normalizeLexicalPath rootDir

inductive PolicyPathFault where
  | escapes
  | invalid
  deriving DecidableEq, Repr

/-- `str::replace` of the backslashes. -/
def forwardSlashes (text : String) : String :=
  String.ofList (text.toList.map fun c => if c = '\\' then '/' else c)

def normalizedPolicyPath (root path : UnixPath) : Except PolicyPathFault String :=
  match workspaceRelativePath tree.toFileSystem root path with
  | none => .error .escapes
  | some relative =>
    let relative := forwardSlashes relative.text
    if relative = "" ∨ relative.toList.head? = some '/' ∨ ".." ∈ splitText relative then
      .error .invalid
    else .ok relative

end Files

section Discovery
variable (tree : SourceTree) (root : UnixPath)

def pushDiscoveredFile (s : List UnixPath × List String) (path : UnixPath) :
    List UnixPath × List String :=
  let normalized := normalizeLexicalPath path
  let key := normalizedCompareKey tree.view root normalized
  if key ∈ s.2 then s else (s.1 ++ [normalized], s.2 ++ [key])

/-- The order of components: the root, `.`, `..`, then names. -/
def Component.rank : Component → Nat × String
  | .rootDir => (0, "")
  | .curDir => (1, "")
  | .parentDir => (2, "")
  | .normal n => (3, n.text)

def ranksLe : List (Nat × String) → List (Nat × String) → Bool
  | [], _ => true
  | _ :: _, [] => false
  | (rank, text) :: rest, (rank', text') :: rest' =>
    rank < rank' || (rank = rank' && (text < text' || (text = text' && ranksLe rest rest')))

/-- `Vec<PathBuf>::sort` -/
def sortPaths (paths : List UnixPath) : List UnixPath :=
  paths.insertionSort fun left right =>
    ranksLe (left.components.map Component.rank) (right.components.map Component.rank) = true

/-- The files of `source_inventory_inner`, without a bound on their number. -/
def discoveredFiles (walk : SourceWalk) : List UnixPath :=
  sortPaths (walk.candidates.foldl (pushDiscoveredFile tree root) ([], [])).1

def walkOutcome (walk : SourceWalk) : WorkspaceInventoryOutcome :=
  if walk.issues = [] then .complete
  else if walk.inspectedSourceRoots = 0 then .unreadable
  else .partially

end Discovery

inductive PolicyIssue where
  | discovery
  | inspect
  | path (fault : PolicyPathFault)
  | verify
  deriving DecidableEq, Repr

structure WorkspacePolicyFileInventory where
  files : List UnixPath
  policyExclusions : List OversizedSourceExclusionCandidate
  outcome : WorkspaceInventoryOutcome
  issues : List (UnixPath × PolicyIssue)

def sortExclusions (candidates : List OversizedSourceExclusionCandidate) :
    List OversizedSourceExclusionCandidate :=
  candidates.insertionSort fun left right => left.normalizedPath ≤ right.normalizedPath

section Classify
variable (tree : SourceTree) (root : UnixPath) (policy : SourceIndexPolicy)

/-- One turn of the loop of `source_inventory_with_policy_inner`. -/
def classifyStep (s : WorkspacePolicyFileInventory) (path : UnixPath) :
    WorkspacePolicyFileInventory :=
  match tree.metadata path with
  | .error _ =>
    { s with files := s.files ++ [path], issues := s.issues ++ [(path, .inspect)] }
  | .ok _ =>
    if tree.size (path.locate tree.cwd) ≤ policy.byteCap then
      { s with files := s.files ++ [path] }
    else
      match normalizedPolicyPath tree root path with
      | .error fault =>
        { s with files := s.files ++ [path], issues := s.issues ++ [(path, .path fault)] }
      | .ok normalizedPath =>
        match currentContentIdentity tree path with
        | none => { s with files := s.files ++ [path], issues := s.issues ++ [(path, .verify)] }
        | some (contentHash, observedSize) =>
          if observedSize ≤ policy.byteCap then { s with files := s.files ++ [path] }
          else
            { s with policyExclusions := s.policyExclusions ++
              [⟨normalizedPath, contentHash, observedSize, 0, policy.policyVersion,
                policy.byteCap, policy.structuralUnitCap⟩] }

def sourceInventoryWithPolicy (walk : SourceWalk) : Option WorkspacePolicyFileInventory :=
  if policy.isValid = false then none
  else if walkOutcome walk ≠ .complete then
    some ⟨discoveredFiles tree root walk, [], walkOutcome walk,
      walk.issues.map fun path => (path, .discovery)⟩
  else
    let classified := (discoveredFiles tree root walk).foldl (classifyStep tree root policy)
      ⟨[], [], .complete, []⟩
    some { classified with
      policyExclusions := sortExclusions classified.policyExclusions
      outcome := if classified.issues = [] then .complete else .partially }

end Classify

section Revalidate
variable (tree : SourceTree) (root : UnixPath) (policy : SourceIndexPolicy)

inductive RevalidationError where
  | policy
  | mismatch (normalizedPath : String)
  | path (fault : PolicyPathFault)
  | pathChanged (normalizedPath changed : String)
  | unreadable (normalizedPath : String)
  | contentChanged (normalizedPath : String)
  deriving DecidableEq, Repr

/-- One turn of the loop of `revalidate_source_policy_exclusions`. -/
def revalidateOne (previousPath : Option String)
    (candidate : OversizedSourceExclusionCandidate) : Except RevalidationError Unit :=
  if candidate.policyVersion ≠ policy.policyVersion ∨ candidate.byteCap ≠ policy.byteCap ∨
      candidate.structuralUnitCap ≠ policy.structuralUnitCap ∨
      previousPath = some candidate.normalizedPath then
    .error (.mismatch candidate.normalizedPath)
  else
    let path := root.join (ofText candidate.normalizedPath)
    match normalizedPolicyPath tree root path with
    | .error fault => .error (.path fault)
    | .ok normalizedPath =>
      if normalizedPath ≠ candidate.normalizedPath then
        .error (.pathChanged candidate.normalizedPath normalizedPath)
      else
        match currentContentIdentity tree path with
        | none => .error (.unreadable candidate.normalizedPath)
        | some (contentHash, observedSize) =>
          let byteBound := policy.byteCap < observedSize ∧ candidate.observedUnitCount = 0
          let unitBound := policy.structuralUnitCap < candidate.observedUnitCount ∧
            observedSize ≤ policy.byteCap
          if contentHash ≠ candidate.contentHash ∨ observedSize ≠ candidate.observedSize ∨
              ¬ (byteBound ∨ unitBound) then
            .error (.contentChanged candidate.normalizedPath)
          else .ok ()

def revalidateAll : Option String → List OversizedSourceExclusionCandidate →
    Except RevalidationError Unit
  | _, [] => .ok ()
  | previousPath, candidate :: rest =>
    match revalidateOne tree root policy previousPath candidate with
    | .error error => .error error
    | .ok _ => revalidateAll (some candidate.normalizedPath) rest

def revalidateSourcePolicyExclusions (candidates : List OversizedSourceExclusionCandidate) :
    Except RevalidationError (List OversizedSourceExclusionCandidate) :=
  if policy.isValid = false then .error .policy
  else
    let verified := sortExclusions candidates
    match revalidateAll tree root policy none verified with
    | .error error => .error error
    | .ok _ => .ok verified

end Revalidate

/-- `Vec::swap_remove` -/
def swapRemove {α : Type} (items : List α) (position : Nat) : List α :=
  match items.getLast? with
  | none => []
  | some last => (items.set position last).dropLast

section CarryForward
variable (tree : SourceTree) (root : UnixPath) (policy : SourceIndexPolicy)

structure CarriedFiles where
  files : List UnixPath
  policyExclusions : List OversizedSourceExclusionCandidate
  currentPolicyPaths : List String

/-- One turn of the loop of `carry_forward_verified_policy_exclusions`. -/
def carryStep (s : CarriedFiles) (candidate : OversizedSourceExclusionCandidate) :
    CarriedFiles :=
  if candidate.normalizedPath ∈ s.currentPolicyPaths ∨ candidate.observedUnitCount = 0 ∨
      (revalidateSourcePolicyExclusions tree root policy [candidate]).isOk = false then s
  else
    let candidateKey := normalizedCompareKey tree.view root
      (root.join (ofText candidate.normalizedPath))
    match s.files.findIdx? fun path =>
        decide (normalizedCompareKey tree.view root path = candidateKey) with
    | none => s
    | some position =>
      ⟨swapRemove s.files position, s.policyExclusions ++ [candidate],
        s.currentPolicyPaths ++ [candidate.normalizedPath]⟩

def carryForwardVerifiedPolicyExclusions
    (published : List OversizedSourceExclusionCandidate)
    (inventory : WorkspacePolicyFileInventory) : WorkspacePolicyFileInventory :=
  if inventory.outcome ≠ .complete ∨ published = [] then inventory
  else
    let carried := published.foldl (carryStep tree root policy)
      ⟨inventory.files, inventory.policyExclusions,
        inventory.policyExclusions.map (·.normalizedPath)⟩
    { inventory with
      files := sortPaths carried.files
      policyExclusions := sortExclusions carried.policyExclusions }

end CarryForward

section Refresh
variable (tree : SourceTree) (rootDir : UnixPath) (policy : SourceIndexPolicy)

/-- The inventory that a policy-aware refresh plans from. -/
def policyInventory (walk : SourceWalk) (published : List OversizedSourceExclusionCandidate) :
    Option WorkspacePolicyFileInventory :=
  let root := workspaceRoot tree rootDir
  (sourceInventoryWithPolicy tree root policy walk).map
    (carryForwardVerifiedPolicyExclusions tree root policy published)

structure WorkspacePolicyRefreshOutcome where
  plan : RefreshPlan
  inventoryOutcome : WorkspaceInventoryOutcome
  policyExclusions : List OversizedSourceExclusionCandidate

/-- The stored files come in the order in which their map yields them. -/
def buildRefreshOutcomeWithIndexPolicy (walk : SourceWalk)
    (published : List OversizedSourceExclusionCandidate) (values : List StoredFileState) :
    Option WorkspacePolicyRefreshOutcome :=
  (policyInventory tree rootDir policy walk published).map fun inventory =>
    ⟨buildRefreshOutcomeFromInventory tree.view rootDir values inventory.files inventory.outcome,
      inventory.outcome, inventory.policyExclusions⟩

end Refresh

end CodeStory.Workspace
