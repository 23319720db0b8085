import Mathlib.Data.String.Basic
import CodeStory.Workspace.PolicyPath

/-!
# Classification and revalidation of left out sources

The exclusions of a complete inventory name the files they stand for, and revalidation accepts
them, exactly when no file above the byte cap has a backslash in its path below the root:
`normalized_policy_path` turns it into a separator, and what is written then is another path.
-/

set_option autoImplicit false

namespace CodeStory.Workspace

open UnixPath

section Revalidation
variable {tree : SourceTree} {root : UnixPath} {policy : SourceIndexPolicy}

/-- The candidate stands for a file of the tree, under the active policy. -/
structure ValidExclusion (tree : SourceTree) (root : UnixPath) (policy : SourceIndexPolicy)
    (candidate : OversizedSourceExclusionCandidate) : Prop where
  version : candidate.policyVersion = policy.policyVersion
  byteCap : candidate.byteCap = policy.byteCap
  unitCap : candidate.structuralUnitCap = policy.structuralUnitCap
  path : normalizedPolicyPath tree root (exclusionPath root candidate) =
    .ok candidate.normalizedPath
  identity : currentContentIdentity tree (exclusionPath root candidate) =
    some (candidate.contentHash, candidate.observedSize)
  bound : policy.byteCap < candidate.observedSize ∧ candidate.observedUnitCount = 0 ∨
    policy.structuralUnitCap < candidate.observedUnitCount ∧
      candidate.observedSize ≤ policy.byteCap

theorem revalidateOne_eq_ok {previousPath : Option String}
    {candidate : OversizedSourceExclusionCandidate} :
    revalidateOne tree root policy previousPath candidate = .ok () ↔
      previousPath ≠ some candidate.normalizedPath ∧
        ValidExclusion tree root policy candidate := by
  unfold revalidateOne
  constructor
  · intro h
    split at h
    · exact absurd h (by simp)
    · rename_i hpolicy
      obtain ⟨hversion, hbytes, hunits, hprevious⟩ :
          candidate.policyVersion = policy.policyVersion ∧ candidate.byteCap = policy.byteCap ∧
            candidate.structuralUnitCap = policy.structuralUnitCap ∧
            previousPath ≠ some candidate.normalizedPath := by
        simpa only [not_or, not_not] using hpolicy
      dsimp only at h
      split at h
      · exact absurd h (by simp)
      · rename_i normalizedPath hpath
        split at h
        · exact absurd h (by simp)
        · rename_i hsame
          obtain rfl := not_not.mp hsame
          split at h
          · exact absurd h (by simp)
          · rename_i contentHash observedSize hidentity
            split at h
            · exact absurd h (by simp)
            · rename_i hcontent
              obtain ⟨hhash, hsize, hbound⟩ : contentHash = candidate.contentHash ∧
                  observedSize = candidate.observedSize ∧
                  (policy.byteCap < observedSize ∧ candidate.observedUnitCount = 0 ∨
                    policy.structuralUnitCap < candidate.observedUnitCount ∧
                      observedSize ≤ policy.byteCap) := by
                rw [not_or, not_or, not_not, not_not, not_not] at hcontent
                exact hcontent
              subst hhash hsize
              exact ⟨hprevious, hversion, hbytes, hunits, hpath, hidentity, hbound⟩
  · rintro ⟨hprevious, hvalid⟩
    have hpath := hvalid.path
    have hidentity := hvalid.identity
    unfold exclusionPath at hpath hidentity
    rw [if_neg (by simp [hvalid.version, hvalid.byteCap, hvalid.unitCap, hprevious])]
    dsimp only
    rw [hpath]
    dsimp only
    rw [if_neg (by simp), hidentity]
    dsimp only
    rw [if_neg]
    rintro (hhash | hsize | hbound)
    · exact hhash rfl
    · exact hsize rfl
    · exact hbound hvalid.bound

/-- The loop accepts valid candidates of which no two neighbours share a path. -/
theorem revalidateAll_eq_ok {candidates : List OversizedSourceExclusionCandidate}
    {previousPath : Option String} :
    revalidateAll tree root policy previousPath candidates = .ok () ↔
      (∀ candidate ∈ candidates, ValidExclusion tree root policy candidate) ∧
        (∀ candidate ∈ candidates.head?, previousPath ≠ some candidate.normalizedPath) ∧
        (candidates.map (·.normalizedPath)).IsChain (· ≠ ·) := by
  induction candidates generalizing previousPath with
  | nil => simp [revalidateAll]
  | cons candidate rest ih =>
    have hstep : revalidateAll tree root policy previousPath (candidate :: rest) = .ok () ↔
        revalidateOne tree root policy previousPath candidate = .ok () ∧
          revalidateAll tree root policy (some candidate.normalizedPath) rest = .ok () := by
      rw [revalidateAll]
      cases revalidateOne tree root policy previousPath candidate with
      | error error => simp
      | ok _ => simp
    rw [hstep, ih, revalidateOne_eq_ok]
    cases rest with
    | nil =>
      simp
      tauto
    | cons second rest =>
      simp only [List.forall_mem_cons, List.head?_cons, Option.mem_def, Option.some.injEq,
        forall_eq', List.map_cons, List.isChain_cons_cons, ne_eq]
      tauto

theorem mem_sortExclusions {candidates : List OversizedSourceExclusionCandidate}
    {candidate : OversizedSourceExclusionCandidate} :
    candidate ∈ sortExclusions candidates ↔ candidate ∈ candidates :=
  List.mem_insertionSort _

theorem perm_sortExclusions (candidates : List OversizedSourceExclusionCandidate) :
    (sortExclusions candidates).Perm candidates :=
  List.perm_insertionSort _ _

theorem sorted_sortExclusions (candidates : List OversizedSourceExclusionCandidate) :
    ((sortExclusions candidates).map (·.normalizedPath)).Pairwise (· ≤ ·) := by
  unfold sortExclusions
  rw [List.map_insertionSort _ (· ≤ ·) _ _ fun _ _ _ _ => Iff.rfl]
  exact List.pairwise_insertionSort _ _

/-- In a sorted list equal elements are neighbours. -/
theorem nodup_of_sorted {texts : List String} (hsorted : texts.Pairwise (· ≤ ·))
    (hchain : texts.IsChain (· ≠ ·)) : texts.Nodup := by
  induction texts with
  | nil => exact List.nodup_nil
  | cons first rest ih =>
    obtain ⟨hfirst, hrest⟩ := List.pairwise_cons.mp hsorted
    refine List.nodup_cons.mpr ⟨?_, ih hrest hchain.tail⟩
    cases rest with
    | nil => exact List.not_mem_nil
    | cons second rest =>
      have hlt : first < second :=
        lt_of_le_of_ne (hfirst second List.mem_cons_self) (List.isChain_cons_cons.mp hchain).1
      intro hmem
      rcases List.mem_cons.mp hmem with heq | hmem
      · exact absurd heq hlt.ne
      · exact absurd ((List.pairwise_cons.mp hrest).1 first hmem) (not_le.mpr hlt)

/-- Revalidation accepts valid candidates with distinct paths. -/
theorem revalidate_isOk {candidates : List OversizedSourceExclusionCandidate} :
    (revalidateSourcePolicyExclusions tree root policy candidates).isOk = true ↔
      policy.isValid = true ∧
        (∀ candidate ∈ candidates, ValidExclusion tree root policy candidate) ∧
        (candidates.map (·.normalizedPath)).Nodup := by
  have hnodup : ((sortExclusions candidates).map (·.normalizedPath)).IsChain (· ≠ ·) ↔
      (candidates.map (·.normalizedPath)).Nodup := by
    rw [← ((perm_sortExclusions candidates).map (·.normalizedPath)).nodup_iff]
    constructor
    · intro hchain
      exact nodup_of_sorted (sorted_sortExclusions candidates) hchain
    · intro hnodup
      exact List.Pairwise.isChain hnodup
  have hall : revalidateAll tree root policy none (sortExclusions candidates) = .ok () ↔
      (∀ candidate ∈ candidates, ValidExclusion tree root policy candidate) ∧
        (candidates.map (·.normalizedPath)).Nodup := by
    rw [revalidateAll_eq_ok, hnodup]
    simp only [mem_sortExclusions, ne_eq, reduceCtorEq, not_false_eq_true, implies_true, true_and]
  rw [← hall]
  unfold revalidateSourcePolicyExclusions
  cases policy.isValid with
  | false => simp [Except.isOk, Except.toBool]
  | true =>
    rw [if_neg (by simp)]
    dsimp only
    cases revalidateAll tree root policy none (sortExclusions candidates) with
    | error error => simp [Except.isOk, Except.toBool]
    | ok _ => simp [Except.isOk, Except.toBool]

/-- A valid exclusion exceeds one of the bounds and not the other. -/
theorem ValidExclusion.xor_bound {candidate : OversizedSourceExclusionCandidate}
    (h : ValidExclusion tree root policy candidate) :
    Xor (policy.byteCap < candidate.observedSize)
      (policy.structuralUnitCap < candidate.observedUnitCount) := by
  rcases h.bound with ⟨hbytes, hunits⟩ | ⟨hunits, hbytes⟩
  · exact .inl ⟨hbytes, by omega⟩
  · exact .inr ⟨hunits, by omega⟩

end Revalidation

section Discovered
variable {tree : SourceTree} {root : UnixPath}

theorem perm_sortPaths (paths : List UnixPath) : (sortPaths paths).Perm paths :=
  List.perm_insertionSort _ _

/-- What the loop over the walk has pushed: absolute files with distinct keys. -/
theorem foldl_pushDiscoveredFile {candidates : List UnixPath} {s : List UnixPath × List String}
    (hcandidates : ∀ path ∈ candidates, path.absolute = true)
    (habsolute : ∀ path ∈ s.1, path.absolute = true)
    (hseen : s.2 = s.1.map (normalizedCompareKey tree.view root)) (hnodup : s.2.Nodup) :
    (∀ path ∈ (candidates.foldl (pushDiscoveredFile tree root) s).1, path.absolute = true) ∧
      ((candidates.foldl (pushDiscoveredFile tree root) s).1.map
        (normalizedCompareKey tree.view root)).Nodup := by
  induction candidates generalizing s with
  | nil =>
    rw [List.foldl_nil, ← hseen]
    exact ⟨habsolute, hnodup⟩
  | cons path rest ih =>
    rw [List.foldl_cons]
    have hrest : ∀ path ∈ rest, path.absolute = true :=
      fun path hpath => hcandidates path (List.mem_cons_of_mem _ hpath)
    unfold pushDiscoveredFile
    dsimp only
    split
    · exact ih hrest habsolute hseen hnodup
    · rename_i hnew
      apply ih hrest
      · intro other hother
        rcases List.mem_append.mp hother with hother | hother
        · exact habsolute other hother
        · rw [List.mem_singleton.mp hother, absolute_normalizeLexicalPath]
          exact hcandidates path List.mem_cons_self
      · rw [hseen, List.map_append]
        rfl
      · rw [List.nodup_append]
        refine ⟨hnodup, List.nodup_singleton _, ?_⟩
        rintro key hkey other hother rfl
        rw [List.mem_singleton.mp hother] at hkey
        exact hnew hkey

theorem discoveredFiles_spec (walk : SourceWalk) :
    (∀ path ∈ discoveredFiles tree root walk, path.absolute = true) ∧
      ((discoveredFiles tree root walk).map (normalizedCompareKey tree.view root)).Nodup := by
  obtain ⟨habsolute, hnodup⟩ := @foldl_pushDiscoveredFile tree root walk.candidates ([], [])
    walk.absolute (by simp) rfl List.nodup_nil
  unfold discoveredFiles
  refine ⟨?_, ?_⟩
  · intro path hpath
    exact habsolute path ((perm_sortPaths _).mem_iff.mp hpath)
  · exact ((perm_sortPaths _).map _).nodup_iff.mpr hnodup

end Discovered

section Classified
variable (tree : SourceTree) (root : UnixPath) (policy : SourceIndexPolicy)

/-- The exclusion that the classification makes of a file. -/
def exclusionOf (path : UnixPath) : Option OversizedSourceExclusionCandidate :=
  match tree.metadata path with
  | .error _ => none
  | .ok _ =>
    if tree.size (path.locate tree.cwd) ≤ policy.byteCap then none
    else
      match normalizedPolicyPath tree root path with
      | .error _ => none
      | .ok normalizedPath =>
        match currentContentIdentity tree path with
        | none => none
        | some (contentHash, observedSize) =>
          if observedSize ≤ policy.byteCap then none
          else some ⟨normalizedPath, contentHash, observedSize, 0, policy.policyVersion,
            policy.byteCap, policy.structuralUnitCap⟩

variable {tree root policy}

/-- The facts of an exclusion that was just made. -/
theorem exclusionOf_eq_some {path : UnixPath} {candidate : OversizedSourceExclusionCandidate}
    (h : exclusionOf tree root policy path = some candidate) :
    (∃ kind, tree.metadata path = .ok kind) ∧
      normalizedPolicyPath tree root path = .ok candidate.normalizedPath ∧
      currentContentIdentity tree path = some (candidate.contentHash, candidate.observedSize) ∧
      policy.byteCap < candidate.observedSize ∧ candidate.observedUnitCount = 0 ∧
      candidate.policyVersion = policy.policyVersion ∧ candidate.byteCap = policy.byteCap ∧
      candidate.structuralUnitCap = policy.structuralUnitCap := by
  unfold exclusionOf at h
  split at h
  · exact absurd h (by simp)
  · rename_i kind hkind
    split at h
    · exact absurd h (by simp)
    · split at h
      · exact absurd h (by simp)
      · rename_i normalizedPath hpath
        split at h
        · exact absurd h (by simp)
        · rename_i contentHash observedSize hidentity
          split at h
          · exact absurd h (by simp)
          · rename_i hsize
            obtain rfl := Option.some.inj h
            exact ⟨⟨kind, hkind⟩, hpath, hidentity, by simpa using hsize, rfl, rfl, rfl, rfl⟩

theorem identity_size {path : UnixPath} {contentHash : String} {observedSize : Nat}
    (h : currentContentIdentity tree path = some (contentHash, observedSize)) :
    observedSize = tree.size (path.locate tree.cwd) := by
  unfold currentContentIdentity at h
  split at h
  · exact absurd h (by simp)
  · obtain ⟨hash, -, heq⟩ := Option.map_eq_some_iff.mp h
    exact (Prod.mk.inj heq).2.symm

theorem identity_entry {path : UnixPath} {identity : String × Nat} (hpath : path.absolute = true)
    (h : currentContentIdentity tree path = some identity) :
    ∃ kind, tree.entry (path.locate tree.cwd) = .ok kind := by
  unfold currentContentIdentity at h
  rw [metadata_of_absolute hpath] at h
  split at h
  · exact absurd h (by simp)
  · rename_i kind hkind
    exact ⟨kind, hkind⟩

/-- A file that is kept is not above the cap, or it is an issue. -/
theorem classifyStep_cases (s : WorkspacePolicyFileInventory) (path : UnixPath) :
    (∃ candidate, exclusionOf tree root policy path = some candidate ∧
      classifyStep tree root policy s path =
        { s with policyExclusions := s.policyExclusions ++ [candidate] }) ∨
    (exclusionOf tree root policy path = none ∧ ∃ issues,
      classifyStep tree root policy s path =
        { s with files := s.files ++ [path], issues := s.issues ++ issues } ∧
      (issues = [] → (∃ kind, tree.metadata path = .ok kind) ∧
        tree.size (path.locate tree.cwd) ≤ policy.byteCap)) := by
  unfold classifyStep exclusionOf
  cases hmetadata : tree.metadata path with
  | error error => exact .inr ⟨rfl, [(path, .inspect)], rfl, by simp⟩
  | ok kind =>
    dsimp only
    by_cases hsize : tree.size (path.locate tree.cwd) ≤ policy.byteCap
    · rw [if_pos hsize, if_pos hsize]
      exact .inr ⟨rfl, [], by simp, fun _ => ⟨⟨kind, rfl⟩, hsize⟩⟩
    · rw [if_neg hsize, if_neg hsize]
      cases hpath : normalizedPolicyPath tree root path with
      | error fault => exact .inr ⟨rfl, [(path, .path fault)], rfl, by simp⟩
      | ok normalizedPath =>
        dsimp only
        cases hidentity : currentContentIdentity tree path with
        | none => exact .inr ⟨rfl, [(path, .verify)], rfl, by simp⟩
        | some identity =>
          obtain ⟨contentHash, observedSize⟩ := identity
          have hobserved : ¬ observedSize ≤ policy.byteCap := by
            rw [identity_size hidentity]
            exact hsize
          dsimp only
          rw [if_neg hobserved, if_neg hobserved]
          exact .inl ⟨_, rfl, rfl⟩

theorem foldl_classifyStep (files : List UnixPath) (s : WorkspacePolicyFileInventory) :
    ∃ issues, files.foldl (classifyStep tree root policy) s =
      { s with
        files := s.files ++ files.filter fun path => (exclusionOf tree root policy path).isNone
        policyExclusions := s.policyExclusions ++
          files.filterMap (exclusionOf tree root policy)
        issues := s.issues ++ issues } ∧
      (issues = [] → ∀ path ∈ files, (∃ kind, tree.metadata path = .ok kind) ∧
        (exclusionOf tree root policy path = none →
          tree.size (path.locate tree.cwd) ≤ policy.byteCap)) := by
  induction files generalizing s with
  | nil => exact ⟨[], by simp, by simp⟩
  | cons path rest ih =>
    rw [List.foldl_cons]
    obtain ⟨issues, hfold, hissues⟩ := ih (classifyStep tree root policy s path)
    rw [hfold]
    rcases @classifyStep_cases tree root policy s path with
      ⟨candidate, hcandidate, hstep⟩ | ⟨hnone, new, hstep, hnew⟩
    · refine ⟨issues, ?_, ?_⟩
      · rw [hstep]
        simp [hcandidate]
      · intro hnil other hother
        rcases List.mem_cons.mp hother with rfl | hother
        · exact ⟨(exclusionOf_eq_some hcandidate).1,
            fun h => absurd (hcandidate.symm.trans h) (by simp)⟩
        · exact hissues hnil other hother
    · refine ⟨new ++ issues, ?_, ?_⟩
      · rw [hstep]
        simp [hnone]
      · intro hnil other hother
        obtain ⟨hnewNil, hissuesNil⟩ := List.append_eq_nil_iff.mp hnil
        rcases List.mem_cons.mp hother with rfl | hother
        · exact ⟨(hnew hnewNil).1, fun _ => (hnew hnewNil).2⟩
        · exact hissues hissuesNil other hother

end Classified

section Carried

theorem perm_swapRemove {α : Type} {items : List α} {position : Nat}
    (h : position < items.length) :
    items.Perm (items[position] :: swapRemove items position) := by
  rcases List.eq_nil_or_concat' items with rfl | ⟨front, last, rfl⟩
  · exact absurd h (by simp)
  · unfold swapRemove
    rw [List.getLast?_concat]
    dsimp only
    by_cases hlast : position = front.length
    · subst hlast
      simp
    · have hposition : position < front.length := by
        rw [List.length_append, List.length_singleton] at h
        omega
      rw [List.set_append_left _ _ hposition, List.dropLast_concat,
        List.getElem_append_left hposition]
      have hset := List.set_perm_cons_eraseIdx hposition last
      have herase := List.getElem_cons_eraseIdx_perm hposition
      calc (front ++ [last]).Perm (last :: front) := List.perm_append_singleton last front
        _ |>.Perm (last :: front[position] :: front.eraseIdx position) := herase.symm.cons last
        _ |>.Perm (front[position] :: last :: front.eraseIdx position) := List.Perm.swap _ _ _
        _ |>.Perm (front[position] :: front.set position last) := hset.symm.cons _

variable {tree : SourceTree} {root : UnixPath} {policy : SourceIndexPolicy}

def placeOf (tree : SourceTree) (path : UnixPath) : List FileName := path.locate tree.cwd

/-- Where the exclusion says its file is. -/
def exclusionPlace (tree : SourceTree) (root : UnixPath)
    (candidate : OversizedSourceExclusionCandidate) : List FileName :=
  placeOf tree (exclusionPath root candidate)

theorem absolute_exclusionPath (hroot : root.absolute = true)
    (candidate : OversizedSourceExclusionCandidate) :
    (exclusionPath root candidate).absolute = true := by
  unfold exclusionPath join
  split
  · assumption
  · exact hroot

/-- Files that are there and have one key are one file. -/
theorem placeOf_eq_of_key {left right base : UnixPath} (hleft : left.absolute = true)
    (hright : right.absolute = true) {kind kind' : FileKind}
    (hentry : tree.entry (placeOf tree left) = .ok kind)
    (hentry' : tree.entry (placeOf tree right) = .ok kind')
    (h : normalizedCompareKey tree.view base left = normalizedCompareKey tree.view base right) :
    placeOf tree left = placeOf tree right := by
  rw [key_of_entry hleft hentry, key_of_entry hright hentry'] at h
  have hnames := congrArg UnixPath.names (text_injective h)
  rw [names_reduced, names_reduced] at hnames
  exact hnames

/-- The places of a state of the loop: of its files, then of its exclusions. -/
def CarriedFiles.places (tree : SourceTree) (root : UnixPath) (s : CarriedFiles) :
    List (List FileName) :=
  s.files.map (placeOf tree) ++ s.policyExclusions.map (exclusionPlace tree root)

/-- What the loop keeps: its files are there, and its paths are those of its exclusions. -/
structure CarriedFiles.Kept (tree : SourceTree) (s : CarriedFiles) : Prop where
  files : ∀ path ∈ s.files, path.absolute = true ∧
    ∃ kind, tree.entry (placeOf tree path) = .ok kind
  paths : s.currentPolicyPaths = s.policyExclusions.map (·.normalizedPath)

/-- A turn moves one file to the exclusions, under a path that is new, or does nothing. -/
theorem carryStep_spec (hroot : root.absolute = true) {s : CarriedFiles} (hkept : s.Kept tree)
    (candidate : OversizedSourceExclusionCandidate) :
    carryStep tree root policy s candidate = s ∨
      (ValidExclusion tree root policy candidate ∧
        candidate.normalizedPath ∉ s.policyExclusions.map (·.normalizedPath) ∧
        ∃ path files, s.files.Perm (path :: files) ∧
          placeOf tree path = exclusionPlace tree root candidate ∧
          carryStep tree root policy s candidate =
            ⟨files, s.policyExclusions ++ [candidate],
              s.currentPolicyPaths ++ [candidate.normalizedPath]⟩) := by
  unfold carryStep
  split
  · exact .inl rfl
  · rename_i hchecks
    obtain ⟨hnew, -, haccepted⟩ : candidate.normalizedPath ∉ s.currentPolicyPaths ∧
        ¬ candidate.observedUnitCount = 0 ∧
        (revalidateSourcePolicyExclusions tree root policy [candidate]).isOk = true := by
      simpa only [not_or, Bool.not_eq_false] using hchecks
    have hvalid := (revalidate_isOk.mp haccepted).2.1 candidate (List.mem_singleton_self _)
    dsimp only
    split
    · exact .inl rfl
    · rename_i position hfound
      right
      obtain ⟨hlength, hkey, -⟩ := List.findIdx?_eq_some_iff_getElem.mp hfound
      have hpath := hkept.files s.files[position] (List.getElem_mem hlength)
      obtain ⟨hpathAbs, kind, hentry⟩ := hpath
      have hcandAbs := absolute_exclusionPath hroot candidate
      obtain ⟨kind', hentry'⟩ := identity_entry hcandAbs hvalid.identity
      rw [hkept.paths] at hnew
      refine ⟨hvalid, hnew, s.files[position], swapRemove s.files position,
        perm_swapRemove hlength, ?_, rfl⟩
      exact placeOf_eq_of_key hpathAbs hcandAbs hentry hentry' (of_decide_eq_true hkey)

/-- What the whole loop does: it adds valid exclusions under new paths and keeps the places. -/
theorem foldl_carryStep (hroot : root.absolute = true)
    (published : List OversizedSourceExclusionCandidate) {s : CarriedFiles}
    (hkept : s.Kept tree) :
    ((published.foldl (carryStep tree root policy) s).places tree root).Perm
        (s.places tree root) ∧
      ∃ carried, (published.foldl (carryStep tree root policy) s).policyExclusions =
          s.policyExclusions ++ carried ∧
        (∀ candidate ∈ carried, ValidExclusion tree root policy candidate) ∧
        ((s.policyExclusions.map (·.normalizedPath)).Nodup →
          ((s.policyExclusions ++ carried).map (·.normalizedPath)).Nodup) := by
  induction published generalizing s with
  | nil => exact ⟨List.Perm.refl _, [], by simp, by simp, by simp⟩
  | cons candidate rest ih =>
    rw [List.foldl_cons]
    rcases carryStep_spec hroot hkept candidate with
      hsame | ⟨hvalid, hnew, path, files, hfiles, hplace, hstep⟩
    · rw [hsame]
      exact ih hkept
    · rw [hstep]
      have hkept' : CarriedFiles.Kept tree ⟨files, s.policyExclusions ++ [candidate],
          s.currentPolicyPaths ++ [candidate.normalizedPath]⟩ := by
        refine ⟨fun other hother => ?_, ?_⟩
        · exact hkept.files other (hfiles.mem_iff.mpr (List.mem_cons_of_mem _ hother))
        · dsimp only
          rw [hkept.paths, List.map_append]
          rfl
      obtain ⟨hperm, carried, hcarried, hall, hnodup⟩ := ih hkept'
      refine ⟨hperm.trans ?_, candidate :: carried, ?_, ?_, ?_⟩
      · unfold CarriedFiles.places
        dsimp only
        rw [List.map_append, List.map_singleton, ← hplace]
        have hmoved := hfiles.map (placeOf tree)
        rw [List.map_cons] at hmoved
        rw [← List.append_assoc]
        exact (List.perm_append_singleton _ _).trans
          (hmoved.symm.append_right (s.policyExclusions.map (exclusionPlace tree root)))
      · rw [hcarried, List.append_assoc]
        rfl
      · intro other hother
        rcases List.mem_cons.mp hother with rfl | hother
        · exact hvalid
        · exact hall other hother
      · intro hold
        have hmore := hnodup (by
          dsimp only
          rw [List.map_append, List.nodup_append]
          refine ⟨hold, List.nodup_singleton _, ?_⟩
          rintro path hpath other hother rfl
          rw [List.mem_singleton.mp hother] at hpath
          exact hnew hpath)
        rw [List.append_assoc] at hmore
        exact hmore

end Carried

section Agreement
variable {tree : SourceTree} {root : List FileName} {policy : SourceIndexPolicy}
  {walk : SourceWalk} {published : List OversizedSourceExclusionCandidate}
  {inventory : WorkspacePolicyFileInventory}

/-- The canonical path of a place. -/
def rootPath (root : List FileName) : UnixPath := reduced true 0 root

/-- What a complete inventory is to be: the discovered files are the current ones and the
excluded ones, each once; an exclusion exceeds one bound; revalidation accepts them all. -/
structure PolicyAgreement (tree : SourceTree) (root : UnixPath) (policy : SourceIndexPolicy)
    (discovered currentFiles : List UnixPath)
    (exclusions : List OversizedSourceExclusionCandidate) : Prop where
  union : (currentFiles.map (placeOf tree) ++
    exclusions.map (exclusionPlace tree root)).Perm (discovered.map (placeOf tree))
  disjoint : (currentFiles.map (placeOf tree) ++
    exclusions.map (exclusionPlace tree root)).Nodup
  bounds : ∀ candidate ∈ exclusions, Xor (policy.byteCap < candidate.observedSize)
    (policy.structuralUnitCap < candidate.observedUnitCount)
  accepted : (revalidateSourcePolicyExclusions tree root policy exclusions).isOk = true

/-- No file above the byte cap has a backslash in its path below the root. -/
def NoBackslash (tree : SourceTree) (root : List FileName) (policy : SourceIndexPolicy)
    (discovered : List UnixPath) : Prop :=
  ∀ path ∈ discovered, policy.byteCap < tree.size (placeOf tree path) →
    ∀ rest, placeOf tree path = root ++ rest → ∀ n ∈ rest, '\\' ∉ n.text.toList

theorem workspaceRoot_rootPath : workspaceRoot tree (rootPath root) = rootPath root := by
  unfold workspaceRoot FileSystem.canonicalize
  rw [metadata_of_absolute rfl]
  cases tree.entry ((rootPath root).locate tree.cwd) with
  | ok kind =>
    unfold rootPath
    rw [locate_of_absolute rfl, names_reduced]
  | error error => exact normalize_reduced true root

/-- Carrying forward is the loop over what was published, up to the order. -/
theorem carryForward_spec (base : UnixPath) (hcomplete : inventory.outcome = .complete) :
    let carried := published.foldl (carryStep tree base policy)
      ⟨inventory.files, inventory.policyExclusions,
        inventory.policyExclusions.map (·.normalizedPath)⟩
    (carryForwardVerifiedPolicyExclusions tree base policy published inventory).files.Perm
        carried.files ∧
      (carryForwardVerifiedPolicyExclusions tree base policy published
        inventory).policyExclusions.Perm carried.policyExclusions := by
  unfold carryForwardVerifiedPolicyExclusions
  dsimp only
  split
  · rename_i hnothing
    rcases hnothing with hpartial | rfl
    · exact absurd hcomplete hpartial
    · exact ⟨List.Perm.refl _, List.Perm.refl _⟩
  · exact ⟨perm_sortPaths _, perm_sortExclusions _⟩

theorem carryForward_outcome (base : UnixPath) :
    (carryForwardVerifiedPolicyExclusions tree base policy published inventory).outcome =
      inventory.outcome := by
  unfold carryForwardVerifiedPolicyExclusions
  dsimp only
  split
  · rfl
  · rfl

/-- The parts of a complete inventory. -/
theorem policyInventory_complete
    (h : policyInventory tree (rootPath root) policy walk published = some inventory)
    (hcomplete : inventory.outcome = .complete) :
    let discovered := discoveredFiles tree (rootPath root) walk
    policy.isValid = true ∧
      (∀ path ∈ discovered, (∃ kind, tree.metadata path = .ok kind) ∧
        (exclusionOf tree (rootPath root) policy path = none →
          tree.size (placeOf tree path) ≤ policy.byteCap)) ∧
      ∃ start : CarriedFiles,
        start.files = discovered.filter (fun path =>
          (exclusionOf tree (rootPath root) policy path).isNone) ∧
        start.policyExclusions.Perm
          (discovered.filterMap (exclusionOf tree (rootPath root) policy)) ∧
        start.currentPolicyPaths = start.policyExclusions.map (·.normalizedPath) ∧
        inventory.files.Perm
          (published.foldl (carryStep tree (rootPath root) policy) start).files ∧
        inventory.policyExclusions.Perm
          (published.foldl (carryStep tree (rootPath root) policy) start).policyExclusions := by
  intro discovered
  unfold policyInventory at h
  rw [workspaceRoot_rootPath] at h
  obtain ⟨classified, hclassified, rfl⟩ := Option.map_eq_some_iff.mp h
  rw [carryForward_outcome] at hcomplete
  obtain ⟨hfiles, hexclusions⟩ :=
    @carryForward_spec tree policy published classified (rootPath root) hcomplete
  unfold sourceInventoryWithPolicy at hclassified
  split at hclassified
  · exact absurd hclassified (by simp)
  · rename_i hvalid
    split at hclassified
    · rename_i hwalk
      obtain rfl := Option.some.inj hclassified
      exact absurd hcomplete hwalk
    · obtain ⟨issues, hfold, hissues⟩ := @foldl_classifyStep tree (rootPath root) policy
        (discoveredFiles tree (rootPath root) walk) ⟨[], [], .complete, []⟩
      rw [hfold] at hclassified
      dsimp only at hclassified
      obtain rfl := Option.some.inj hclassified
      have hnone : issues = [] := by
        by_contra hsome
        dsimp only at hcomplete
        rw [List.nil_append, if_neg hsome] at hcomplete
        exact absurd hcomplete (by decide)
      refine ⟨by simpa using hvalid, hissues hnone, ⟨_, _, _⟩, rfl, ?_, rfl, hfiles, hexclusions⟩
      dsimp only
      rw [List.nil_append]
      exact perm_sortExclusions _

/-- The files that are kept and those that are excluded are all files. -/
theorem perm_partition {f : UnixPath → Option OversizedSourceExclusionCandidate}
    {place : UnixPath → List FileName}
    {named : OversizedSourceExclusionCandidate → List FileName} {files : List UnixPath}
    (h : ∀ path ∈ files, ∀ candidate, f path = some candidate → named candidate = place path) :
    ((files.filter fun path => (f path).isNone).map place ++ (files.filterMap f).map named).Perm
      (files.map place) := by
  induction files with
  | nil => exact List.Perm.refl _
  | cons path rest ih =>
    have hrest := ih fun other hother => h other (List.mem_cons_of_mem _ hother)
    cases hf : f path with
    | none =>
      rw [List.filter_cons_of_pos (by simp [hf]), List.filterMap_cons_none hf, List.map_cons,
        List.map_cons, List.cons_append]
      exact hrest.cons _
    | some candidate =>
      rw [List.filter_cons_of_neg (by simp [hf]), List.filterMap_cons_some hf, List.map_cons,
        List.map_cons, h path List.mem_cons_self candidate hf]
      exact List.perm_middle.trans (hrest.cons _)

theorem identity_congr {left right : UnixPath} (hleft : left.absolute = true)
    (hright : right.absolute = true) (h : placeOf tree left = placeOf tree right) :
    currentContentIdentity tree left = currentContentIdentity tree right := by
  unfold placeOf at h
  unfold currentContentIdentity
  rw [metadata_of_absolute hleft, metadata_of_absolute hright, h]

/-- An exclusion without backslashes stands for its file. -/
theorem exclusionOf_valid {path : UnixPath} {candidate : OversizedSourceExclusionCandidate}
    (hpath : path.absolute = true)
    (hplain : ∀ rest, placeOf tree path = root ++ rest → ∀ n ∈ rest, '\\' ∉ n.text.toList)
    (h : exclusionOf tree (rootPath root) policy path = some candidate) :
    ValidExclusion tree (rootPath root) policy candidate ∧
      exclusionPlace tree (rootPath root) candidate = placeOf tree path := by
  obtain ⟨⟨kind, hkind⟩, hpolicyPath, hidentity, hsize, hunits, hversion, hbytes, hcap⟩ :=
    exclusionOf_eq_some h
  rw [metadata_of_absolute hpath] at hkind
  obtain ⟨rest, hrest, hnormalized, -, -, hne⟩ := normalizedPolicyPath_ok hpath hkind hpolicyPath
  have hnames := hplain rest hrest
  rw [forwardSlashes_eq_self (backslash_not_mem_text hnames)] at hnormalized
  have hexclusion : exclusionPath (rootPath root) candidate = reduced true 0 (root ++ rest) := by
    unfold exclusionPath
    rw [hnormalized]
    exact join_ofText rest
  have hplace : exclusionPlace tree (rootPath root) candidate = placeOf tree path := by
    unfold exclusionPlace placeOf
    rw [hexclusion, locate_of_absolute rfl, names_reduced, hrest]
  refine ⟨⟨hversion, hbytes, hcap, ?_, ?_, .inl ⟨hsize, hunits⟩⟩, hplace⟩
  · rw [hexclusion, hnormalized]
    exact normalizedPolicyPath_below hne hnames
  · rw [← hidentity]
    apply identity_congr _ hpath hplace
    rw [hexclusion]
    rfl

/-- The exclusions of discovered files, told apart by their paths. -/
theorem nodup_exclusions_iff {discovered : List UnixPath} :
    ((discovered.filterMap (exclusionOf tree (rootPath root) policy)).map
        (·.normalizedPath)).Nodup ↔
      discovered.Pairwise fun left right =>
        ∀ candidate, exclusionOf tree (rootPath root) policy left = some candidate →
          ∀ other, exclusionOf tree (rootPath root) policy right = some other →
            candidate.normalizedPath ≠ other.normalizedPath := by
  unfold List.Nodup
  rw [List.pairwise_map, List.pairwise_filterMap]

/-- The discovered files of a complete inventory are in different places. -/
theorem nodup_places
    (hentry : ∀ path ∈ discoveredFiles tree (rootPath root) walk,
      ∃ kind, tree.entry (placeOf tree path) = .ok kind) :
    ((discoveredFiles tree (rootPath root) walk).map (placeOf tree)).Nodup := by
  obtain ⟨habsolute, hnodup⟩ := @discoveredFiles_spec tree (rootPath root) walk
  have hkeys : (discoveredFiles tree (rootPath root) walk).map
      (normalizedCompareKey tree.view (rootPath root)) =
      ((discoveredFiles tree (rootPath root) walk).map (placeOf tree)).map
        fun place => (reduced true 0 place).text := by
    rw [List.map_map]
    apply List.map_congr_left
    intro path hpath
    obtain ⟨kind, hkind⟩ := hentry path hpath
    exact key_of_entry (habsolute path hpath) hkind _
  rw [hkeys] at hnodup
  exact List.Nodup.of_map _ hnodup

/-- Where revalidation accepts an exclusion, the file that it names has no backslash in its
path, and the policy path of that file is the exclusion's. -/
theorem named_of_valid {candidate : OversizedSourceExclusionCandidate}
    (h : ValidExclusion tree (rootPath root) policy candidate) :
    ∃ rest, exclusionPlace tree (rootPath root) candidate = root ++ rest ∧
      candidate.normalizedPath = forwardSlashes (reduced false 0 rest).text ∧
      ∀ n ∈ rest, '\\' ∉ n.text.toList := by
  have hexclusion := absolute_exclusionPath (rfl : (rootPath root).absolute = true) candidate
  obtain ⟨kind, hkind⟩ := identity_entry hexclusion h.identity
  obtain ⟨rest, hrest, hnormalized, hhead, hups, -⟩ :=
    normalizedPolicyPath_ok hexclusion hkind h.path
  obtain ⟨-, rest', hrest', hchars⟩ := @place_ofText tree root _ hhead hups
  obtain rfl : rest = rest' := List.append_cancel_left (hrest.symm.trans hrest')
  refine ⟨rest, hrest, hnormalized, fun n hn hbackslash => ?_⟩
  have hmem := hchars n hn _ hbackslash
  rw [hnormalized] at hmem
  exact backslash_not_mem _ hmem

/-- How a complete inventory comes about: every discovered file is kept or excluded, and
verified exclusions are carried over. -/
structure Assembled (tree : SourceTree) (root : List FileName) (policy : SourceIndexPolicy)
    (discovered : List UnixPath) (inventory : WorkspacePolicyFileInventory)
    (carried : List OversizedSourceExclusionCandidate) : Prop where
  valid : policy.isValid = true
  absolute : ∀ path ∈ discovered, path.absolute = true
  entry : ∀ path ∈ discovered, ∃ kind, tree.entry (placeOf tree path) = .ok kind
  kept : ∀ path ∈ discovered, exclusionOf tree (rootPath root) policy path = none →
    tree.size (placeOf tree path) ≤ policy.byteCap
  distinct : (discovered.map (placeOf tree)).Nodup
  exclusions : inventory.policyExclusions.Perm
    (discovered.filterMap (exclusionOf tree (rootPath root) policy) ++ carried)
  places : (inventory.files.map (placeOf tree) ++
      inventory.policyExclusions.map (exclusionPlace tree (rootPath root))).Perm
    ((discovered.filter fun path =>
        (exclusionOf tree (rootPath root) policy path).isNone).map (placeOf tree) ++
      (discovered.filterMap (exclusionOf tree (rootPath root) policy)).map
        (exclusionPlace tree (rootPath root)))
  carriedValid : ∀ candidate ∈ carried, ValidExclusion tree (rootPath root) policy candidate
  carriedNodup : ((discovered.filterMap (exclusionOf tree (rootPath root) policy)).map
      (·.normalizedPath)).Nodup →
    ((discovered.filterMap (exclusionOf tree (rootPath root) policy) ++ carried).map
      (·.normalizedPath)).Nodup

theorem exists_assembled
    (h : policyInventory tree (rootPath root) policy walk published = some inventory)
    (hcomplete : inventory.outcome = .complete) :
    ∃ carried, Assembled tree root policy (discoveredFiles tree (rootPath root) walk) inventory
      carried := by
  obtain ⟨hvalid, hclear, start, hstartFiles, hstartExclusions, hstartPaths, hfiles,
    hexclusions⟩ := policyInventory_complete h hcomplete
  obtain ⟨habsolute, -⟩ := @discoveredFiles_spec tree (rootPath root) walk
  have hentry : ∀ path ∈ discoveredFiles tree (rootPath root) walk,
      ∃ kind, tree.entry (placeOf tree path) = .ok kind := by
    intro path hpath
    obtain ⟨⟨kind, hkind⟩, -⟩ := hclear path hpath
    rw [metadata_of_absolute (habsolute path hpath)] at hkind
    exact ⟨kind, hkind⟩
  have hkept : start.Kept tree := by
    refine ⟨fun path hpath => ?_, hstartPaths⟩
    rw [hstartFiles] at hpath
    have hmem := (List.mem_filter.mp hpath).1
    exact ⟨habsolute path hmem, hentry path hmem⟩
  obtain ⟨hperm, carried, hcarried, hcarriedValid, hcarriedNodup⟩ :=
    @foldl_carryStep tree (rootPath root) policy rfl published start hkept
  have hplaces : (inventory.files.map (placeOf tree) ++
      inventory.policyExclusions.map (exclusionPlace tree (rootPath root))).Perm
      (start.places tree (rootPath root)) := by
    refine List.Perm.trans ?_ hperm
    unfold CarriedFiles.places
    exact (hfiles.map _).append (hexclusions.map _)
  refine ⟨carried, hvalid, habsolute, hentry, fun path hpath => (hclear path hpath).2,
    nodup_places hentry, ?_, ?_, hcarriedValid, ?_⟩
  · rw [hcarried] at hexclusions
    exact hexclusions.trans (hstartExclusions.append_right _)
  · apply hplaces.trans
    unfold CarriedFiles.places
    rw [hstartFiles]
    exact (hstartExclusions.map _).append_left _
  · intro hnodup
    rw [← ((hstartExclusions.append_right carried).map _).nodup_iff]
    exact hcarriedNodup ((hstartExclusions.map _).nodup_iff.mpr hnodup)

namespace Assembled
variable {discovered : List UnixPath} {carried : List OversizedSourceExclusionCandidate}

/-- A discovered file above the byte cap is excluded. -/
theorem excluded (h : Assembled tree root policy discovered inventory carried)
    {path : UnixPath} (hpath : path ∈ discovered)
    (hsize : policy.byteCap < tree.size (placeOf tree path)) :
    ∃ candidate, exclusionOf tree (rootPath root) policy path = some candidate ∧
      candidate ∈ inventory.policyExclusions := by
  cases hcandidate : exclusionOf tree (rootPath root) policy path with
  | none =>
    have hsmall := h.kept path hpath hcandidate
    omega
  | some candidate =>
    refine ⟨candidate, rfl, h.exclusions.mem_iff.mpr (List.mem_append_left _ ?_)⟩
    exact List.mem_filterMap.mpr ⟨path, hpath, hcandidate⟩

/-- Two exclusions under one path are refused, so they are of one file. -/
theorem eq_of_normalizedPath_eq (h : Assembled tree root policy discovered inventory carried)
    (hnodup : (inventory.policyExclusions.map (·.normalizedPath)).Nodup)
    {path other : UnixPath} (hpath : path ∈ discovered) (hother : other ∈ discovered)
    {candidate candidate' : OversizedSourceExclusionCandidate}
    (hcandidate : exclusionOf tree (rootPath root) policy path = some candidate)
    (hcandidate' : exclusionOf tree (rootPath root) policy other = some candidate')
    (hsame : candidate.normalizedPath = candidate'.normalizedPath) : path = other := by
  rw [(h.exclusions.map _).nodup_iff, List.map_append] at hnodup
  have hpairs := nodup_exclusions_iff.mp (List.nodup_append.mp hnodup).1
  by_contra hne
  have hsymmetric : Std.Symm fun left right : UnixPath =>
      ∀ candidate, exclusionOf tree (rootPath root) policy left = some candidate →
        ∀ other, exclusionOf tree (rootPath root) policy right = some other →
          candidate.normalizedPath ≠ other.normalizedPath :=
    ⟨fun left right hpair c hc o ho => (hpair o ho c hc).symm⟩
  exact hpairs.forall hpath hother hne candidate hcandidate candidate' hcandidate' hsame

theorem noBackslash (h : Assembled tree root policy discovered inventory carried)
    (hagree : PolicyAgreement tree (rootPath root) policy discovered inventory.files
      inventory.policyExclusions) : NoBackslash tree root policy discovered := by
  intro path hpath hsize rest hrest
  obtain ⟨-, hallValid, hnodup⟩ := revalidate_isOk.mp hagree.accepted
  obtain ⟨candidate, hcandidate, hlisted⟩ := h.excluded hpath hsize
  have hcandidateValid := hallValid candidate hlisted
  obtain ⟨named, hnamed, hnormalized, hnamedPlain⟩ := named_of_valid hcandidateValid
  -- the file that the exclusion names is discovered and above the cap, so excluded too
  have hnamedMem : exclusionPlace tree (rootPath root) candidate ∈
      discovered.map (placeOf tree) :=
    hagree.union.mem_iff.mp (List.mem_append_right _ (List.mem_map_of_mem hlisted))
  obtain ⟨other, hother, hotherPlace⟩ := List.mem_map.mp hnamedMem
  have hotherSize : policy.byteCap < tree.size (placeOf tree other) := by
    have hobserved := (exclusionOf_eq_some hcandidate).2.2.2.1
    rw [identity_size hcandidateValid.identity] at hobserved
    rw [hotherPlace]
    exact hobserved
  obtain ⟨candidate', hcandidate', -⟩ := h.excluded hother hotherSize
  have hsamePath : candidate.normalizedPath = candidate'.normalizedPath := by
    obtain ⟨kind, hkind⟩ := h.entry other hother
    obtain ⟨rest', hrest', hnormalized', -⟩ := normalizedPolicyPath_ok (h.absolute other hother)
      hkind (exclusionOf_eq_some hcandidate').2.1
    have hrestNamed : rest' = named :=
      List.append_cancel_left (hrest'.symm.trans (hotherPlace.trans hnamed))
    rw [hnormalized', hnormalized, hrestNamed]
  obtain rfl := h.eq_of_normalizedPath_eq hnodup hpath hother hcandidate hcandidate' hsamePath
  have hrestNamed : rest = named :=
    List.append_cancel_left (hrest.symm.trans (hotherPlace.trans hnamed))
  rw [hrestNamed]
  exact hnamedPlain

/-- Without backslashes each exclusion stands for the file it was made from. -/
theorem made_valid (h : Assembled tree root policy discovered inventory carried)
    (hplain : NoBackslash tree root policy discovered) {path : UnixPath}
    (hpath : path ∈ discovered) {candidate : OversizedSourceExclusionCandidate}
    (hcandidate : exclusionOf tree (rootPath root) policy path = some candidate) :
    ValidExclusion tree (rootPath root) policy candidate ∧
      exclusionPlace tree (rootPath root) candidate = placeOf tree path := by
  apply exclusionOf_valid (h.absolute path hpath) ?_ hcandidate
  apply hplain path hpath
  obtain ⟨-, -, hidentity, hsize, -⟩ := exclusionOf_eq_some hcandidate
  rw [identity_size hidentity] at hsize
  exact hsize

theorem nodup_made (h : Assembled tree root policy discovered inventory carried)
    (hplain : NoBackslash tree root policy discovered) :
    ((discovered.filterMap (exclusionOf tree (rootPath root) policy)).map
      (·.normalizedPath)).Nodup := by
  rw [nodup_exclusions_iff]
  have hdistinct : discovered.Pairwise (· ≠ ·) := List.Nodup.of_map _ h.distinct
  apply hdistinct.imp_of_mem
  intro left right hleft hright hne candidate hcandidate other hother hsame
  apply hne
  apply List.inj_on_of_nodup_map h.distinct hleft hright
  rw [← (h.made_valid hplain hleft hcandidate).2, ← (h.made_valid hplain hright hother).2]
  unfold exclusionPlace exclusionPath
  rw [hsame]

theorem agreement (h : Assembled tree root policy discovered inventory carried)
    (hplain : NoBackslash tree root policy discovered) :
    PolicyAgreement tree (rootPath root) policy discovered inventory.files
      inventory.policyExclusions := by
  have hunion := h.places.trans (perm_partition fun path hpath candidate hcandidate =>
    (h.made_valid hplain hpath hcandidate).2)
  have hallValid : ∀ candidate ∈ inventory.policyExclusions,
      ValidExclusion tree (rootPath root) policy candidate := by
    intro candidate hcandidate
    rcases List.mem_append.mp (h.exclusions.mem_iff.mp hcandidate) with hmade | hcarry
    · obtain ⟨path, hpath, hmadeIt⟩ := List.mem_filterMap.mp hmade
      exact (h.made_valid hplain hpath hmadeIt).1
    · exact h.carriedValid candidate hcarry
  refine ⟨hunion, hunion.nodup_iff.mpr h.distinct, ?_, ?_⟩
  · intro candidate hcandidate
    exact (hallValid candidate hcandidate).xor_bound
  · apply revalidate_isOk.mpr
    refine ⟨h.valid, hallValid, ?_⟩
    rw [(h.exclusions.map _).nodup_iff]
    exact h.carriedNodup (h.nodup_made hplain)

end Assembled

/-- The inventory agrees with revalidation exactly when no discovered file above the byte cap
has a backslash in its path. -/
theorem agreement_iff
    (h : policyInventory tree (rootPath root) policy walk published = some inventory)
    (hcomplete : inventory.outcome = .complete) :
    PolicyAgreement tree (rootPath root) policy (discoveredFiles tree (rootPath root) walk)
        inventory.files inventory.policyExclusions ↔
      NoBackslash tree root policy (discoveredFiles tree (rootPath root) walk) := by
  obtain ⟨carried, hassembled⟩ := exists_assembled h hcomplete
  exact ⟨hassembled.noBackslash, hassembled.agreement⟩

/-- A policy-aware refresh with a complete inventory plans from files that, with those it
excludes, are the discovered ones, and its exclusions pass revalidation, exactly when no
discovered file above the byte cap has a backslash in its path below the root. -/
theorem policyAgreement_iff {values : List StoredFileState}
    {outcome : WorkspacePolicyRefreshOutcome}
    (h : buildRefreshOutcomeWithIndexPolicy tree (rootPath root) policy walk published values =
      some outcome)
    (hcomplete : outcome.inventoryOutcome = .complete) :
    ∃ currentFiles, outcome.plan = buildRefreshOutcomeFromInventory tree.view (rootPath root)
        values currentFiles .complete ∧
      (PolicyAgreement tree (rootPath root) policy (discoveredFiles tree (rootPath root) walk)
          currentFiles outcome.policyExclusions ↔
        NoBackslash tree root policy (discoveredFiles tree (rootPath root) walk)) := by
  obtain ⟨inventory, hinventory, rfl⟩ := Option.map_eq_some_iff.mp h
  dsimp only at hcomplete
  refine ⟨inventory.files, by rw [← hcomplete], ?_⟩
  exact agreement_iff hinventory hcomplete

/-- One file of two bytes, and the directories above it. -/
def oneFileTree (file : List FileName) (hfile : file ≠ []) : SourceTree where
  cwd := []
  entry place :=
    if place = file then .ok .file
    else if place <+: file then .ok .directory
    else if file <+: place then .error .notADirectory
    else .error .notFound
  inode place := (0, place.length)
  root := by rw [if_neg (Ne.symm hfile), if_pos List.nil_prefix]
  beneath := by
    intro place n kind h
    have hbegins : place ++ [n] <+: file := by
      by_contra hbegins
      have hne : place ++ [n] ≠ file := fun heq => hbegins (heq ▸ List.prefix_rfl)
      rw [if_neg hne, if_neg hbegins] at h
      split at h
      · exact absurd h (by simp)
      · exact absurd h (by simp)
    have hlength := hbegins.length_le
    rw [List.length_append, List.length_singleton] at hlength
    have hne : place ≠ file := by
      rintro rfl
      omega
    rw [if_neg hne, if_pos ((List.prefix_append place [n]).trans hbegins)]
  notFound_beneath := by
    intro place n h
    have hbelow : ¬ file <+: place ++ [n] := by
      intro hbelow
      split at h
      · exact absurd h (by simp)
      · split at h
        · exact absurd h (by simp)
        · exact absurd h (by simp)
    have hne : place ≠ file := by
      rintro rfl
      exact hbelow (List.prefix_append _ _)
    have hplace : ¬ file <+: place := fun hbegins =>
      hbelow (hbegins.trans (List.prefix_append _ _))
    rw [if_neg hne]
    split
    · exact .inl rfl
    · exact .inr rfl
  inode_directory := by
    intro place place' kind h h' hinode
    have hbegins : ∀ {place : List FileName} {kind : FileKind},
        (if place = file then Except.ok FileKind.file
          else if place <+: file then .ok .directory
          else if file <+: place then .error .notADirectory
          else .error IoErrorKind.notFound) = .ok kind → place <+: file := by
      intro place kind hplace
      split at hplace
      · rename_i heq
        exact heq ▸ List.prefix_rfl
      · split at hplace
        · assumption
        · split at hplace
          · exact absurd hplace (by simp)
          · exact absurd hplace (by simp)
    have hlength : place.length = place'.length := congrArg Prod.snd hinode
    exact (List.prefix_of_prefix_length_le (hbegins h) (hbegins h') hlength.le).eq_of_length
      hlength
  size place := if place = file then 2 else 0
  contentHash place := if place = file then some "hash" else none
  modificationTime _ := some 0

theorem isFileName_ws : IsFileName "ws" := by decide

def workspaceName : FileName := ⟨"ws", isFileName_ws⟩

def oneByteCap : SourceIndexPolicy := ⟨"bounded-source-exclusion-v2", 1, 2048⟩

/-- The walk that finds the file. -/
def oneFileWalk (file : List FileName) : SourceWalk where
  candidates := [rootPath file]
  absolute := by
    intro path hpath
    obtain rfl := List.mem_singleton.mp hpath
    rfl
  issues := []
  inspectedSourceRoots := 1

def plainFile : List FileName := [workspaceName, ⟨"a.rs", by decide⟩]

def backslashFile : List FileName := [workspaceName, ⟨"a\\b.rs", by decide⟩]

theorem plain_file_agrees :
    ∃ outcome currentFiles, buildRefreshOutcomeWithIndexPolicy
        (oneFileTree plainFile (by decide)) (rootPath [workspaceName]) oneByteCap
        (oneFileWalk plainFile) [] [] = some outcome ∧
      outcome.policyExclusions.length = 1 ∧
      PolicyAgreement (oneFileTree plainFile (by decide)) (rootPath [workspaceName]) oneByteCap
        (discoveredFiles (oneFileTree plainFile (by decide)) (rootPath [workspaceName])
          (oneFileWalk plainFile)) currentFiles outcome.policyExclusions := by
  have hresult : (buildRefreshOutcomeWithIndexPolicy (oneFileTree plainFile (by decide))
      (rootPath [workspaceName]) oneByteCap (oneFileWalk plainFile) [] []).map
      (fun outcome => (outcome.inventoryOutcome, outcome.policyExclusions.length)) =
      some (.complete, 1) := by
    decide
  obtain ⟨outcome, houtcome, hfields⟩ := Option.map_eq_some_iff.mp hresult
  obtain ⟨hcomplete, hlength⟩ := Prod.mk.inj hfields
  obtain ⟨currentFiles, -, hagree⟩ := policyAgreement_iff houtcome hcomplete
  refine ⟨outcome, currentFiles, houtcome, hlength, hagree.mpr ?_⟩
  have hdiscovered : discoveredFiles (oneFileTree plainFile (by decide))
      (rootPath [workspaceName]) (oneFileWalk plainFile) = [rootPath plainFile] := by
    decide
  rw [hdiscovered]
  intro path hpath _ rest hrest n hn
  obtain rfl := List.mem_singleton.mp hpath
  have hplace : placeOf (oneFileTree plainFile (by decide)) (rootPath plainFile) =
      [workspaceName] ++ [⟨"a.rs", by decide⟩] := by
    decide
  have hsame : [⟨"a.rs", by decide⟩] = rest := List.append_cancel_left (hplace.symm.trans hrest)
  rw [← hsame] at hn
  rw [List.mem_singleton.mp hn]
  decide

/-- The exclusion of a file with a backslash in its name is refused. -/
theorem backslash_file_disagrees :
    ∃ outcome, buildRefreshOutcomeWithIndexPolicy (oneFileTree backslashFile (by decide))
        (rootPath [workspaceName]) oneByteCap (oneFileWalk backslashFile) [] [] =
          some outcome ∧
      outcome.inventoryOutcome = .complete ∧
      ∀ currentFiles, ¬ PolicyAgreement (oneFileTree backslashFile (by decide))
        (rootPath [workspaceName]) oneByteCap
        (discoveredFiles (oneFileTree backslashFile (by decide)) (rootPath [workspaceName])
          (oneFileWalk backslashFile)) currentFiles outcome.policyExclusions := by
  have hresult : (buildRefreshOutcomeWithIndexPolicy (oneFileTree backslashFile (by decide))
      (rootPath [workspaceName]) oneByteCap (oneFileWalk backslashFile) [] []).map
      (fun outcome => (outcome.inventoryOutcome,
        (revalidateSourcePolicyExclusions (oneFileTree backslashFile (by decide))
          (rootPath [workspaceName]) oneByteCap outcome.policyExclusions).isOk)) =
      some (.complete, false) := by
    decide
  obtain ⟨outcome, houtcome, hfields⟩ := Option.map_eq_some_iff.mp hresult
  obtain ⟨hcomplete, hrefused⟩ := Prod.mk.inj hfields
  refine ⟨outcome, houtcome, hcomplete, fun currentFiles hagree => ?_⟩
  have haccepted := hagree.accepted
  rw [hrefused] at haccepted
  exact absurd haccepted (by decide)

end Agreement

end CodeStory.Workspace
