import Mathlib.Data.Int.Order.Basic
import CodeStory.ApiError
import CodeStory.Graph.Trail
import CodeStory.Lib.KeyedTable
import CodeStory.Lib.SortedMap
import CodeStory.Lib.SqlText
import CodeStory.Lib.Text

/-!
# Change records and the indexed files they name

A request is trimmed and checked, then every path of it and every indexed path is resolved to an
identity, and records and files meet in the identity. What the resolver answers for a path is
fixed for one request; an answer that fails is its message. Paths are UTF-8 texts of a Unix
system.
-/

set_option autoImplicit false

namespace CodeStory.Affected

inductive ChangeKind where
  | added | modified | deleted | renamed | copied | untracked | unknown
  deriving DecidableEq, Repr

structure ChangeRecord where
  path : String
  kind : ChangeKind
  status : String
  previousPath : Option String
  deriving DecidableEq, Repr

inductive AnalysisInput where
  | paths (paths : List String)
  | changeRecords (records : List ChangeRecord)
  deriving DecidableEq, Repr

def AnalysisInput.count : AnalysisInput → Nat
  | .paths given => given.length
  | .changeRecords given => given.length

def normalizePath (path : String) : Except ApiError String :=
  let path := Text.trim path
  if path = "" then .error (.invalidArgument "affected paths must be non-empty strings")
  else .ok path

def normalizePreviousPath (kind : ChangeKind) (previousPath : String) : Except ApiError String :=
  let previousPath := Text.trim previousPath
  if previousPath = "" then
    .error (.invalidArgument "affected previous paths must be non-empty strings")
  else if kind ≠ .renamed ∧ kind ≠ .copied then
    .error (.invalidArgument "affected previous_path is valid only for renamed or copied records")
  else .ok previousPath

def normalizeRecord (record : ChangeRecord) : Except ApiError ChangeRecord :=
  let path := Text.trim record.path
  if path = "" then
    .error (.invalidArgument "affected change record paths must be non-empty strings")
  else do
    let previousPath ← record.previousPath.mapM (normalizePreviousPath record.kind)
    return { record with path := path, previousPath := previousPath }

def normalizedAffectedInput (input : AnalysisInput) :
    Except ApiError (List String × List ChangeRecord) :=
  if ¬(1 ≤ input.count ∧ input.count ≤ 200) then
    .error (.invalidArgument "affected analysis requires between 1 and 200 path records")
  else
    match input with
    | .paths paths => do
      let changedPaths ← paths.mapM normalizePath
      return (changedPaths, changedPaths.map fun path => ⟨path, .unknown, "path", none⟩)
    | .changeRecords records => do
      let normalizedRecords ← records.mapM normalizeRecord
      return (normalizedRecords.map (·.path), normalizedRecords)

theorem length_mapM_ok {α β ε : Type} {f : α → Except ε β} {l : List α} {l' : List β}
    (h : l.mapM f = .ok l') : l'.length = l.length := by
  induction l generalizing l' with
  | nil =>
    cases h
    rfl
  | cons a l ih =>
    rw [List.mapM_cons] at h
    cases ha : f a with
    | error e =>
      rw [ha] at h
      cases h
    | ok b =>
      rw [ha] at h
      cases hl : l.mapM f with
      | error e =>
        rw [hl] at h
        cases h
      | ok bs =>
        rw [hl] at h
        cases h
        simp [ih hl]

/-- An accepted request names at least one record. -/
theorem normalizedAffectedInput_nonempty {input : AnalysisInput} {paths : List String}
    {records : List ChangeRecord} (h : normalizedAffectedInput input = .ok (paths, records)) :
    records ≠ [] := by
  unfold normalizedAffectedInput at h
  split at h
  · cases h
  · rename_i hcount
    have hpos : 1 ≤ input.count := (not_not.mp hcount).1
    have hlength : records.length = input.count := by
      cases input with
      | paths given =>
        dsimp only at h
        cases hmap : given.mapM normalizePath with
        | error e =>
          rw [hmap] at h
          cases h
        | ok changed =>
          rw [hmap] at h
          cases h
          simpa [AnalysisInput.count] using length_mapM_ok hmap
      | changeRecords given =>
        dsimp only at h
        cases hmap : given.mapM normalizeRecord with
        | error e =>
          rw [hmap] at h
          cases h
        | ok normalized =>
          rw [hmap] at h
          cases h
          exact length_mapM_ok hmap
    intro hnil
    rw [hnil, List.length_nil] at hlength
    omega

/-! ## Paths -/

def isAbsolute (path : String) : Bool := path.toList.head? = some '/'

/-- `Path::join` -/
def joinPath (root path : String) : String :=
  if isAbsolute path then path
  else if root.toList.getLast?.all (· = '/') then root ++ path
  else root ++ "/" ++ path

def affectedChangePath (root raw : String) : String :=
  if isAbsolute raw then raw else joinPath root raw

def normalizePathKey (path : String) : String :=
  SqlText.lower (Text.trimStartMatches (SqlText.replace (Text.trim path) "\\" "/") "./")

/-- The columns of a file row that the analysis reads. -/
structure IndexedFile where
  id : Int
  path : String
  indexed : Bool
  complete : Bool
  deriving DecidableEq, Repr

abbrev SortedSet := SortedMap Int Unit

/-- Record indexes in buckets by identity, in the order of first appearance. -/
abbrev Buckets (I : Type) := List (I × List Nat)

section Matching
variable {I : Type} [DecidableEq I]

def Buckets.push (identity : I) (recordIndex : Nat) : Buckets I → Buckets I
  | [] => [(identity, [recordIndex])]
  | (other, indexes) :: rest =>
    if other = identity then (other, indexes ++ [recordIndex]) :: rest
    else (other, indexes) :: Buckets.push identity recordIndex rest

/-- What the records resolve to. -/
structure RecordIdentities (I : Type) where
  currentBuckets : Buckets I := []
  previousBuckets : Buckets I := []
  currentIdentityByRecord : List (Option I) := []
  currentIdentityErrorByRecord : List (Option String) := []
  previousIdentityErrorByRecord : List (Option String) := []

variable (root : String) (resolve : String → Except String I)

def resolveCurrent (found : RecordIdentities I) (record : ChangeRecord) (recordIndex : Nat) :
    RecordIdentities I :=
  match resolve (affectedChangePath root record.path) with
  | .ok identity =>
    { found with
      currentBuckets := found.currentBuckets.push identity recordIndex
      currentIdentityByRecord := found.currentIdentityByRecord ++ [some identity]
      currentIdentityErrorByRecord := found.currentIdentityErrorByRecord ++ [none] }
  | .error error =>
    { found with
      currentIdentityByRecord := found.currentIdentityByRecord ++ [none]
      currentIdentityErrorByRecord := found.currentIdentityErrorByRecord ++ [some error] }

/-- The previous path counts for a renamed or copied record only. -/
def comparablePreviousPath (record : ChangeRecord) : Option String :=
  if record.kind = .renamed ∨ record.kind = .copied then record.previousPath else none

def resolvePrevious (found : RecordIdentities I) (record : ChangeRecord) (recordIndex : Nat) :
    RecordIdentities I :=
  match comparablePreviousPath record with
  | none =>
    { found with
      previousIdentityErrorByRecord := found.previousIdentityErrorByRecord ++ [none] }
  | some previousPath =>
    match resolve (affectedChangePath root previousPath) with
    | .ok identity =>
      { found with
        previousBuckets := found.previousBuckets.push identity recordIndex
        previousIdentityErrorByRecord := found.previousIdentityErrorByRecord ++ [none] }
    | .error error =>
      { found with
        previousIdentityErrorByRecord := found.previousIdentityErrorByRecord ++ [some error] }

def visitRecord (found : RecordIdentities I) (entry : ChangeRecord × Nat) : RecordIdentities I :=
  resolvePrevious root resolve (resolveCurrent root resolve found entry.1 entry.2) entry.1 entry.2

def recordIdentities (records : List ChangeRecord) : RecordIdentities I :=
  records.zipIdx.foldl (visitRecord root resolve) {}

/-- What the indexed files resolve to. -/
structure IndexedIdentities (I : Type) where
  identityByFileId : SortedMap Int I := .empty
  /-- File ids under their identities, in the order of the files. -/
  filesByIdentity : List (I × Int) := []
  unavailableCount : Nat := 0
  unavailableSample : Option (String × String) := none

def IndexedIdentities.fileIds (found : IndexedIdentities I) (identity : I) : List Int :=
  (found.filesByIdentity.filter (·.1 = identity)).map (·.2)

/-- The smaller path, then the smaller message. -/
def sampleIsSmaller (candidate current : String × String) : Bool :=
  ((compare candidate.1 current.1).then (compare candidate.2 current.2)) == .lt

def visitFile (found : IndexedIdentities I) (file : IndexedFile) : IndexedIdentities I :=
  let indexedPath := affectedChangePath root file.path
  match resolve indexedPath with
  | .ok identity =>
    { found with
      identityByFileId := found.identityByFileId.put file.id identity
      filesByIdentity := found.filesByIdentity ++ [(identity, file.id)] }
  | .error error =>
    { found with
      unavailableCount := found.unavailableCount + 1
      unavailableSample :=
        if found.unavailableSample.all (sampleIsSmaller (indexedPath, error) ·) then
          some (indexedPath, error)
        else found.unavailableSample }

def indexedIdentities (files : List IndexedFile) : IndexedIdentities I :=
  files.foldl (visitFile root resolve) {}

structure IdentityMatchWork where
  recordVisits : Nat := 0
  indexedFileVisits : Nat := 0
  currentIdentityBucketVisits : Nat := 0
  previousIdentityBucketVisits : Nat := 0
  bucketRecordVisits : Nat := 0
  indexedBucketFileVisits : Nat := 0
  deriving DecidableEq, Repr

/-- One more visit, saturating, for each element of a list. -/
def countVisits {α : Type} (visits : Nat) (visited : List α) : Nat :=
  visited.foldl (fun visits _ => min (visits + 1) Graph.usizeMax) visits

structure IdentityMatches (I : Type) where
  matchedFileIds : SortedSet
  matchedRecordFlags : List Bool
  matchedRecordIndexByFileId : SortedMap Int Nat
  graphSeededRecordFlags : List Bool
  previousRecordIndexByFileId : SortedMap Int Nat
  currentIdentityByRecord : List (Option I)
  currentIdentityErrorByRecord : List (Option String)
  previousIdentityErrorByRecord : List (Option String)
  indexedIdentityByFileId : SortedMap Int I
  unavailableIndexedIdentityCount : Nat
  unavailableIndexedIdentitySample : Option String
  work : IdentityMatchWork

def firstIndex (indexes : List Nat) : Option Nat :=
  indexes.foldl (fun first recordIndex => some (first.elim recordIndex (min · recordIndex))) none

def raise (flags : List Bool) (indexes : List Nat) : List Bool :=
  indexes.foldl (fun flags recordIndex => flags.set recordIndex true) flags

def keepSmallest (indexByFileId : SortedMap Int Nat) (fileIds : List Int) (recordIndex : Nat) :
    SortedMap Int Nat :=
  fileIds.foldl (fun m fileId => m.offer (· < ·) fileId recordIndex) indexByFileId

variable (fileIdsOf : I → List Int)

/-- Records and files that share a current identity. -/
structure CurrentMatches where
  fileIds : SortedSet := .empty
  recordFlags : List Bool
  recordIndexByFileId : SortedMap Int Nat := .empty
  work : IdentityMatchWork := {}

def matchCurrentBucket (found : CurrentMatches) (bucket : I × List Nat) : CurrentMatches :=
  let work := { found.work with
    currentIdentityBucketVisits := countVisits found.work.currentIdentityBucketVisits [bucket] }
  if (fileIdsOf bucket.1).isEmpty then { found with work := work }
  else
    let work := { work with bucketRecordVisits := countVisits work.bucketRecordVisits bucket.2 }
    let flags := raise found.recordFlags bucket.2
    match firstIndex bucket.2 with
    | none => { found with recordFlags := flags, work := work }
    | some first =>
      { fileIds := (fileIdsOf bucket.1).foldl (fun m fileId => m.put fileId ()) found.fileIds
        recordFlags := flags
        recordIndexByFileId := keepSmallest found.recordIndexByFileId (fileIdsOf bucket.1) first
        work := { work with
          indexedBucketFileVisits :=
            countVisits work.indexedBucketFileVisits (fileIdsOf bucket.1) } }

/-- The files that stand in for an unmatched record by its previous identity. -/
structure PreviousMatches where
  seededFlags : List Bool
  recordIndexByFileId : SortedMap Int Nat := .empty
  work : IdentityMatchWork

def matchPreviousBucket (current : CurrentMatches) (found : PreviousMatches)
    (bucket : I × List Nat) : PreviousMatches :=
  let work := { found.work with
    previousIdentityBucketVisits := countVisits found.work.previousIdentityBucketVisits [bucket] }
  if (fileIdsOf bucket.1).isEmpty then { found with work := work }
  else
    let work := { work with bucketRecordVisits := countVisits work.bucketRecordVisits bucket.2 }
    let eligible := bucket.2.filter fun recordIndex => !current.recordFlags.getD recordIndex false
    let flags := raise found.seededFlags eligible
    match firstIndex eligible with
    | none => { found with seededFlags := flags, work := work }
    | some first =>
      { seededFlags := flags
        recordIndexByFileId := keepSmallest found.recordIndexByFileId
          ((fileIdsOf bucket.1).filter fun fileId => (current.fileIds.get fileId).isNone) first
        work := { work with
          indexedBucketFileVisits :=
            countVisits work.indexedBucketFileVisits (fileIdsOf bucket.1) } }

def currentMatches (recordCount : Nat) (buckets : Buckets I) : CurrentMatches :=
  buckets.foldl (matchCurrentBucket fileIdsOf) { recordFlags := List.replicate recordCount false }

-- The seeded flags start as the matched ones: both are raised together for current identities.
def previousMatches (current : CurrentMatches) (buckets : Buckets I) : PreviousMatches :=
  buckets.foldl (matchPreviousBucket fileIdsOf current)
    { seededFlags := current.recordFlags, work := current.work }

def matchAffectedFileIdentities (changeRecords : List ChangeRecord)
    (indexedFiles : List IndexedFile) : IdentityMatches I :=
  let records := recordIdentities root resolve changeRecords
  let indexed := indexedIdentities root resolve indexedFiles
  let current := currentMatches indexed.fileIds changeRecords.length records.currentBuckets
  let previous := previousMatches indexed.fileIds current records.previousBuckets
  { matchedFileIds := current.fileIds
    matchedRecordFlags := current.recordFlags
    matchedRecordIndexByFileId := current.recordIndexByFileId
    graphSeededRecordFlags := previous.seededFlags
    previousRecordIndexByFileId := previous.recordIndexByFileId
    currentIdentityByRecord := records.currentIdentityByRecord
    currentIdentityErrorByRecord := records.currentIdentityErrorByRecord
    previousIdentityErrorByRecord := records.previousIdentityErrorByRecord
    indexedIdentityByFileId := indexed.identityByFileId
    unavailableIndexedIdentityCount := indexed.unavailableCount
    unavailableIndexedIdentitySample := indexed.unavailableSample.map (·.2)
    work := { previous.work with
      recordVisits := countVisits 0 changeRecords
      indexedFileVisits := countVisits 0 indexedFiles } }

end Matching

/-! ## What matches -/

section Spec
variable {I : Type} [DecidableEq I] {root : String} {resolve : String → Except String I}

def Buckets.Holds (buckets : Buckets I) (identity : I) (recordIndex : Nat) : Prop :=
  ∃ indexes, (identity, indexes) ∈ buckets ∧ recordIndex ∈ indexes

omit [DecidableEq I] in
theorem Buckets.holds_cons {identity other : I} {indexes : List Nat} {rest : Buckets I} {i : Nat} :
    Buckets.Holds ((other, indexes) :: rest) identity i ↔
      (identity = other ∧ i ∈ indexes) ∨ rest.Holds identity i := by
  unfold Buckets.Holds
  constructor
  · rintro ⟨found, hmem, hi⟩
    rcases List.mem_cons.mp hmem with heq | hmem
    · cases heq
      exact Or.inl ⟨rfl, hi⟩
    · exact Or.inr ⟨found, hmem, hi⟩
  · rintro (⟨rfl, hi⟩ | ⟨found, hmem, hi⟩)
    · exact ⟨indexes, List.mem_cons_self, hi⟩
    · exact ⟨found, List.mem_cons_of_mem _ hmem, hi⟩

theorem Buckets.holds_push {identity pushed : I} {i j : Nat} (buckets : Buckets I) :
    (buckets.push pushed j).Holds identity i ↔
      buckets.Holds identity i ∨ (identity = pushed ∧ i = j) := by
  induction buckets with
  | nil => simp [Buckets.push, Buckets.Holds]
  | cons bucket rest ih =>
    obtain ⟨other, indexes⟩ := bucket
    unfold Buckets.push
    split
    · rename_i heq
      subst heq
      rw [Buckets.holds_cons, Buckets.holds_cons, List.mem_append, List.mem_singleton]
      constructor
      · rintro (⟨hid, hi | hi⟩ | h)
        · exact Or.inl (Or.inl ⟨hid, hi⟩)
        · exact Or.inr ⟨hid, hi⟩
        · exact Or.inl (Or.inr h)
      · rintro ((⟨hid, hi⟩ | h) | ⟨hid, hi⟩)
        · exact Or.inl ⟨hid, Or.inl hi⟩
        · exact Or.inr h
        · exact Or.inl ⟨hid, Or.inr hi⟩
    · rw [Buckets.holds_cons, Buckets.holds_cons, ih, or_assoc]

/-- The current path of a record goes to the current buckets only. -/
theorem currentBuckets_visitRecord (found : RecordIdentities I) (entry : ChangeRecord × Nat) :
    (visitRecord root resolve found entry).currentBuckets =
      (resolveCurrent root resolve found entry.1 entry.2).currentBuckets := by
  unfold visitRecord resolvePrevious
  split
  · rfl
  · split <;> rfl

theorem previousBuckets_resolveCurrent (found : RecordIdentities I) (record : ChangeRecord)
    (i : Nat) :
    (resolveCurrent root resolve found record i).previousBuckets = found.previousBuckets := by
  unfold resolveCurrent
  split <;> rfl

theorem holds_visitRecord {found : RecordIdentities I} {entry : ChangeRecord × Nat} {identity : I}
    {i : Nat} :
    (visitRecord root resolve found entry).currentBuckets.Holds identity i ↔
      found.currentBuckets.Holds identity i ∨
        (i = entry.2 ∧ resolve (affectedChangePath root entry.1.path) = .ok identity) := by
  rw [currentBuckets_visitRecord]
  unfold resolveCurrent
  split
  · rename_i found' hresolve
    rw [Buckets.holds_push, hresolve, Except.ok.injEq]
    constructor
    · rintro (h | ⟨rfl, rfl⟩)
      · exact Or.inl h
      · exact Or.inr ⟨rfl, rfl⟩
    · rintro (h | ⟨rfl, rfl⟩)
      · exact Or.inl h
      · exact Or.inr ⟨rfl, rfl⟩
  · rename_i error hresolve
    rw [hresolve]
    simp

theorem previous_holds_visitRecord {found : RecordIdentities I} {entry : ChangeRecord × Nat}
    {identity : I} {i : Nat} :
    (visitRecord root resolve found entry).previousBuckets.Holds identity i ↔
      found.previousBuckets.Holds identity i ∨ (i = entry.2 ∧ ∃ previousPath,
        comparablePreviousPath entry.1 = some previousPath ∧
        resolve (affectedChangePath root previousPath) = .ok identity) := by
  unfold visitRecord resolvePrevious
  split
  · rename_i hnone
    rw [hnone, previousBuckets_resolveCurrent]
    simp
  · rename_i previousPath hprevious
    split
    · rename_i resolved hresolve
      rw [Buckets.holds_push, previousBuckets_resolveCurrent, hprevious]
      apply or_congr_right
      constructor
      · rintro ⟨rfl, rfl⟩
        exact ⟨rfl, previousPath, rfl, hresolve⟩
      · rintro ⟨rfl, _, heq, hresolve'⟩
        cases heq
        rw [hresolve] at hresolve'
        cases hresolve'
        exact ⟨rfl, rfl⟩
    · rename_i error hresolve
      rw [previousBuckets_resolveCurrent, hprevious]
      simp [hresolve]

/-- Buckets that each record joins when it is named so hold the records named so. -/
theorem holds_foldl_visitRecord {buckets : RecordIdentities I → Buckets I}
    {named : ChangeRecord → Prop} {identity : I} {i : Nat}
    (hvisit : ∀ found entry, (buckets (visitRecord root resolve found entry)).Holds identity i ↔
      (buckets found).Holds identity i ∨ (i = entry.2 ∧ named entry.1))
    (hnone : buckets {} = []) (records : List ChangeRecord) :
    (buckets (recordIdentities root resolve records)).Holds identity i ↔
      ∃ record, records[i]? = some record ∧ named record := by
  have hfold : ∀ (entries : List (ChangeRecord × Nat)) (found : RecordIdentities I),
      (buckets (entries.foldl (visitRecord root resolve) found)).Holds identity i ↔
        (buckets found).Holds identity i ∨ ∃ record, (record, i) ∈ entries ∧ named record := by
    intro entries
    induction entries with
    | nil => simp
    | cons entry entries ih =>
      intro found
      rw [List.foldl_cons, ih, hvisit, or_assoc]
      apply or_congr_right
      constructor
      · rintro (⟨rfl, hnamed⟩ | ⟨record, hmem, hnamed⟩)
        · exact ⟨entry.1, List.mem_cons_self, hnamed⟩
        · exact ⟨record, List.mem_cons_of_mem _ hmem, hnamed⟩
      · rintro ⟨record, hmem, hnamed⟩
        rcases List.mem_cons.mp hmem with rfl | hmem
        · exact Or.inl ⟨rfl, hnamed⟩
        · exact Or.inr ⟨record, hmem, hnamed⟩
  unfold recordIdentities
  rw [hfold, hnone]
  simp [Buckets.Holds, List.mk_mem_zipIdx_iff_getElem?]

theorem holds_recordIdentities {records : List ChangeRecord} {identity : I} {i : Nat} :
    (recordIdentities root resolve records).currentBuckets.Holds identity i ↔
      ∃ record, records[i]? = some record ∧
        resolve (affectedChangePath root record.path) = .ok identity :=
  holds_foldl_visitRecord (fun _ _ => holds_visitRecord) rfl records

theorem previous_holds_recordIdentities {records : List ChangeRecord} {identity : I} {i : Nat} :
    (recordIdentities root resolve records).previousBuckets.Holds identity i ↔
      ∃ record, records[i]? = some record ∧ ∃ previousPath,
        comparablePreviousPath record = some previousPath ∧
        resolve (affectedChangePath root previousPath) = .ok identity :=
  holds_foldl_visitRecord (fun _ _ => previous_holds_visitRecord) rfl records

theorem previous_holds_lt {records : List ChangeRecord} {identity : I} {i : Nat}
    (h : (recordIdentities root resolve records).previousBuckets.Holds identity i) :
    i < records.length := by
  obtain ⟨record, hrecord, _⟩ := previous_holds_recordIdentities.mp h
  exact (List.getElem?_eq_some_iff.mp hrecord).1

omit [DecidableEq I] in
theorem filesByIdentity_eq (files : List IndexedFile) :
    (indexedIdentities root resolve files).filesByIdentity = files.filterMap fun file =>
      (resolve (affectedChangePath root file.path)).toOption.map (·, file.id) := by
  have hfold : ∀ (files : List IndexedFile) (found : IndexedIdentities I),
      (files.foldl (visitFile root resolve) found).filesByIdentity =
        found.filesByIdentity ++ files.filterMap fun file =>
          (resolve (affectedChangePath root file.path)).toOption.map (·, file.id) := by
    intro files
    induction files with
    | nil => exact fun _ => (List.append_nil _).symm
    | cons file files ih =>
      intro found
      rw [List.foldl_cons, ih, List.filterMap_cons]
      unfold visitFile
      dsimp only
      cases resolve (affectedChangePath root file.path) with
      | ok identity => exact List.append_assoc _ _ _
      | error error => rfl
  exact hfold files {}

omit [DecidableEq I] in
theorem mem_filesByIdentity {files : List IndexedFile} {identity : I} {fileId : Int} :
    (identity, fileId) ∈ (indexedIdentities root resolve files).filesByIdentity ↔
      ∃ file ∈ files, file.id = fileId ∧
        resolve (affectedChangePath root file.path) = .ok identity := by
  rw [filesByIdentity_eq, List.mem_filterMap]
  apply exists_congr
  intro file
  apply and_congr_right
  intro _
  cases resolve (affectedChangePath root file.path) with
  | ok other => simp [Except.toOption, and_comm]
  | error error => simp [Except.toOption]

theorem mem_fileIds {files : List IndexedFile} {identity : I} {fileId : Int} :
    fileId ∈ (indexedIdentities root resolve files).fileIds identity ↔
      ∃ file ∈ files, file.id = fileId ∧
        resolve (affectedChangePath root file.path) = .ok identity := by
  rw [← mem_filesByIdentity]
  unfold IndexedIdentities.fileIds
  rw [List.mem_map]
  constructor
  · rintro ⟨⟨found, fileId'⟩, hmem, rfl⟩
    obtain ⟨hmem, hid⟩ := List.mem_filter.mp hmem
    have hid : found = identity := by simpa using hid
    exact hid ▸ hmem
  · intro hmem
    exact ⟨(identity, fileId), List.mem_filter.mpr ⟨hmem, by simp⟩, rfl⟩

omit [DecidableEq I] in
theorem unavailableCount_eq_zero {files : List IndexedFile}
    (h : (indexedIdentities root resolve files).unavailableCount = 0) :
    ∀ file ∈ files, ∃ identity, resolve (affectedChangePath root file.path) = .ok identity := by
  have hfold : ∀ (files : List IndexedFile) (found : IndexedIdentities I),
      (files.foldl (visitFile root resolve) found).unavailableCount = 0 →
        found.unavailableCount = 0 ∧
          ∀ file ∈ files, ∃ identity,
            resolve (affectedChangePath root file.path) = .ok identity := by
    intro files
    induction files with
    | nil => simp
    | cons file files ih =>
      intro found h
      obtain ⟨hzero, hrest⟩ := ih _ h
      unfold visitFile at hzero
      dsimp only at hzero
      split at hzero
      · rename_i identity hresolve
        refine ⟨hzero, ?_⟩
        intro other hother
        rcases List.mem_cons.mp hother with rfl | hother
        · exact ⟨identity, hresolve⟩
        · exact hrest other hother
      · exact absurd hzero (Nat.succ_ne_zero _)
  exact (hfold files {} h).2

omit [DecidableEq I] in
/-- With distinct ids no file takes the entry of another. -/
theorem get_identityByFileId {files : List IndexedFile} (hnodup : (files.map (·.id)).Nodup)
    {file : IndexedFile} (hfile : file ∈ files) {identity : I}
    (hresolve : resolve (affectedChangePath root file.path) = .ok identity) :
    (indexedIdentities root resolve files).identityByFileId.get file.id = some identity := by
  have hother : ∀ (files : List IndexedFile) (found : IndexedIdentities I),
      (∀ other ∈ files, other.id ≠ file.id) →
        (files.foldl (visitFile root resolve) found).identityByFileId.get file.id =
          found.identityByFileId.get file.id := by
    intro files
    induction files with
    | nil => intros; rfl
    | cons other files ih =>
      intro found hne
      rw [List.foldl_cons, ih _ fun other hmem => hne other (List.mem_cons_of_mem _ hmem)]
      unfold visitFile
      dsimp only
      split
      · rw [SortedMap.get_put, if_neg (Ne.symm (hne other List.mem_cons_self))]
      · rfl
  obtain ⟨before, after, rfl⟩ := List.append_of_mem hfile
  rw [List.map_append, List.map_cons, List.nodup_middle, List.nodup_cons, List.mem_append] at hnodup
  unfold indexedIdentities
  rw [List.foldl_append, List.foldl_cons, hother]
  · unfold visitFile
    dsimp only
    rw [hresolve, SortedMap.get_put, if_pos rfl]
  · intro other hmem hid
    exact hnodup.1 (Or.inr (hid ▸ List.mem_map_of_mem hmem))

theorem firstIndex_eq_none {indexes : List Nat} : firstIndex indexes = none ↔ indexes = [] := by
  have hsome : ∀ (l : List Nat) (first : Nat), (l.foldl (fun first recordIndex =>
      some (first.elim recordIndex (min · recordIndex))) (some first)).isSome := by
    intro l
    induction l with
    | nil => exact fun _ => rfl
    | cons i l ih => exact fun first => ih _
  cases indexes with
  | nil => simp [firstIndex]
  | cons i l =>
    have h := hsome l i
    rw [Option.isSome_iff_ne_none] at h
    simpa [firstIndex] using h

theorem getD_raise {flags : List Bool} {indexes : List Nat} {i : Nat}
    (h : (raise flags indexes).getD i false = true) : flags.getD i false = true ∨ i ∈ indexes := by
  induction indexes generalizing flags with
  | nil => exact Or.inl h
  | cons j indexes ih =>
    rcases ih h with h | h
    · by_cases hij : i = j
      · exact Or.inr (hij ▸ List.mem_cons_self)
      · rw [List.getD_eq_getElem?_getD, List.getElem?_set_ne (Ne.symm hij),
          ← List.getD_eq_getElem?_getD] at h
        exact Or.inl h
    · exact Or.inr (List.mem_cons_of_mem _ h)

variable {fileIdsOf : I → List Int}

omit [DecidableEq I] in
theorem mem_matchCurrentBucket {found : CurrentMatches} {bucket : I × List Nat} {fileId : Int} :
    fileId ∈ (matchCurrentBucket fileIdsOf found bucket).fileIds.keys ↔
      fileId ∈ found.fileIds.keys ∨ (bucket.2 ≠ [] ∧ fileId ∈ fileIdsOf bucket.1) := by
  unfold matchCurrentBucket
  split
  · rename_i hempty
    rw [List.isEmpty_iff] at hempty
    simp [hempty]
  · dsimp only
    split
    · rename_i hfirst
      rw [firstIndex_eq_none] at hfirst
      simp [hfirst]
    · rename_i first hfirst
      have hne : bucket.2 ≠ [] := by
        intro hnil
        rw [firstIndex_eq_none.mpr hnil] at hfirst
        cases hfirst
      rw [SortedMap.mem_keys_foldl_put, List.map_id', or_comm]
      simp [hne]

omit [DecidableEq I] in
/-- The matched files are those that share the identity of a record. -/
theorem mem_currentMatches {recordCount : Nat} {buckets : Buckets I} {fileId : Int} :
    fileId ∈ (currentMatches fileIdsOf recordCount buckets).fileIds.keys ↔
      ∃ identity i, buckets.Holds identity i ∧ fileId ∈ fileIdsOf identity := by
  have hfold : ∀ (buckets : Buckets I) (found : CurrentMatches),
      fileId ∈ (buckets.foldl (matchCurrentBucket fileIdsOf) found).fileIds.keys ↔
        fileId ∈ found.fileIds.keys ∨
          ∃ identity i, buckets.Holds identity i ∧ fileId ∈ fileIdsOf identity := by
    intro buckets
    induction buckets with
    | nil => simp [Buckets.Holds]
    | cons bucket rest ih =>
      obtain ⟨other, indexes⟩ := bucket
      intro found
      rw [List.foldl_cons, ih, mem_matchCurrentBucket, or_assoc]
      apply or_congr_right
      constructor
      · rintro (⟨hne, hmem⟩ | ⟨identity, i, hholds, hmem⟩)
        · obtain ⟨i, hi⟩ := List.exists_mem_of_ne_nil _ hne
          exact ⟨other, i, Buckets.holds_cons.mpr (Or.inl ⟨rfl, hi⟩), hmem⟩
        · exact ⟨identity, i, Buckets.holds_cons.mpr (Or.inr hholds), hmem⟩
      · rintro ⟨identity, i, hholds, hmem⟩
        rcases Buckets.holds_cons.mp hholds with ⟨rfl, hi⟩ | hholds
        · exact Or.inl ⟨List.ne_nil_of_mem hi, hmem⟩
        · exact Or.inr ⟨identity, i, hholds, hmem⟩
  unfold currentMatches
  rw [hfold]
  simp [SortedMap.mem_keys_iff]

omit [DecidableEq I] in
theorem flag_matchCurrentBucket {found : CurrentMatches} {bucket : I × List Nat} {i : Nat}
    (h : (matchCurrentBucket fileIdsOf found bucket).recordFlags.getD i false = true) :
    found.recordFlags.getD i false = true ∨ (i ∈ bucket.2 ∧ fileIdsOf bucket.1 ≠ []) := by
  unfold matchCurrentBucket at h
  split at h
  · exact Or.inl h
  · rename_i hempty
    rw [List.isEmpty_iff] at hempty
    dsimp only at h
    split at h
    · rcases getD_raise h with h | h
      · exact Or.inl h
      · exact Or.inr ⟨h, hempty⟩
    · rcases getD_raise h with h | h
      · exact Or.inl h
      · exact Or.inr ⟨h, hempty⟩

omit [DecidableEq I] in
/-- Only a record that shares its identity with a file is flagged. -/
theorem flag_currentMatches {recordCount : Nat} {buckets : Buckets I} {i : Nat}
    (h : (currentMatches fileIdsOf recordCount buckets).recordFlags.getD i false = true) :
    ∃ identity, buckets.Holds identity i ∧ fileIdsOf identity ≠ [] := by
  have hfold : ∀ (buckets : Buckets I) (found : CurrentMatches),
      (buckets.foldl (matchCurrentBucket fileIdsOf) found).recordFlags.getD i false = true →
        found.recordFlags.getD i false = true ∨
          ∃ identity, buckets.Holds identity i ∧ fileIdsOf identity ≠ [] := by
    intro buckets
    induction buckets with
    | nil => exact fun found h => Or.inl h
    | cons bucket rest ih =>
      obtain ⟨other, indexes⟩ := bucket
      intro found h
      rcases ih _ h with h | ⟨identity, hholds, hne⟩
      · rcases flag_matchCurrentBucket h with h | ⟨hi, hne⟩
        · exact Or.inl h
        · exact Or.inr ⟨other, Buckets.holds_cons.mpr (Or.inl ⟨rfl, hi⟩), hne⟩
      · exact Or.inr ⟨identity, Buckets.holds_cons.mpr (Or.inr hholds), hne⟩
  rcases hfold _ _ h with h | h
  · rw [List.getD_eq_getElem?_getD, List.getElem?_replicate] at h
    split at h <;> cases h
  · exact h

omit [DecidableEq I] in
/-- A previous identity seeds nothing when the records it stands in for are matched. -/
theorem previousMatches_of_matched {current : CurrentMatches} {buckets : Buckets I}
    (hmatched : ∀ identity i, buckets.Holds identity i → current.recordFlags.getD i false = true) :
    (previousMatches fileIdsOf current buckets).recordIndexByFileId = .empty := by
  have hfold : ∀ found : PreviousMatches,
      (buckets.foldl (matchPreviousBucket fileIdsOf current) found).recordIndexByFileId =
        found.recordIndexByFileId := by
    induction buckets with
    | nil => exact fun _ => rfl
    | cons bucket rest ih =>
      obtain ⟨other, indexes⟩ := bucket
      intro found
      have hnone : indexes.filter (fun i => !current.recordFlags.getD i false) = [] := by
        rw [List.filter_eq_nil_iff]
        intro i hi
        rw [hmatched other i (Buckets.holds_cons.mpr (Or.inl ⟨rfl, hi⟩))]
        simp
      rw [List.foldl_cons, ih fun identity i h =>
        hmatched identity i (Buckets.holds_cons.mpr (Or.inr h))]
      unfold matchPreviousBucket
      dsimp only
      rw [hnone]
      split <;> rfl
  exact hfold _

end Spec

end CodeStory.Affected
