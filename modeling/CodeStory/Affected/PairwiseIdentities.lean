import Mathlib.Algebra.BigOperators.Group.List.Basic
import Mathlib.Algebra.Ring.Nat
import Mathlib.Order.Bounds.Basic
import CodeStory.Affected.Identities

/-!
# Matching by buckets is matching pair by pair

A record and a file share an identity, a current or a previous one; the buckets answer who shares
with whom and which record comes first. The result depends on the files only through these
relations, so their order plays no part. What the passes count of their work is linear.
-/

set_option autoImplicit false

namespace CodeStory.Affected

section Pairs
variable {I : Type} [DecidableEq I] (root : String) (resolve : String → Except String I)

/-- The record has this current identity. -/
def HasCurrent (records : List ChangeRecord) (i : Nat) (identity : I) : Prop :=
  ∃ record, records[i]? = some record ∧
    resolve (affectedChangePath root record.path) = .ok identity

/-- The record is a rename or a copy and has this previous identity. -/
def HasPrevious (records : List ChangeRecord) (i : Nat) (identity : I) : Prop :=
  ∃ record previousPath, records[i]? = some record ∧
    (record.kind = .renamed ∨ record.kind = .copied) ∧ record.previousPath = some previousPath ∧
    resolve (affectedChangePath root previousPath) = .ok identity

def IndexedAs (files : List IndexedFile) (fileId : Int) (identity : I) : Prop :=
  ∃ file ∈ files, file.id = fileId ∧
    resolve (affectedChangePath root file.path) = .ok identity

def SharesCurrent (records : List ChangeRecord) (files : List IndexedFile) (i : Nat)
    (fileId : Int) : Prop :=
  ∃ identity, HasCurrent root resolve records i identity ∧
    IndexedAs root resolve files fileId identity

def SharesPrevious (records : List ChangeRecord) (files : List IndexedFile) (i : Nat)
    (fileId : Int) : Prop :=
  ∃ identity, HasPrevious root resolve records i identity ∧
    IndexedAs root resolve files fileId identity

/-- The pairwise definition of what matches, and of what stands in by a previous identity. -/
structure IsPairwise (records : List ChangeRecord) (files : List IndexedFile)
    (found : IdentityMatches I) : Prop where
  recordCount : found.matchedRecordFlags.length = records.length
  seededCount : found.graphSeededRecordFlags.length = records.length
  matched : ∀ i, found.matchedRecordFlags.getD i false = true ↔
    ∃ fileId, SharesCurrent root resolve records files i fileId
  matchedFile : ∀ fileId, fileId ∈ found.matchedFileIds.keys ↔
    ∃ i, SharesCurrent root resolve records files i fileId
  firstRecord : ∀ fileId i, found.matchedRecordIndexByFileId.get fileId = some i ↔
    IsLeast { i | SharesCurrent root resolve records files i fileId } i
  seeded : ∀ i, found.graphSeededRecordFlags.getD i false = true ↔
    (∃ fileId, SharesCurrent root resolve records files i fileId) ∨
      ∃ fileId, SharesPrevious root resolve records files i fileId
  firstUnmatched : ∀ fileId i, found.previousRecordIndexByFileId.get fileId = some i ↔
    (¬ ∃ i, SharesCurrent root resolve records files i fileId) ∧
      IsLeast { i | (¬ ∃ fileId, SharesCurrent root resolve records files i fileId) ∧
        SharesPrevious root resolve records files i fileId } i

end Pairs

/-! ## Flags and first indexes -/

theorem length_raise (flags : List Bool) (indexes : List Nat) :
    (raise flags indexes).length = flags.length := by
  unfold raise
  induction indexes generalizing flags with
  | nil => rfl
  | cons i indexes ih => rw [List.foldl_cons, ih, List.length_set]

theorem getD_raise_iff {flags : List Bool} {indexes : List Nat} {i : Nat} :
    (raise flags indexes).getD i false = true ↔
      flags.getD i false = true ∨ i ∈ indexes ∧ i < flags.length := by
  induction indexes generalizing flags with
  | nil => simp [raise]
  | cons j indexes ih =>
    have hcons : raise flags (j :: indexes) = raise (flags.set j true) indexes := rfl
    rw [hcons, ih, List.length_set, List.getD_eq_getElem?_getD, List.getElem?_set, List.mem_cons]
    by_cases hij : j = i
    · subst hij
      by_cases hlt : j < flags.length
      · simp [hlt]
      · simp [hlt]
    · rw [if_neg hij, ← List.getD_eq_getElem?_getD]
      simp [Ne.symm hij]

theorem isLeast_firstIndex {indexes : List Nat} {i : Nat} :
    firstIndex indexes = some i ↔ IsLeast { i | i ∈ indexes } i := by
  have hfold : ∀ (l : List Nat) (first : Nat), ∃ i,
      l.foldl (fun first recordIndex => some (first.elim recordIndex (min · recordIndex)))
        (some first) = some i ∧ IsLeast { i | i = first ∨ i ∈ l } i := by
    intro l
    induction l with
    | nil => exact fun first => ⟨first, rfl, by simp [IsLeast, lowerBounds]⟩
    | cons j l ih =>
      intro first
      obtain ⟨i, hfold, hmem, hleast⟩ := ih (min first j)
      refine ⟨i, hfold, ?_, ?_⟩
      · rcases hmem with rfl | hmem
        · rcases Nat.le_total first j with h | h
          · exact .inl (min_eq_left h)
          · rw [min_eq_right h]
            exact .inr List.mem_cons_self
        · exact .inr (List.mem_cons_of_mem _ hmem)
      · intro k hk
        have hmin : i ≤ min first j := hleast (.inl rfl)
        rcases hk with rfl | hk
        · exact hmin.trans (min_le_left _ _)
        · rcases List.mem_cons.mp hk with rfl | hk
          · exact hmin.trans (min_le_right _ _)
          · exact hleast (.inr hk)
  cases indexes with
  | nil => simp [firstIndex, IsLeast]
  | cons j l =>
    obtain ⟨k, hk, hleast⟩ := hfold l j
    have hfirst : firstIndex (j :: l) = some k := hk
    have hset : { i | i = j ∨ i ∈ l } = { i | i ∈ j :: l } := by
      ext i
      simp
    rw [hset] at hleast
    rw [hfirst, Option.some.injEq]
    constructor
    · rintro rfl
      exact hleast
    · exact hleast.unique

/-- The least of the least ones is the least of all. -/
theorem isLeast_of_leasts {β : Type*} {s : β → Nat → Prop} {p : β → Prop} {n : Nat} :
    IsLeast { m | ∃ b, p b ∧ IsLeast { m | s b m } m } n ↔ IsLeast { m | ∃ b, p b ∧ s b m } n := by
  classical
  have hbelow : ∀ b m, s b m → ∃ k, IsLeast { m | s b m } k ∧ k ≤ m := by
    intro b m hm
    have hex : ∃ m, s b m := ⟨m, hm⟩
    exact ⟨Nat.find hex, ⟨Nat.find_spec hex, fun k hk => Nat.find_min' hex hk⟩,
      Nat.find_min' hex hm⟩
  constructor
  · rintro ⟨⟨b, hb, hleast⟩, hlower⟩
    refine ⟨⟨b, hb, hleast.1⟩, ?_⟩
    rintro m ⟨b', hb', hm⟩
    obtain ⟨k, hk, hkm⟩ := hbelow b' m hm
    exact (hlower ⟨b', hb', hk⟩).trans hkm
  · rintro ⟨⟨b, hb, hn⟩, hlower⟩
    refine ⟨⟨b, hb, hn, fun m hm => hlower ⟨b, hb, hm⟩⟩, ?_⟩
    rintro m ⟨b', hb', hm⟩
    exact hlower ⟨b', hb', hm.1⟩

theorem keepSmallest_eq (indexByFileId : SortedMap Int Nat) (fileIds : List Int) (first : Nat) :
    keepSmallest indexByFileId fileIds first =
      (fileIds.map fun fileId => (fileId, first)).foldl
        (fun m e => m.offer (fun a b => decide (a < b)) e.1 e.2) indexByFileId := by
  unfold keepSmallest
  rw [List.foldl_map]

/-! ## The buckets -/

section Buckets
variable {I : Type} {fileIdsOf : I → List Int}

/-- A record of the bucket of an identity and a file of this identity. -/
def Buckets.Meets (buckets : Buckets I) (fileIdsOf : I → List Int) (i : Nat) (fileId : Int) :
    Prop :=
  ∃ identity, buckets.Holds identity i ∧ fileId ∈ fileIdsOf identity

theorem Buckets.meets_cons {bucket : I × List Nat} {rest : Buckets I} {i : Nat} {fileId : Int} :
    Buckets.Meets (bucket :: rest) fileIdsOf i fileId ↔
      (i ∈ bucket.2 ∧ fileId ∈ fileIdsOf bucket.1) ∨ rest.Meets fileIdsOf i fileId := by
  unfold Buckets.Meets
  constructor
  · rintro ⟨identity, hholds, hfile⟩
    rcases Buckets.holds_cons.mp hholds with ⟨rfl, hi⟩ | hholds
    · exact .inl ⟨hi, hfile⟩
    · exact .inr ⟨identity, hholds, hfile⟩
  · rintro (⟨hi, hfile⟩ | ⟨identity, hholds, hfile⟩)
    · exact ⟨bucket.1, Buckets.holds_cons.mpr (.inl ⟨rfl, hi⟩), hfile⟩
    · exact ⟨identity, Buckets.holds_cons.mpr (.inr hholds), hfile⟩

theorem recordFlags_matchCurrentBucket (found : CurrentMatches) (bucket : I × List Nat) :
    (matchCurrentBucket fileIdsOf found bucket).recordFlags =
      if (fileIdsOf bucket.1).isEmpty then found.recordFlags
      else raise found.recordFlags bucket.2 := by
  unfold matchCurrentBucket
  split
  · rfl
  · dsimp only
    split <;> rfl

theorem seededFlags_matchPreviousBucket (current : CurrentMatches) (found : PreviousMatches)
    (bucket : I × List Nat) :
    (matchPreviousBucket fileIdsOf current found bucket).seededFlags =
      if (fileIdsOf bucket.1).isEmpty then found.seededFlags
      else raise found.seededFlags
        (bucket.2.filter fun i => !current.recordFlags.getD i false) := by
  unfold matchPreviousBucket
  split
  · rfl
  · dsimp only
    split <;> rfl

theorem length_recordFlags (recordCount : Nat) (buckets : Buckets I) :
    (currentMatches fileIdsOf recordCount buckets).recordFlags.length = recordCount := by
  have hfold : ∀ (buckets : Buckets I) (found : CurrentMatches),
      (buckets.foldl (matchCurrentBucket fileIdsOf) found).recordFlags.length =
        found.recordFlags.length := by
    intro buckets
    induction buckets with
    | nil => exact fun _ => rfl
    | cons bucket rest ih =>
      intro found
      rw [List.foldl_cons, ih, recordFlags_matchCurrentBucket]
      split
      · rfl
      · exact length_raise _ _
  unfold currentMatches
  rw [hfold, List.length_replicate]

theorem length_seededFlags (current : CurrentMatches) (buckets : Buckets I) :
    (previousMatches fileIdsOf current buckets).seededFlags.length =
      current.recordFlags.length := by
  have hfold : ∀ (buckets : Buckets I) (found : PreviousMatches),
      (buckets.foldl (matchPreviousBucket fileIdsOf current) found).seededFlags.length =
        found.seededFlags.length := by
    intro buckets
    induction buckets with
    | nil => exact fun _ => rfl
    | cons bucket rest ih =>
      intro found
      rw [List.foldl_cons, ih, seededFlags_matchPreviousBucket]
      split
      · rfl
      · exact length_raise _ _
  unfold previousMatches
  rw [hfold]

theorem exists_mem_fileIds_iff {identity : I} :
    (∃ fileId, fileId ∈ fileIdsOf identity) ↔ ¬ (fileIdsOf identity).isEmpty = true := by
  rw [List.isEmpty_iff]
  exact ⟨fun ⟨_, h⟩ => List.ne_nil_of_mem h, List.exists_mem_of_ne_nil _⟩

/-- The flagged records are those that meet a file. -/
theorem flag_currentMatches_iff {recordCount : Nat} {buckets : Buckets I}
    (hbound : ∀ identity i, buckets.Holds identity i → i < recordCount) (i : Nat) :
    (currentMatches fileIdsOf recordCount buckets).recordFlags.getD i false = true ↔
      ∃ fileId, buckets.Meets fileIdsOf i fileId := by
  have hfold : ∀ (buckets : Buckets I) (found : CurrentMatches),
      (∀ identity i, buckets.Holds identity i → i < found.recordFlags.length) →
      ((buckets.foldl (matchCurrentBucket fileIdsOf) found).recordFlags.getD i false = true ↔
        found.recordFlags.getD i false = true ∨ ∃ fileId, buckets.Meets fileIdsOf i fileId) := by
    intro buckets
    induction buckets with
    | nil =>
      intro found _
      simp [Buckets.Meets, Buckets.Holds]
    | cons bucket rest ih =>
      intro found hbound
      have hlength : (matchCurrentBucket fileIdsOf found bucket).recordFlags.length =
          found.recordFlags.length := by
        rw [recordFlags_matchCurrentBucket]
        split
        · rfl
        · exact length_raise _ _
      rw [List.foldl_cons, ih]
      · rw [recordFlags_matchCurrentBucket]
        simp only [Buckets.meets_cons, exists_or, exists_and_left, ← or_assoc,
          exists_mem_fileIds_iff]
        apply or_congr_left
        split
        · rename_i hempty
          simp [hempty]
        · rename_i hempty
          rw [getD_raise_iff]
          apply or_congr_right
          constructor
          · intro h
            exact ⟨h.1, hempty⟩
          · intro h
            exact ⟨h.1, hbound bucket.1 i (Buckets.holds_cons.mpr (.inl ⟨rfl, h.1⟩))⟩
      · intro identity i hholds
        rw [hlength]
        exact hbound identity i (Buckets.holds_cons.mpr (.inr hholds))
  unfold currentMatches
  rw [hfold]
  · rw [List.getD_eq_getElem?_getD, List.getElem?_replicate]
    apply or_iff_right
    split <;> simp
  · intro identity i hholds
    rw [List.length_replicate]
    exact hbound identity i hholds

theorem flag_previousMatches_iff {current : CurrentMatches} {buckets : Buckets I}
    (hbound : ∀ identity i, buckets.Holds identity i → i < current.recordFlags.length) (i : Nat) :
    (previousMatches fileIdsOf current buckets).seededFlags.getD i false = true ↔
      current.recordFlags.getD i false = true ∨ ∃ fileId, buckets.Meets fileIdsOf i fileId := by
  have hfold : ∀ (buckets : Buckets I) (found : PreviousMatches),
      (∀ identity i, buckets.Holds identity i → i < found.seededFlags.length) →
      (current.recordFlags.getD i false = true → found.seededFlags.getD i false = true) →
      ((buckets.foldl (matchPreviousBucket fileIdsOf current) found).seededFlags.getD i false =
          true ↔
        found.seededFlags.getD i false = true ∨ ∃ fileId, buckets.Meets fileIdsOf i fileId) := by
    intro buckets
    induction buckets with
    | nil =>
      intro found _ _
      simp [Buckets.Meets, Buckets.Holds]
    | cons bucket rest ih =>
      intro found hbound hkeep
      have hlength : (matchPreviousBucket fileIdsOf current found bucket).seededFlags.length =
          found.seededFlags.length := by
        rw [seededFlags_matchPreviousBucket]
        split
        · rfl
        · exact length_raise _ _
      have hflag : (matchPreviousBucket fileIdsOf current found bucket).seededFlags.getD i false =
          true ↔ found.seededFlags.getD i false = true ∨
            (i ∈ bucket.2 ∧ ¬ (fileIdsOf bucket.1).isEmpty = true) := by
        rw [seededFlags_matchPreviousBucket]
        split
        · rename_i hempty
          simp [hempty]
        · rename_i hempty
          rw [getD_raise_iff, List.mem_filter]
          constructor
          · rintro (h | ⟨⟨hi, _⟩, _⟩)
            · exact .inl h
            · exact .inr ⟨hi, hempty⟩
          · rintro (h | ⟨hi, _⟩)
            · exact .inl h
            · -- a matched record is seeded from the start
              cases hmatched : current.recordFlags.getD i false with
              | true => exact .inl (hkeep hmatched)
              | false =>
                refine .inr ⟨⟨hi, rfl⟩, ?_⟩
                exact hbound bucket.1 i (Buckets.holds_cons.mpr (.inl ⟨rfl, hi⟩))
      rw [List.foldl_cons, ih]
      · rw [hflag]
        simp only [Buckets.meets_cons, exists_or, exists_and_left, ← or_assoc,
          exists_mem_fileIds_iff]
      · intro identity i hholds
        rw [hlength]
        exact hbound identity i (Buckets.holds_cons.mpr (.inr hholds))
      · intro hmatched
        exact hflag.mpr (.inl (hkeep hmatched))
  unfold previousMatches
  rw [hfold _ _ hbound id]

/-- What one bucket offers: its first index for each of the files. -/
def bucketOffers (fileIds : List Int) (indexes : List Nat) : List (Int × Nat) :=
  fileIds.flatMap fun fileId => (firstIndex indexes).toList.map fun first => (fileId, first)

theorem bucketOffers_of_none {fileIds : List Int} {indexes : List Nat}
    (h : firstIndex indexes = none) : bucketOffers fileIds indexes = [] := by
  unfold bucketOffers
  rw [h]
  simp

theorem bucketOffers_of_some {fileIds : List Int} {indexes : List Nat} {first : Nat}
    (h : firstIndex indexes = some first) :
    bucketOffers fileIds indexes = fileIds.map fun fileId => (fileId, first) := by
  unfold bucketOffers
  rw [h, List.map_eq_flatMap]
  rfl

theorem mem_bucketOffers {fileIds : List Int} {indexes : List Nat} {fileId : Int} {i : Nat} :
    (fileId, i) ∈ bucketOffers fileIds indexes ↔
      fileId ∈ fileIds ∧ IsLeast { i | i ∈ indexes } i := by
  unfold bucketOffers
  rw [List.mem_flatMap, ← isLeast_firstIndex]
  constructor
  · rintro ⟨other, hother, hmem⟩
    obtain ⟨first, hfirst, heq⟩ := List.mem_map.mp hmem
    cases heq
    exact ⟨hother, Option.mem_toList.mp hfirst⟩
  · rintro ⟨hmem, hfirst⟩
    exact ⟨fileId, hmem, List.mem_map.mpr ⟨i, Option.mem_toList.mpr hfirst, rfl⟩⟩

theorem offers_matchCurrentBucket (found : CurrentMatches) (bucket : I × List Nat) :
    (matchCurrentBucket fileIdsOf found bucket).recordIndexByFileId =
      (bucketOffers (fileIdsOf bucket.1) bucket.2).foldl
        (fun m e => m.offer (fun a b => decide (a < b)) e.1 e.2) found.recordIndexByFileId := by
  unfold matchCurrentBucket
  split
  · rename_i hempty
    rw [List.isEmpty_iff.mp hempty]
    rfl
  · dsimp only
    split
    · rename_i hnone
      rw [bucketOffers_of_none hnone]
      rfl
    · rename_i first hfirst
      rw [bucketOffers_of_some hfirst]
      exact keepSmallest_eq _ _ _

theorem offers_matchPreviousBucket (current : CurrentMatches) (found : PreviousMatches)
    (bucket : I × List Nat) :
    (matchPreviousBucket fileIdsOf current found bucket).recordIndexByFileId =
      (bucketOffers
        ((fileIdsOf bucket.1).filter fun fileId => (current.fileIds.get fileId).isNone)
        (bucket.2.filter fun i => !current.recordFlags.getD i false)).foldl
        (fun m e => m.offer (fun a b => decide (a < b)) e.1 e.2) found.recordIndexByFileId := by
  unfold matchPreviousBucket
  split
  · rename_i hempty
    rw [List.isEmpty_iff.mp hempty]
    rfl
  · dsimp only
    split
    · rename_i hnone
      rw [bucketOffers_of_none hnone]
      rfl
    · rename_i first hfirst
      rw [bucketOffers_of_some hfirst]
      exact keepSmallest_eq _ _ _

/-- Offers of all the buckets leave the first index of those that meet the file. -/
theorem get_foldl_bucketOffers {buckets : Buckets I} {fileId : Int} {i : Nat}
    {fileIds : I × List Nat → List Int} {indexes : I × List Nat → List Nat} :
    ((buckets.flatMap fun bucket => bucketOffers (fileIds bucket) (indexes bucket)).foldl
        (fun m e => m.offer (fun a b => decide (a < b)) e.1 e.2) SortedMap.empty).get fileId =
        some i ↔
      IsLeast { i | ∃ bucket, (bucket ∈ buckets ∧ fileId ∈ fileIds bucket) ∧ i ∈ indexes bucket }
        i := by
  rw [SortedMap.get_foldl_offer_lt, ← isLeast_of_leasts]
  apply iff_of_eq
  congr 1
  ext j
  simp only [Set.mem_ofPred_eq, List.mem_flatMap, mem_bucketOffers, and_assoc]

theorem firstIndex_currentMatches {recordCount : Nat} {buckets : Buckets I} {fileId : Int}
    {i : Nat} :
    (currentMatches fileIdsOf recordCount buckets).recordIndexByFileId.get fileId = some i ↔
      IsLeast { i | buckets.Meets fileIdsOf i fileId } i := by
  have hfold : ∀ (buckets : Buckets I) (found : CurrentMatches),
      (buckets.foldl (matchCurrentBucket fileIdsOf) found).recordIndexByFileId =
        (buckets.flatMap fun bucket => bucketOffers (fileIdsOf bucket.1) bucket.2).foldl
          (fun m e => m.offer (fun a b => decide (a < b)) e.1 e.2) found.recordIndexByFileId := by
    intro buckets
    induction buckets with
    | nil => exact fun _ => rfl
    | cons bucket rest ih =>
      intro found
      rw [List.foldl_cons, ih, offers_matchCurrentBucket, List.flatMap_cons, List.foldl_append]
  unfold currentMatches
  rw [hfold, get_foldl_bucketOffers]
  apply iff_of_eq
  congr 1
  ext j
  unfold Buckets.Meets Buckets.Holds
  constructor
  · rintro ⟨bucket, ⟨hbucket, hfile⟩, hj⟩
    exact ⟨bucket.1, ⟨bucket.2, hbucket, hj⟩, hfile⟩
  · rintro ⟨identity, ⟨indexes, hbucket, hj⟩, hfile⟩
    exact ⟨(identity, indexes), ⟨hbucket, hfile⟩, hj⟩

theorem firstIndex_previousMatches {current : CurrentMatches} {buckets : Buckets I}
    {fileId : Int} {i : Nat} :
    (previousMatches fileIdsOf current buckets).recordIndexByFileId.get fileId = some i ↔
      fileId ∉ current.fileIds.keys ∧
        IsLeast { i | current.recordFlags.getD i false = false ∧
          buckets.Meets fileIdsOf i fileId } i := by
  have hfold : ∀ (buckets : Buckets I) (found : PreviousMatches),
      (buckets.foldl (matchPreviousBucket fileIdsOf current) found).recordIndexByFileId =
        (buckets.flatMap fun bucket => bucketOffers
          ((fileIdsOf bucket.1).filter fun fileId => (current.fileIds.get fileId).isNone)
          (bucket.2.filter fun i => !current.recordFlags.getD i false)).foldl
          (fun m e => m.offer (fun a b => decide (a < b)) e.1 e.2) found.recordIndexByFileId := by
    intro buckets
    induction buckets with
    | nil => exact fun _ => rfl
    | cons bucket rest ih =>
      intro found
      rw [List.foldl_cons, ih, offers_matchPreviousBucket, List.flatMap_cons, List.foldl_append]
  have hkey : (current.fileIds.get fileId).isNone = true ↔ fileId ∉ current.fileIds.keys := by
    rw [SortedMap.mem_keys_iff]
    cases current.fileIds.get fileId <;> simp
  unfold previousMatches
  rw [hfold, get_foldl_bucketOffers]
  have hset : { i | ∃ bucket, (bucket ∈ buckets ∧
        fileId ∈ (fileIdsOf bucket.1).filter fun fileId => (current.fileIds.get fileId).isNone) ∧
        i ∈ bucket.2.filter fun i => !current.recordFlags.getD i false } =
      { i | fileId ∉ current.fileIds.keys ∧ current.recordFlags.getD i false = false ∧
        buckets.Meets fileIdsOf i fileId } := by
    ext j
    unfold Buckets.Meets Buckets.Holds
    simp only [Set.mem_ofPred_eq, List.mem_filter, hkey, Bool.not_eq_true']
    constructor
    · rintro ⟨bucket, ⟨hbucket, hfile, hkeys⟩, hj, hflag⟩
      exact ⟨hkeys, hflag, bucket.1, ⟨bucket.2, hbucket, hj⟩, hfile⟩
    · rintro ⟨hkeys, hflag, identity, ⟨indexes, hbucket, hj⟩, hfile⟩
      exact ⟨(identity, indexes), ⟨hbucket, hfile, hkeys⟩, hj, hflag⟩
  rw [hset]
  constructor
  · intro h
    exact ⟨h.1.1, h.1.2, fun k hk => h.2 ⟨h.1.1, hk⟩⟩
  · intro h
    exact ⟨⟨h.1, h.2.1⟩, fun k hk => h.2.2 hk.2⟩

end Buckets

/-! ## The pairwise definition -/

section Pairwise
variable {I : Type} [DecidableEq I] {root : String} {resolve : String → Except String I}
  {records : List ChangeRecord} {files : List IndexedFile}

theorem holds_previous_iff {identity : I} {i : Nat} :
    (recordIdentities root resolve records).previousBuckets.Holds identity i ↔
      HasPrevious root resolve records i identity := by
  rw [previous_holds_recordIdentities]
  unfold HasPrevious comparablePreviousPath
  apply exists_congr
  intro record
  rw [← exists_and_left]
  apply exists_congr
  intro previousPath
  apply and_congr_right
  intro _
  split
  · rename_i hkind
    simp [hkind]
  · rename_i hkind
    simp [hkind]

theorem meets_current_iff {i : Nat} {fileId : Int} :
    (recordIdentities root resolve records).currentBuckets.Meets
        (indexedIdentities root resolve files).fileIds i fileId ↔
      SharesCurrent root resolve records files i fileId := by
  unfold Buckets.Meets SharesCurrent HasCurrent IndexedAs
  simp only [holds_recordIdentities, mem_fileIds]

theorem meets_previous_iff {i : Nat} {fileId : Int} :
    (recordIdentities root resolve records).previousBuckets.Meets
        (indexedIdentities root resolve files).fileIds i fileId ↔
      SharesPrevious root resolve records files i fileId := by
  unfold Buckets.Meets SharesPrevious IndexedAs
  simp only [holds_previous_iff, mem_fileIds]

theorem current_holds_lt (identity : I) (i : Nat)
    (h : (recordIdentities root resolve records).currentBuckets.Holds identity i) :
    i < records.length := by
  obtain ⟨record, hrecord, _⟩ := holds_recordIdentities.mp h
  exact (List.getElem?_eq_some_iff.mp hrecord).1

/-- The buckets compute the pairwise definition. -/
theorem isPairwise_matchAffectedFileIdentities :
    IsPairwise root resolve records files
      (matchAffectedFileIdentities root resolve records files) := by
  have hmatched : ∀ i, (matchAffectedFileIdentities root resolve records
      files).matchedRecordFlags.getD i false = true ↔
        ∃ fileId, SharesCurrent root resolve records files i fileId := by
    intro i
    refine (flag_currentMatches_iff current_holds_lt i).trans ?_
    simp only [meets_current_iff]
  have hmatchedFile : ∀ fileId, fileId ∈ (matchAffectedFileIdentities root resolve records
      files).matchedFileIds.keys ↔ ∃ i, SharesCurrent root resolve records files i fileId := by
    intro fileId
    refine mem_currentMatches.trans ?_
    simp only [← meets_current_iff, Buckets.Meets]
    exact exists_comm
  have hlength : (currentMatches (indexedIdentities root resolve files).fileIds records.length
      (recordIdentities root resolve records).currentBuckets).recordFlags.length =
        records.length := length_recordFlags _ _
  refine ⟨hlength, (length_seededFlags _ _).trans hlength, hmatched, hmatchedFile, ?_, ?_, ?_⟩
  · intro fileId i
    refine firstIndex_currentMatches.trans ?_
    simp only [meets_current_iff]
  · intro i
    refine (flag_previousMatches_iff ?_ i).trans ?_
    · intro identity i h
      rw [hlength]
      exact previous_holds_lt h
    · simp only [meets_previous_iff]
      exact or_congr_left (hmatched i)
  · intro fileId i
    refine firstIndex_previousMatches.trans ?_
    have hflag : ∀ i, (currentMatches (indexedIdentities root resolve files).fileIds
        records.length (recordIdentities root resolve records).currentBuckets).recordFlags.getD i
          false = false ↔ ¬ ∃ fileId, SharesCurrent root resolve records files i fileId := by
      intro i
      rw [← hmatched i]
      exact (Bool.not_eq_true _).symm.to_iff
    simp only [meets_previous_iff, hflag]
    exact and_congr_left fun _ => not_congr (hmatchedFile fileId)

end Pairwise

/-! ## The order of the files -/

/-- The comparison of the unavailable paths and their messages. -/
def compareSamples : String × String → String × String → Ordering :=
  compareLex (compareOn (·.1)) (compareOn (·.2))

theorem sampleIsSmaller_iff {candidate current : String × String} :
    sampleIsSmaller candidate current = true ↔ compareSamples candidate current = .lt := by
  unfold sampleIsSmaller
  exact beq_iff_eq

/-- The sample stands for the failed paths: one of them, with none before it. -/
def IsSample (failed : List (String × String)) : Option (String × String) → Prop
  | none => failed = []
  | some sample => sample ∈ failed ∧
      ∀ candidate ∈ failed, compareSamples candidate sample ≠ .lt

theorem IsSample.unique {failed : List (String × String)} {sample other : Option (String × String)}
    (h : IsSample failed sample) (h' : IsSample failed other) : sample = other := by
  cases sample with
  | none =>
    cases other with
    | none => rfl
    | some b =>
      obtain rfl : failed = [] := h
      exact absurd h'.1 List.not_mem_nil
  | some a =>
    cases other with
    | none =>
      obtain rfl : failed = [] := h'
      exact absurd h.1 List.not_mem_nil
    | some b =>
      have hle : Std.OrientedCmp compareSamples :=
        inferInstanceAs (Std.OrientedCmp (compareLex _ _))
      have hlawful : Std.LawfulEqCmp compareSamples := ⟨fun {a b} hab => by
        rw [compareSamples, compareLex_eq_eq] at hab
        exact Prod.ext (Std.LawfulEqCmp.eq_of_compare hab.1)
          (Std.LawfulEqCmp.eq_of_compare hab.2)⟩
      have hba : compareSamples b a ≠ .lt := h.2 b h'.1
      have hab : compareSamples a b ≠ .lt := h'.2 a h.1
      cases hcmp : compareSamples a b with
      | lt => exact absurd hcmp hab
      | eq => rw [hlawful.eq_of_compare hcmp]
      | gt => exact absurd (Std.OrientedCmp.lt_of_gt hcmp) hba

section Order
variable {I : Type} {root : String} {resolve : String → Except String I}

/-- The failed paths with their messages. -/
def failedPaths (root : String) (resolve : String → Except String I) (files : List IndexedFile) :
    List (String × String) :=
  files.filterMap fun file =>
    match resolve (affectedChangePath root file.path) with
    | .ok _ => none
    | .error error => some (affectedChangePath root file.path, error)

theorem IsSample.snoc {failed : List (String × String)} {sample : Option (String × String)}
    (h : IsSample failed sample) (candidate : String × String) :
    IsSample (failed ++ [candidate])
      (if sample.all (sampleIsSmaller candidate ·) then some candidate else sample) := by
  have htrans : Std.TransCmp compareSamples := inferInstanceAs (Std.TransCmp (compareLex _ _))
  have hself : ∀ sample, compareSamples sample sample = .eq := fun _ => Std.ReflCmp.compare_self
  cases sample with
  | none =>
    obtain rfl : failed = [] := h
    refine ⟨List.mem_singleton_self _, ?_⟩
    intro other hother
    obtain rfl := List.mem_singleton.mp hother
    rw [hself]
    exact Ordering.noConfusion
  | some sample =>
    rw [Option.all_some]
    split
    · rename_i hsmaller
      rw [sampleIsSmaller_iff] at hsmaller
      refine ⟨List.mem_append_right _ (List.mem_singleton_self _), ?_⟩
      intro other hother
      rcases List.mem_append.mp hother with hother | hother
      · intro hlt
        exact h.2 other hother (Std.TransCmp.lt_trans hlt hsmaller)
      · obtain rfl := List.mem_singleton.mp hother
        rw [hself]
        exact Ordering.noConfusion
    · rename_i hnot
      refine ⟨List.mem_append_left _ h.1, ?_⟩
      intro other hother
      rcases List.mem_append.mp hother with hother | hother
      · exact h.2 other hother
      · obtain rfl := List.mem_singleton.mp hother
        exact fun hlt => hnot (sampleIsSmaller_iff.mpr hlt)

/-- What is counted and sampled of the failed paths. -/
theorem indexedIdentities_failed (files : List IndexedFile) :
    (indexedIdentities root resolve files).unavailableCount =
        (failedPaths root resolve files).length ∧
      IsSample (failedPaths root resolve files)
        (indexedIdentities root resolve files).unavailableSample := by
  have hfold : ∀ (files : List IndexedFile) (found : IndexedIdentities I)
      (failed : List (String × String)), found.unavailableCount = failed.length →
      IsSample failed found.unavailableSample →
      (files.foldl (visitFile root resolve) found).unavailableCount =
          (failed ++ failedPaths root resolve files).length ∧
        IsSample (failed ++ failedPaths root resolve files)
          (files.foldl (visitFile root resolve) found).unavailableSample := by
    intro files
    induction files with
    | nil =>
      intro found failed hcount hsample
      rw [failedPaths, List.filterMap_nil, List.append_nil]
      exact ⟨hcount, hsample⟩
    | cons file files ih =>
      intro found failed hcount hsample
      rw [List.foldl_cons]
      cases hresolve : resolve (affectedChangePath root file.path) with
      | ok identity =>
        have hfailed : failedPaths root resolve (file :: files) =
            failedPaths root resolve files := by
          unfold failedPaths
          rw [List.filterMap_cons, hresolve]
        rw [hfailed]
        apply ih
        · unfold visitFile
          dsimp only
          rw [hresolve]
          exact hcount
        · unfold visitFile
          dsimp only
          rw [hresolve]
          exact hsample
      | error error =>
        have hfailed : failedPaths root resolve (file :: files) =
            (affectedChangePath root file.path, error) :: failedPaths root resolve files := by
          unfold failedPaths
          rw [List.filterMap_cons, hresolve]
        rw [hfailed, List.append_cons]
        apply ih
        · unfold visitFile
          dsimp only
          rw [hresolve, List.length_append, List.length_singleton, hcount]
        · unfold visitFile
          dsimp only
          rw [hresolve]
          exact hsample.snoc _
  exact hfold files {} [] rfl rfl

theorem indexedIdentities_failed_perm {files files' : List IndexedFile}
    (hperm : files.Perm files') :
    (indexedIdentities root resolve files).unavailableCount =
        (indexedIdentities root resolve files').unavailableCount ∧
      (indexedIdentities root resolve files).unavailableSample =
        (indexedIdentities root resolve files').unavailableSample := by
  obtain ⟨hcount, hsample⟩ := @indexedIdentities_failed I root resolve files
  obtain ⟨hcount', hsample'⟩ := @indexedIdentities_failed I root resolve files'
  have hfailed : (failedPaths root resolve files).Perm (failedPaths root resolve files') :=
    hperm.filterMap _
  refine ⟨by rw [hcount, hcount', hfailed.length_eq], ?_⟩
  apply hsample.unique
  generalize (indexedIdentities root resolve files').unavailableSample = sample at hsample'
  cases sample with
  | none => exact List.perm_nil.mp (hsample' ▸ hfailed)
  | some sample =>
    refine ⟨hfailed.mem_iff.mpr hsample'.1, ?_⟩
    intro candidate hcandidate
    exact hsample'.2 candidate (hfailed.mem_iff.mp hcandidate)

theorem get_identityByFileId_iff {files : List IndexedFile} (hnodup : (files.map (·.id)).Nodup)
    {fileId : Int} {identity : I} :
    (indexedIdentities root resolve files).identityByFileId.get fileId = some identity ↔
      IndexedAs root resolve files fileId identity := by
  have hfold : ∀ (files : List IndexedFile) (found : IndexedIdentities I),
      (files.foldl (visitFile root resolve) found).identityByFileId.get fileId = some identity →
        found.identityByFileId.get fileId = some identity ∨
          IndexedAs root resolve files fileId identity := by
    intro files
    induction files with
    | nil => exact fun _ h => .inl h
    | cons file files ih =>
      intro found h
      rcases ih _ h with h | ⟨other, hother, hrest⟩
      · unfold visitFile at h
        dsimp only at h
        split at h
        · rename_i resolved hresolve
          rw [SortedMap.get_put] at h
          split at h
          · rename_i hid
            cases h
            exact .inr ⟨file, List.mem_cons_self, hid.symm, hresolve⟩
          · exact .inl h
        · exact .inl h
      · exact .inr ⟨other, List.mem_cons_of_mem _ hother, hrest⟩
  constructor
  · intro h
    exact (hfold files {} h).resolve_left (by simp)
  · rintro ⟨file, hfile, rfl, hresolve⟩
    exact get_identityByFileId hnodup hfile hresolve

theorem indexedAs_perm {files files' : List IndexedFile} (hperm : files.Perm files') (fileId : Int)
    (identity : I) :
    IndexedAs root resolve files fileId identity ↔
      IndexedAs root resolve files' fileId identity := by
  unfold IndexedAs
  simp only [hperm.mem_iff]

theorem eq_of_getD {flags flags' : List Bool} (hlength : flags.length = flags'.length)
    (h : ∀ i, flags.getD i false = true ↔ flags'.getD i false = true) : flags = flags' := by
  apply List.ext_getElem hlength
  intro i hi hi'
  have hi := Bool.eq_iff_iff.mpr (h i)
  simpa [List.getD_eq_getElem?_getD, *] using hi

theorem countVisits_congr {α β : Type} {visited : List α} {visited' : List β}
    (h : visited.length = visited'.length) (visits : Nat) :
    countVisits visits visited = countVisits visits visited' := by
  unfold countVisits
  rw [List.foldl_const, List.foldl_const, h]

section Counts
variable {fileIdsOf fileIdsOf' : I → List Int}
  (hlength : ∀ identity, (fileIdsOf identity).length = (fileIdsOf' identity).length)
include hlength

theorem isEmpty_congr (identity : I) :
    (fileIdsOf identity).isEmpty = (fileIdsOf' identity).isEmpty := by
  rw [Bool.eq_iff_iff, List.isEmpty_iff_length_eq_zero, List.isEmpty_iff_length_eq_zero, hlength]

/-- The work depends only on how many files an identity has. -/
theorem work_currentMatches_congr (recordCount : Nat) (buckets : Buckets I) :
    (currentMatches fileIdsOf recordCount buckets).work =
      (currentMatches fileIdsOf' recordCount buckets).work := by
  refine List.foldl_rel (r := fun (found found' : CurrentMatches) => found.work = found'.work)
    rfl ?_
  intro bucket _ found found' hwork
  unfold matchCurrentBucket
  rw [isEmpty_congr hlength, hwork]
  split
  · rfl
  · dsimp only
    split
    · rfl
    · rw [countVisits_congr (hlength _)]

theorem work_previousMatches_congr {current current' : CurrentMatches}
    (hwork : current.work = current'.work) (hflags : current.recordFlags = current'.recordFlags)
    (buckets : Buckets I) :
    (previousMatches fileIdsOf current buckets).work =
      (previousMatches fileIdsOf' current' buckets).work := by
  refine List.foldl_rel (r := fun (found found' : PreviousMatches) => found.work = found'.work)
    hwork ?_
  intro bucket _ found found' hwork
  unfold matchPreviousBucket
  rw [isEmpty_congr hlength, hwork, hflags]
  split
  · rfl
  · dsimp only
    split
    · rfl
    · rw [countVisits_congr (hlength _)]

end Counts

variable [DecidableEq I] {records : List ChangeRecord} {files files' : List IndexedFile}

/-- With distinct ids the files may come in any order. -/
theorem matchAffectedFileIdentities_perm (hnodup : (files.map (·.id)).Nodup)
    (hperm : files.Perm files') :
    matchAffectedFileIdentities root resolve records files' =
      matchAffectedFileIdentities root resolve records files := by
  have h := @isPairwise_matchAffectedFileIdentities I _ root resolve records files
  have h' := @isPairwise_matchAffectedFileIdentities I _ root resolve records files'
  have hcurrent : ∀ i fileId, SharesCurrent root resolve records files' i fileId ↔
      SharesCurrent root resolve records files i fileId := by
    intro i fileId
    unfold SharesCurrent
    simp only [indexedAs_perm hperm]
  have hprevious : ∀ i fileId, SharesPrevious root resolve records files' i fileId ↔
      SharesPrevious root resolve records files i fileId := by
    intro i fileId
    unfold SharesPrevious
    simp only [indexedAs_perm hperm]
  have hmatchedFiles : (matchAffectedFileIdentities root resolve records files').matchedFileIds =
      (matchAffectedFileIdentities root resolve records files).matchedFileIds := by
    apply SortedMap.ext_get
    intro fileId
    apply Option.ext
    intro u
    have hkeys : ∀ m : SortedSet, m.get fileId = some u ↔ fileId ∈ m.keys := by
      intro m
      rw [SortedMap.mem_keys_iff]
      exact ⟨fun hu => ⟨u, hu⟩, fun ⟨_, hu⟩ => hu⟩
    rw [hkeys, hkeys, h'.matchedFile, h.matchedFile]
    simp only [hcurrent]
  have hmatchedFlags : (matchAffectedFileIdentities root resolve records
      files').matchedRecordFlags =
        (matchAffectedFileIdentities root resolve records files).matchedRecordFlags := by
    apply eq_of_getD (h'.recordCount.trans h.recordCount.symm)
    intro i
    rw [h'.matched, h.matched]
    simp only [hcurrent]
  have hfirst : (matchAffectedFileIdentities root resolve records
      files').matchedRecordIndexByFileId =
        (matchAffectedFileIdentities root resolve records files).matchedRecordIndexByFileId := by
    apply SortedMap.ext_get
    intro fileId
    apply Option.ext
    intro i
    rw [h'.firstRecord, h.firstRecord]
    simp only [hcurrent]
  have hseeded : (matchAffectedFileIdentities root resolve records
      files').graphSeededRecordFlags =
        (matchAffectedFileIdentities root resolve records files).graphSeededRecordFlags := by
    apply eq_of_getD (h'.seededCount.trans h.seededCount.symm)
    intro i
    rw [h'.seeded, h.seeded]
    simp only [hcurrent, hprevious]
  have hunmatched : (matchAffectedFileIdentities root resolve records
      files').previousRecordIndexByFileId =
        (matchAffectedFileIdentities root resolve records files).previousRecordIndexByFileId := by
    apply SortedMap.ext_get
    intro fileId
    apply Option.ext
    intro i
    rw [h'.firstUnmatched, h.firstUnmatched]
    simp only [hcurrent, hprevious]
  have hidentities : (indexedIdentities root resolve files').identityByFileId =
      (indexedIdentities root resolve files).identityByFileId := by
    apply SortedMap.ext_get
    intro fileId
    apply Option.ext
    intro identity
    rw [get_identityByFileId_iff ((hperm.map _).nodup_iff.mp hnodup),
      get_identityByFileId_iff hnodup, indexedAs_perm hperm]
  have hlength : ∀ identity, ((indexedIdentities root resolve files').fileIds identity).length =
      ((indexedIdentities root resolve files).fileIds identity).length := by
    intro identity
    unfold IndexedIdentities.fileIds
    rw [filesByIdentity_eq, filesByIdentity_eq]
    exact (((hperm.symm.filterMap _).filter _).map _).length_eq
  have hwork := work_previousMatches_congr hlength (work_currentMatches_congr hlength records.length
    (recordIdentities root resolve records).currentBuckets) hmatchedFlags
    (recordIdentities root resolve records).previousBuckets
  obtain ⟨hcount, hsample⟩ := @indexedIdentities_failed_perm I root resolve _ _ hperm
  unfold matchAffectedFileIdentities at *
  dsimp only at *
  rw [hmatchedFiles, hmatchedFlags, hfirst, hseeded, hunmatched, hidentities, hcount, hsample,
    hwork, countVisits_congr hperm.length_eq]

end Order

/-! ## The work of the buckets -/

section Work
variable {I : Type} [DecidableEq I] {root : String} {resolve : String → Except String I}
  {fileIdsOf : I → List Int}

theorem countVisits_le {α : Type} (visits : Nat) (visited : List α) :
    countVisits visits visited ≤ visits + visited.length := by
  unfold countVisits
  induction visited generalizing visits with
  | nil => exact Nat.le_refl _
  | cons a visited ih =>
    rw [List.foldl_cons, List.length_cons]
    have hmin := min_le_left (visits + 1) Graph.usizeMax
    have hrest := ih (min (visits + 1) Graph.usizeMax)
    omega

def Buckets.recordCount (buckets : Buckets I) : Nat := (buckets.map (·.2.length)).sum

def Buckets.fileCount (buckets : Buckets I) (fileIdsOf : I → List Int) : Nat :=
  (buckets.map fun bucket => (fileIdsOf bucket.1).length).sum

omit [DecidableEq I] in
theorem work_matchCurrentBucket_le (found : CurrentMatches) (bucket : I × List Nat) :
    (matchCurrentBucket fileIdsOf found bucket).work.bucketRecordVisits ≤
        found.work.bucketRecordVisits + bucket.2.length ∧
      (matchCurrentBucket fileIdsOf found bucket).work.indexedBucketFileVisits ≤
        found.work.indexedBucketFileVisits + (fileIdsOf bucket.1).length := by
  unfold matchCurrentBucket
  dsimp only
  split
  · exact ⟨Nat.le_add_right _ _, Nat.le_add_right _ _⟩
  · split
    · exact ⟨countVisits_le _ _, Nat.le_add_right _ _⟩
    · exact ⟨countVisits_le _ _, countVisits_le _ _⟩

omit [DecidableEq I] in
theorem work_matchPreviousBucket_le (current : CurrentMatches) (found : PreviousMatches)
    (bucket : I × List Nat) :
    (matchPreviousBucket fileIdsOf current found bucket).work.bucketRecordVisits ≤
        found.work.bucketRecordVisits + bucket.2.length ∧
      (matchPreviousBucket fileIdsOf current found bucket).work.indexedBucketFileVisits ≤
        found.work.indexedBucketFileVisits + (fileIdsOf bucket.1).length := by
  unfold matchPreviousBucket
  dsimp only
  split
  · exact ⟨Nat.le_add_right _ _, Nat.le_add_right _ _⟩
  · split
    · exact ⟨countVisits_le _ _, Nat.le_add_right _ _⟩
    · exact ⟨countVisits_le _ _, countVisits_le _ _⟩

omit [DecidableEq I] in
/-- Buckets cost no more than what is in them. -/
theorem work_foldl_le {M : Type} {step : M → I × List Nat → M} {work : M → IdentityMatchWork}
    (hstep : ∀ found bucket,
      (work (step found bucket)).bucketRecordVisits ≤
          (work found).bucketRecordVisits + bucket.2.length ∧
        (work (step found bucket)).indexedBucketFileVisits ≤
          (work found).indexedBucketFileVisits + (fileIdsOf bucket.1).length)
    (buckets : Buckets I) (found : M) :
    (work (buckets.foldl step found)).bucketRecordVisits ≤
        (work found).bucketRecordVisits + buckets.recordCount ∧
      (work (buckets.foldl step found)).indexedBucketFileVisits ≤
        (work found).indexedBucketFileVisits + buckets.fileCount fileIdsOf := by
  induction buckets generalizing found with
  | nil => exact ⟨Nat.le_refl _, Nat.le_refl _⟩
  | cons bucket rest ih =>
    obtain ⟨hrecords, hfiles⟩ := hstep found bucket
    obtain ⟨hrecords', hfiles'⟩ := ih (step found bucket)
    unfold Buckets.recordCount Buckets.fileCount at *
    rw [List.foldl_cons, List.map_cons, List.sum_cons, List.map_cons, List.sum_cons]
    exact ⟨by omega, by omega⟩

omit [DecidableEq I] in
theorem work_currentMatches_le (recordCount : Nat) (buckets : Buckets I) :
    (currentMatches fileIdsOf recordCount buckets).work.bucketRecordVisits ≤
        buckets.recordCount ∧
      (currentMatches fileIdsOf recordCount buckets).work.indexedBucketFileVisits ≤
        buckets.fileCount fileIdsOf := by
  have h := @work_foldl_le I fileIdsOf _ _ CurrentMatches.work
    (@work_matchCurrentBucket_le I fileIdsOf)
    buckets { recordFlags := List.replicate recordCount false }
  dsimp only at h
  rwa [Nat.zero_add, Nat.zero_add] at h

omit [DecidableEq I] in
theorem work_previousMatches_le (current : CurrentMatches) (buckets : Buckets I) :
    (previousMatches fileIdsOf current buckets).work.bucketRecordVisits ≤
        current.work.bucketRecordVisits + buckets.recordCount ∧
      (previousMatches fileIdsOf current buckets).work.indexedBucketFileVisits ≤
        current.work.indexedBucketFileVisits + buckets.fileCount fileIdsOf :=
  @work_foldl_le I fileIdsOf _ _ PreviousMatches.work (work_matchPreviousBucket_le current) buckets
    { seededFlags := current.recordFlags, work := current.work }

theorem Buckets.recordCount_push (identity : I) (i : Nat) (buckets : Buckets I) :
    (buckets.push identity i).recordCount = buckets.recordCount + 1 := by
  unfold Buckets.recordCount
  induction buckets with
  | nil => rfl
  | cons bucket rest ih =>
    unfold Buckets.push
    split
    · simp only [List.map_cons, List.sum_cons, List.length_append, List.length_singleton]
      omega
    · simp only [List.map_cons, List.sum_cons, ih]
      omega

theorem Buckets.mem_identities_push {identity pushed : I} {i : Nat} (buckets : Buckets I) :
    identity ∈ (buckets.push pushed i).map (·.1) ↔
      identity = pushed ∨ identity ∈ buckets.map (·.1) := by
  induction buckets with
  | nil => simp [Buckets.push]
  | cons bucket rest ih =>
    unfold Buckets.push
    split
    · rename_i heq
      simp [← heq]
    · rw [List.map_cons, List.mem_cons, ih, List.map_cons, List.mem_cons, or_left_comm]

theorem Buckets.nodup_push {pushed : I} {i : Nat} {buckets : Buckets I}
    (h : (buckets.map (·.1)).Nodup) : ((buckets.push pushed i).map (·.1)).Nodup := by
  induction buckets with
  | nil => exact List.nodup_singleton _
  | cons bucket rest ih =>
    rw [List.map_cons, List.nodup_cons] at h
    unfold Buckets.push
    split
    · exact List.nodup_cons.mpr h
    · rename_i hne
      rw [List.map_cons, List.nodup_cons, Buckets.mem_identities_push]
      refine ⟨?_, ih h.2⟩
      rintro (heq | hmem)
      · exact hne heq
      · exact h.1 hmem

/-- The buckets hold each record at most once, in buckets of different identities. -/
theorem recordIdentities_buckets (records : List ChangeRecord) :
    let found := recordIdentities root resolve records
    (found.currentBuckets.recordCount ≤ records.length ∧
        (found.currentBuckets.map (·.1)).Nodup) ∧
      found.previousBuckets.recordCount ≤ records.length ∧
        (found.previousBuckets.map (·.1)).Nodup := by
  have hfold : ∀ (entries : List (ChangeRecord × Nat)) (found : RecordIdentities I) (n : Nat),
      (found.currentBuckets.recordCount ≤ n ∧ (found.currentBuckets.map (·.1)).Nodup) →
      (found.previousBuckets.recordCount ≤ n ∧ (found.previousBuckets.map (·.1)).Nodup) →
      ((entries.foldl (visitRecord root resolve) found).currentBuckets.recordCount ≤
          n + entries.length ∧
        ((entries.foldl (visitRecord root resolve) found).currentBuckets.map (·.1)).Nodup) ∧
      (entries.foldl (visitRecord root resolve) found).previousBuckets.recordCount ≤
          n + entries.length ∧
        ((entries.foldl (visitRecord root resolve) found).previousBuckets.map (·.1)).Nodup := by
    intro entries
    induction entries with
    | nil => exact fun _ _ hcurrent hprevious => ⟨hcurrent, hprevious⟩
    | cons entry entries ih =>
      intro found n hcurrent hprevious
      rw [List.foldl_cons, List.length_cons, Nat.add_comm entries.length, ← Nat.add_assoc]
      apply ih
      · rw [currentBuckets_visitRecord]
        unfold resolveCurrent
        split
        · rw [Buckets.recordCount_push]
          exact ⟨Nat.succ_le_succ hcurrent.1, Buckets.nodup_push hcurrent.2⟩
        · exact ⟨Nat.le_succ_of_le hcurrent.1, hcurrent.2⟩
      · unfold visitRecord resolvePrevious
        split
        · rw [previousBuckets_resolveCurrent]
          exact ⟨Nat.le_succ_of_le hprevious.1, hprevious.2⟩
        · split
          · rw [previousBuckets_resolveCurrent, Buckets.recordCount_push]
            exact ⟨Nat.succ_le_succ hprevious.1, Buckets.nodup_push hprevious.2⟩
          · rw [previousBuckets_resolveCurrent]
            exact ⟨Nat.le_succ_of_le hprevious.1, hprevious.2⟩
  have h := hfold records.zipIdx {} 0 ⟨Nat.le_refl 0, List.nodup_nil⟩
    ⟨Nat.le_refl 0, List.nodup_nil⟩
  rw [Nat.zero_add, List.length_zipIdx] at h
  exact h

/-- Different identities have no file in common. -/
theorem fileCount_le {found : IndexedIdentities I} {buckets : Buckets I}
    (hnodup : (buckets.map (·.1)).Nodup) :
    buckets.fileCount found.fileIds ≤ found.filesByIdentity.length := by
  have hsum : ∀ (identities : List I), identities.Nodup → ∀ l : List (I × Int),
      (identities.map fun identity => (l.filter (·.1 = identity)).length).sum ≤ l.length := by
    intro identities hidentities l
    induction l with
    | nil => simp
    | cons entry l ih =>
      have hhead : ∀ identities : List I, identities.Nodup →
          (identities.map fun identity => ((entry :: l).filter (·.1 = identity)).length).sum ≤
            (identities.map fun identity => (l.filter (·.1 = identity)).length).sum +
              if entry.1 ∈ identities then 1 else 0 := by
        intro identities
        induction identities with
        | nil => simp
        | cons identity rest ih =>
          intro hnodup
          obtain ⟨hnew, hrest⟩ := List.nodup_cons.mp hnodup
          have ih := ih hrest
          rw [List.map_cons, List.sum_cons, List.map_cons, List.sum_cons, List.filter_cons]
          by_cases heq : entry.1 = identity
          · subst heq
            rw [if_neg hnew] at ih
            simp only [decide_true, if_true, List.length_cons, List.mem_cons, true_or]
            omega
          · have hiff : entry.1 ∈ identity :: rest ↔ entry.1 ∈ rest := by
              rw [List.mem_cons]
              exact or_iff_right heq
            rw [if_neg (by simpa using heq)]
            simp only [hiff]
            omega
      have hle := hhead identities hidentities
      rw [List.length_cons]
      split at hle <;> omega
  have h := hsum (buckets.map (·.1)) hnodup found.filesByIdentity
  rw [List.map_map] at h
  unfold Buckets.fileCount IndexedIdentities.fileIds
  simp only [List.length_map]
  exact h

theorem work_matchAffected_le (records : List ChangeRecord) (files : List IndexedFile) :
    (matchAffectedFileIdentities root resolve records files).work.bucketRecordVisits ≤
        2 * records.length ∧
      (matchAffectedFileIdentities root resolve records files).work.indexedBucketFileVisits ≤
        2 * files.length := by
  obtain ⟨⟨hcurrent, hcurrentNodup⟩, hprevious, hpreviousNodup⟩ :=
    @recordIdentities_buckets I _ root resolve records
  have hfiles : (indexedIdentities root resolve files).filesByIdentity.length ≤ files.length := by
    rw [filesByIdentity_eq]
    exact List.length_filterMap_le _ _
  have hcurrentFiles := (fileCount_le hcurrentNodup).trans hfiles
  have hpreviousFiles := (fileCount_le hpreviousNodup).trans hfiles
  obtain ⟨hrecords, hvisits⟩ := @work_currentMatches_le I
    (indexedIdentities root resolve files).fileIds records.length
    (recordIdentities root resolve records).currentBuckets
  obtain ⟨hrecords', hvisits'⟩ := @work_previousMatches_le I
    (indexedIdentities root resolve files).fileIds
    (currentMatches (indexedIdentities root resolve files).fileIds records.length
      (recordIdentities root resolve records).currentBuckets)
    (recordIdentities root resolve records).previousBuckets
  unfold matchAffectedFileIdentities
  dsimp only
  exact ⟨by omega, by omega⟩

end Work

/-- Matching by buckets is the pairwise definition, in whatever order the files come, and its
work is linear. -/
theorem bucket_matching_is_pairwise {I : Type} [DecidableEq I] (root : String)
    (resolve : String → Except String I) (records : List ChangeRecord) {files : List IndexedFile}
    (hnodup : (files.map (·.id)).Nodup) :
    IsPairwise root resolve records files
        (matchAffectedFileIdentities root resolve records files) ∧
      (∀ files' : List IndexedFile, files.Perm files' →
        matchAffectedFileIdentities root resolve records files' =
          matchAffectedFileIdentities root resolve records files) ∧
      (matchAffectedFileIdentities root resolve records files).work.bucketRecordVisits +
          (matchAffectedFileIdentities root resolve records files).work.indexedBucketFileVisits ≤
        2 * records.length + 2 * files.length := by
  refine ⟨isPairwise_matchAffectedFileIdentities, ?_, ?_⟩
  · intro files' hperm
    exact matchAffectedFileIdentities_perm hnodup hperm
  · obtain ⟨hrecords, hfiles⟩ := @work_matchAffected_le I _ root resolve records files
    omega

/-- A copied file that is indexed under both of its identities. -/
theorem copied_record_is_pairwise :
    let records : List ChangeRecord := [⟨"b.rs", .copied, "C", some "a.rs"⟩]
    let files : List IndexedFile := [⟨1, "a.rs", true, true⟩, ⟨2, "b.rs", true, true⟩]
    IsPairwise "/p" Except.ok records files
      (matchAffectedFileIdentities "/p" Except.ok records files) := by
  intro records files
  have hnodup : (files.map (·.id)).Nodup := by decide
  exact (bucket_matching_is_pairwise "/p" Except.ok records hnodup).1

end CodeStory.Affected
