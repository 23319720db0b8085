import CodeStory.Lib.Selection
import CodeStory.Retrieval.QueryCache
import Mathlib.Data.String.Basic

/-!
# The search of the vector sidecar

`search_database` over the rows of the `vectors` table in whatever order SQLite returns them.
Scores are compared by `f32::total_cmp`, a linear order of the bit patterns; the arithmetic that
computes a score from a query and a blob is a parameter. Failures of SQLite itself are left out.
-/

set_option autoImplicit false

namespace CodeStory.Retrieval

/-- `FileRole::from_db_value` -/
def FileRole.fromDbValue (value : String) : FileRole :=
  match String.ofList (asciiLower (trim value).toList) with
  | "entrypoint" => .entrypoint
  | "test" => .test
  | "docs" => .docs
  | "benchmark" => .benchmark
  | "generated" => .generated
  | "vendor" => .vendor
  | _ => .source

def CandidateHit.withSource {F : Type} (filePath : String) (symbolName : Option String) (score : F)
    (source : CandidateSource) : CandidateHit F where
  nodeId := none
  filePath := filePath
  symbolName := symbolName
  startLine := none
  score := score
  source := source
  provenance := []
  fileRole := none
  scipHopDistance := none
  rankFeatures := none

structure VectorMetadata where
  generation : String
  inputHash : String
  embeddingDim : Int

structure VectorRow where
  nodeId : String
  displayName : String
  filePath : Option String
  fileRole : Option String
  denseReason : Option String
  vector : List UInt8
  deriving DecidableEq

/-- A vector database; `node_id` is the primary key of its rows. -/
structure VectorDatabase where
  metadata : VectorMetadata
  vectors : List VectorRow
  keyed : (vectors.map (·.nodeId)).Nodup

/-- A query as the search uses it: its length, whether all its values are finite, whether its
norm is finite and not zero, and its `cosine_similarity_bytes` with a blob. -/
structure QueryVector (Score : Type) where
  len : Nat
  finite : Bool
  normValid : Bool
  cosineSimilarity : List UInt8 → Except String Score

structure ScoredHit (Score : Type) where
  score : Score
  nodeId : String
  displayName : String
  filePath : Option String
  fileRole : Option String
  denseReason : Option String
  deriving DecidableEq

def VectorRow.scored {Score : Type} (row : VectorRow) (score : Score) : ScoredHit Score where
  score := score
  nodeId := row.nodeId
  displayName := row.displayName
  filePath := row.filePath
  fileRole := row.fileRole
  denseReason := row.denseReason

def ScoredHit.candidate {Score : Type} (hit : ScoredHit Score) : CandidateHit Score :=
  let candidate := CandidateHit.withSource (hit.filePath.getD hit.displayName)
    (some hit.displayName) hit.score .semantic
  { candidate with
    nodeId := some hit.nodeId
    fileRole := hit.fileRole.map FileRole.fromDbValue }.addProvenance
      (if hit.denseReason = some "component_report" then "component_report" else "dense_anchor")

section Search
variable {Score : Type} [LinearOrder Score]

def compareScoredHits (left right : ScoredHit Score) : Ordering :=
  (compare right.score left.score).then (compare left.nodeId right.nodeId)

/-- The loop over the rows; `cancelled` is asked once before each. -/
def scanRows (query : QueryVector Score) (limit : Nat) (cancelled : Nat → Bool) :
    Nat → List (ScoredHit Score) → List VectorRow → Except String (List (ScoredHit Score))
  | _, scored, [] => .ok scored
  | turn, scored, row :: rows =>
    if cancelled turn then .error "embedded vector search cancelled"
    else match query.cosineSimilarity row.vector with
      | .error message => .error message
      | .ok score =>
        match Selection.offer compareScoredHits limit scored (row.scored score) with
        -- The panic of `expect`.
        | none => .error "non-empty bounded score set"
        | some scored => scanRows query limit cancelled (turn + 1) scored rows

/-- `Vec::with_capacity(limit)`, which only reserves memory, is left out. -/
def searchDatabase (metadata : VectorMetadata) (rows : List VectorRow)
    (generation inputHash : String) (query : QueryVector Score) (limit : Nat)
    (cancelled : Nat → Bool) :
    Except String (List (CandidateHit Score)) :=
  if limit = 0 then .ok []
  else if metadata.generation ≠ generation ∨ metadata.inputHash ≠ inputHash ∨
      metadata.embeddingDim ≠ query.len then
    .error "embedded vector index publication identity changed"
  else if query.len = 0 ∨ query.finite = false then
    .error "embedded vector query is empty or contains a non-finite value"
  else if query.normValid = false then
    .error "embedded vector query has zero or invalid norm"
  else
    match scanRows query limit cancelled 0 [] rows with
    | .error message => .error message
    -- Unstable in the source, but no two rows compare equal.
    | .ok scored => .ok ((Selection.sortBy compareScoredHits scored).map ScoredHit.candidate)

/-- The checks before the scan pass. -/
def QueryVector.Accepted (query : QueryVector Score) (metadata : VectorMetadata)
    (generation inputHash : String) : Prop :=
  metadata.generation = generation ∧ metadata.inputHash = inputHash ∧
    metadata.embeddingDim = query.len ∧ query.len ≠ 0 ∧ query.finite = true ∧
    query.normValid = true

/-- Descending score, then ascending node id. -/
def RanksBefore (score : VectorRow → Score) (left right : VectorRow) : Prop :=
  score right < score left ∨ score left = score right ∧ left.nodeId < right.nodeId

instance : Std.TransCmp (@compareScoredHits Score _) :=
  have : Std.TransCmp fun left right : ScoredHit Score => compare right.score left.score :=
    inferInstanceAs (Std.TransCmp fun left right => compareOn ScoredHit.score right left)
  inferInstanceAs (Std.TransCmp (compareLex
    (fun left right : ScoredHit Score => compare right.score left.score)
    (compareOn ScoredHit.nodeId)))

theorem compareScoredHits_lt_iff {left right : ScoredHit Score} :
    compareScoredHits left right = .lt ↔
      right.score < left.score ∨ left.score = right.score ∧ left.nodeId < right.nodeId := by
  unfold compareScoredHits
  rw [Ordering.then_eq_lt, compare_lt_iff_lt, compare_eq_iff_eq, compare_lt_iff_lt, eq_comm]

theorem nodeId_eq_of_compare_eq {left right : ScoredHit Score}
    (h : compareScoredHits left right = .eq) : left.nodeId = right.nodeId := by
  unfold compareScoredHits at h
  rw [Ordering.then_eq_eq] at h
  exact compare_eq_iff_eq.mp h.2

theorem searchDatabase_accepted {metadata : VectorMetadata} {generation inputHash : String}
    {query : QueryVector Score} {limit : Nat} (hlimit : 0 < limit)
    (haccepted : query.Accepted metadata generation inputHash) (rows : List VectorRow)
    (cancelled : Nat → Bool) :
    searchDatabase metadata rows generation inputHash query limit cancelled =
      (scanRows query limit cancelled 0 [] rows).map fun scored =>
        (Selection.sortBy compareScoredHits scored).map ScoredHit.candidate := by
  obtain ⟨hgeneration, hhash, hdim, hlen, hfinite, hnorm⟩ := haccepted
  unfold searchDatabase
  rw [if_neg (by omega), if_neg (by simp [hgeneration, hhash, hdim]),
    if_neg (by simp [hlen, hfinite]), if_neg (by simp [hnorm])]
  cases scanRows query limit cancelled 0 [] rows with
  | error message => rfl
  | ok scored => rfl

/-- The scan keeps a best part of the rows it has seen. -/
theorem scanRows_keeps {query : QueryVector Score} {limit : Nat} {score : VectorRow → Score}
    (hlimit : 0 < limit) (rows : List VectorRow)
    (hscore : ∀ row ∈ rows, query.cosineSimilarity row.vector = .ok (score row)) (turn : Nat)
    {arrived scored dropped : List (ScoredHit Score)}
    (hkeeps : Selection.Keeps compareScoredHits limit arrived scored dropped) :
    ∃ scored' dropped', scanRows query limit (fun _ => false) turn scored rows = .ok scored' ∧
      Selection.Keeps compareScoredHits limit
        (arrived ++ rows.map fun row => row.scored (score row)) scored' dropped' := by
  induction rows generalizing turn arrived scored dropped with
  | nil =>
    refine ⟨scored, dropped, rfl, ?_⟩
    rw [List.map_nil, List.append_nil]
    exact hkeeps
  | cons row rows ih =>
    obtain ⟨next, dropped', hoffer, hnext⟩ := hkeeps.offer hlimit (row.scored (score row))
    obtain ⟨final, dropped'', hfinal, hkept⟩ :=
      ih (fun r hr => hscore r (List.mem_cons_of_mem _ hr)) (turn + 1) hnext
    refine ⟨final, dropped'', ?_, ?_⟩
    · unfold scanRows
      rw [if_neg (by decide), hscore row List.mem_cons_self]
      dsimp only
      rw [hoffer]
      exact hfinal
    · rw [List.map_cons, List.append_cons]
      exact hkept

theorem scored_eq_of_compare_eq {vectors : List VectorRow}
    (hkeyed : (vectors.map (·.nodeId)).Nodup) (score : VectorRow → Score) :
    ∀ a ∈ vectors.map fun row => row.scored (score row),
      ∀ b ∈ vectors.map fun row => row.scored (score row),
        compareScoredHits a b = .eq → a = b := by
  intro a ha b hb hcompare
  obtain ⟨row, hrow, rfl⟩ := List.mem_map.mp ha
  obtain ⟨row', hrow', rfl⟩ := List.mem_map.mp hb
  have hid : row.nodeId = row'.nodeId := nodeId_eq_of_compare_eq hcompare
  obtain rfl := List.inj_on_of_nodup_map hkeyed hrow hrow' hid
  rfl

/-- A sorted arrangement of distinct rows is strictly ranked. -/
theorem pairwise_ranksBefore {vectors ranked : List VectorRow}
    (hkeyed : (vectors.map (·.nodeId)).Nodup) (hperm : ranked.Perm vectors)
    (score : VectorRow → Score)
    (hsorted : (ranked.map fun row => row.scored (score row)).Pairwise
      fun a b => (compareScoredHits a b).isLE) :
    ranked.Pairwise (RanksBefore score) := by
  have hids : (ranked.map (·.nodeId)).Nodup := (hperm.map _).nodup_iff.mpr hkeyed
  have hdistinct : ranked.Pairwise fun a b => a.nodeId ≠ b.nodeId := List.pairwise_map.mp hids
  apply ((List.pairwise_map.mp hsorted).and hdistinct).imp
  intro a b ⟨hle, hne⟩
  rcases Ordering.isLE_iff_eq_lt_or_eq_eq.mp hle with hlt | heq
  · exact compareScoredHits_lt_iff.mp hlt
  · exact absurd (nodeId_eq_of_compare_eq heq) hne

/-- The search returns the front of one ranking of the table, whatever the order of the rows. -/
theorem searchDatabase_returns_top (database : VectorDatabase) (generation inputHash : String)
    (query : QueryVector Score) (score : VectorRow → Score) (limit : Nat) (hlimit : 0 < limit)
    (haccepted : query.Accepted database.metadata generation inputHash)
    (hscore : ∀ row ∈ database.vectors, query.cosineSimilarity row.vector = .ok (score row)) :
    ∃ ranked : List VectorRow, ranked.Perm database.vectors ∧
      ranked.Pairwise (RanksBefore score) ∧
      ∀ rows : List VectorRow, rows.Perm database.vectors →
        searchDatabase database.metadata rows generation inputHash query limit (fun _ => false) =
          .ok ((ranked.take (min limit database.vectors.length)).map
            fun row => (row.scored (score row)).candidate) := by
  let scoredRow : VectorRow → ScoredHit Score := fun row => row.scored (score row)
  let ranked := Selection.sortBy (fun a b => compareScoredHits (scoredRow a) (scoredRow b))
    database.vectors
  have hranked : ranked.Perm database.vectors := Selection.perm_sortBy _
  have hmap : ranked.map scoredRow =
      Selection.sortBy compareScoredHits (database.vectors.map scoredRow) := by
    apply List.map_insertionSort
    intro a _ b _
    exact Iff.rfl
  refine ⟨ranked, hranked, ?_, ?_⟩
  · apply pairwise_ranksBefore database.keyed hranked
    change (ranked.map scoredRow).Pairwise _
    rw [hmap]
    exact Selection.pairwise_sortBy _
  · intro rows hrows
    obtain ⟨scored, dropped, hscan, hkept⟩ := scanRows_keeps hlimit rows
      (fun row hrow => hscore row (hrows.mem_iff.mp hrow)) 0 Selection.keeps_nil
    rw [List.nil_append] at hkept
    have hperm : (rows.map scoredRow).Perm (database.vectors.map scoredRow) := hrows.map _
    have heq := scored_eq_of_compare_eq database.keyed score
    have hrowsEq : ∀ a ∈ rows.map scoredRow, ∀ b ∈ rows.map scoredRow,
        compareScoredHits a b = .eq → a = b := by
      intro a ha b hb
      exact heq a (hperm.mem_iff.mp ha) b (hperm.mem_iff.mp hb)
    have htop := hkept.sortBy_eq_take hrowsEq
    rw [Selection.sortBy_congr hperm hrowsEq, ← hmap, List.length_map, hrows.length_eq] at htop
    rw [searchDatabase_accepted hlimit haccepted, hscan]
    change Except.ok ((Selection.sortBy compareScoredHits scored).map _) = _
    rw [htop, ← List.map_take, List.map_map]
    rfl

end Search

/-- The blob of the vector (1, 0). -/
def alignedBlob : List UInt8 := [0, 0, 128, 63, 0, 0, 0, 0]

/-- The blob of the vector (0, 1). -/
def orthogonalBlob : List UInt8 := [0, 0, 0, 0, 0, 0, 128, 63]

/-- The query (1, 0), on the blobs of the two unit vectors. -/
def unitQuery : QueryVector Nat where
  len := 2
  finite := true
  normValid := true
  cosineSimilarity := fun bytes =>
    if bytes.length ≠ 8 then .error "embedded vector blob has an invalid width"
    else if bytes = alignedBlob then .ok 1 else .ok 0

/-- Three rows, two of one score. -/
def tiedDatabase : VectorDatabase where
  metadata := ⟨"g", "h", 2⟩
  vectors := [⟨"b", "b", none, none, none, orthogonalBlob⟩,
    ⟨"c", "c", none, none, none, alignedBlob⟩,
    ⟨"a", "a", none, none, none, orthogonalBlob⟩]
  keyed := by decide

def tiedScore (row : VectorRow) : Nat := if row.vector = alignedBlob then 1 else 0

theorem searchDatabase_returns_top_tied :
    ∃ ranked : List VectorRow, ranked.Perm tiedDatabase.vectors ∧
      ranked.Pairwise (RanksBefore tiedScore) ∧
      ∀ rows : List VectorRow, rows.Perm tiedDatabase.vectors →
        searchDatabase tiedDatabase.metadata rows "g" "h" unitQuery 2 (fun _ => false) =
          .ok ((ranked.take (min 2 tiedDatabase.vectors.length)).map fun row =>
            (row.scored (tiedScore row)).candidate) :=
  searchDatabase_returns_top tiedDatabase "g" "h" unitQuery tiedScore 2 (by decide)
    ⟨rfl, rfl, rfl, by decide, rfl, rfl⟩ (by decide)

end CodeStory.Retrieval
