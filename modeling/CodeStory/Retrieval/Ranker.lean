import CodeStory.Lib.Selection
import CodeStory.Retrieval.FileRoles
import Mathlib.Data.String.Basic
import Mathlib.Data.Rat.Defs
import Mathlib.Algebra.Order.Ring.Rat
import Mathlib.Tactic.Linarith

/-!
# The ranking of candidates

`rank_candidates` with scores as exact rationals: fusion of the features of each candidate, the
anchor of exact code evidence, the minimum score, the caps and the final sort.
-/

set_option autoImplicit false

namespace CodeStory.Retrieval

abbrev Candidate : Type := CandidateHit ℚ

/-- A token of a query, in lower case. -/
abbrev Token : Type := List Char

/-- `str::len` -/
def byteLength (text : List Char) : Nat := (text.map Char.utf8Size).sum

def tokenize (chars : CharClasses) (query : String) : List Token :=
  ((query.toList.splitOnP fun c => !chars.isAlphanumeric c).filter
    fun token => 2 ≤ byteLength token).map asciiLower

def isPhantomSidecarHit (hit : Candidate) : Bool :=
  ["lexical:", "semantic:", "scip:"].any fun tag => tag.toList.isPrefixOf hit.filePath.toList

structure RankWeights where
  lexical : ℚ
  semantic : ℚ
  scipDistance : ℚ
  fileRolePrior : ℚ
  definitionQuality : ℚ
  tokenOverlap : ℚ

def weightsForShape : QueryShape → RankWeights
  | .symbolLike => ⟨25 / 100, 15 / 100, 30 / 100, 10 / 100, 15 / 100, 5 / 100⟩
  | .pathLike => ⟨45 / 100, 5 / 100, 15 / 100, 20 / 100, 10 / 100, 5 / 100⟩
  | .naturalLanguage => ⟨15 / 100, 40 / 100, 10 / 100, 10 / 100, 10 / 100, 15 / 100⟩
  | .mixed => ⟨25 / 100, 25 / 100, 20 / 100, 10 / 100, 10 / 100, 10 / 100⟩

def minRankScore : QueryShape → ℚ
  | .naturalLanguage => 4 / 100
  | .mixed => 6 / 100
  | .symbolLike => 8 / 100
  | .pathLike => 8 / 100

/-! ## Predicates on queries and candidates -/

def anyTokenIn (terms : List String) (tokens : List Token) : Bool :=
  tokens.any fun token => (terms.map String.toList).contains token

def queryMentionsNonPrimaryRole : List Token → Bool :=
  anyTokenIn ["test", "tests", "spec", "specs", "fixture", "fixtures", "doc", "docs",
    "documentation", "readme", "benchmark", "benchmarks", "bench", "generated", "vendor"]

def queryMentionsStructuralRole : List Token → Bool :=
  anyTokenIn ["css", "html", "layout", "style", "styles", "stylesheet", "sql"]

def queryHasCodeIntent : List Token → Bool :=
  anyTokenIn ["function", "func", "method", "class", "struct", "trait", "interface", "enum",
    "impl", "def", "fn", "type", "module", "namespace"]

def prefersPrimaryCodeEvidence (shape : QueryShape) (tokens : List Token) : Bool :=
  (shape = .naturalLanguage || shape = .mixed) && !queryMentionsNonPrimaryRole tokens &&
    !queryMentionsStructuralRole tokens

def effectiveFileRole (candidate : Candidate) : FileRole :=
  candidate.fileRole.getD (FileRole.classifyPath candidate.filePath)

/-- `FileRole::Source | FileRole::Entrypoint` -/
def FileRole.isPrimary : FileRole → Bool
  | .source => true
  | .entrypoint => true
  | _ => false

def isPrimary (candidate : Candidate) : Bool := (effectiveFileRole candidate).isPrimary

def hasProvenance (candidate : Candidate) (label : String) : Bool :=
  candidate.provenance.any (· = label)

def hasGraphProvenance (candidate : Candidate) : Bool :=
  candidate.source = .scip || hasProvenance candidate "graph_neighbor" ||
    hasProvenance candidate "exact"

def loweredSymbol (candidate : Candidate) : List Char :=
  asciiLower (candidate.symbolName.getD "").toList

def strongQueryTokenHits (candidate : Candidate) (tokens : List Token) : Nat :=
  let path := asciiLower candidate.filePath.toList
  let symbol := loweredSymbol candidate
  ((tokens.filter fun token => 4 ≤ byteLength token).filter fun token =>
    containsText path token || containsText symbol token).length

def tokenOverlapScore (tokens : List Token) (path symbol : List Char) : ℚ :=
  if tokens.isEmpty then 0
  else
    let hits := (tokens.filter fun token => 2 ≤ byteLength token &&
      (containsText path token || containsText symbol token)).length
    hits / tokens.length

def symbolNameLooksTestLike (symbolName : Option String) : Bool :=
  match symbolName with
  | none => false
  | some name =>
    let symbol := asciiLower name.toList
    let localName := afterLast [':', ':'] symbol
    "tests::".toList.isPrefixOf symbol || containsText symbol "::tests::".toList ||
      "test_".toList.isPrefixOf localName || "_test".toList.isSuffixOf localName ||
      "_tests".toList.isSuffixOf localName || containsText localName "_test_".toList ||
      containsText localName "_tests_".toList

def looksLikeRepoRelativePath (filePath : String) : Bool :=
  let trimmed := (trim filePath).toList
  !trimmed.isEmpty && ':' ∉ trimmed && ('/' ∈ trimmed || '\\' ∈ trimmed || '.' ∈ trimmed)

def isStructuralCandidatePath (filePath : String) : Bool :=
  match pathExtension filePath.toList with
  | none => false
  | some extension =>
    (["html", "htm", "css", "sql"].map String.toList).contains (asciiLower extension)

def exactPathMatch (filePath : String) (tokens : List Token) : Bool :=
  match pathFileStem filePath.toList with
  | none => false
  | some stem => tokens.contains (asciiLower stem)

def isExactCodeEvidence (candidate : Candidate) (tokens : List Token) : Bool :=
  if candidate.source = .semantic ∨ candidate.source = .legacy then false
  else match candidate.symbolName with
    | none => exactPathMatch candidate.filePath tokens
    | some symbol =>
      let symbolTail := asciiLower (afterLast ['.'] (afterLast [':', ':'] symbol.toList))
      tokens.contains symbolTail || exactPathMatch candidate.filePath tokens

/-! ## Fusion -/

def fileRolePrior : FileRole → ℚ
  | .entrypoint => 95 / 100
  | .source => 72 / 100
  | .test => 35 / 100
  | .docs => 30 / 100
  | .benchmark => 28 / 100
  | .generated => 22 / 100
  | .vendor => 18 / 100

def buildRankFeatures (candidate : Candidate) (tokens : List Token) : RankFeatures ℚ where
  lexical :=
    if candidate.source = .legacy then candidate.score * (1 / 2)
    else if candidate.source = .lexical ∨ hasProvenance candidate "lexical_source" then
      max candidate.score (35 / 100)
    else candidate.score * (6 / 10)
  semantic :=
    if candidate.source = .semantic ∨ hasProvenance candidate "dense_anchor" ∨
        hasProvenance candidate "component_report" then max candidate.score (4 / 10)
    else candidate.score * (1 / 4)
  scipDistance :=
    if hasGraphProvenance candidate then 1 / (1 + (candidate.scipHopDistance.getD 0 : ℚ))
    else 2 / 10
  fileRolePrior := fileRolePrior (effectiveFileRole candidate)
  definitionQuality := if candidate.symbolName.isSome then 85 / 100 else 45 / 100
  tokenOverlap :=
    tokenOverlapScore tokens (asciiLower candidate.filePath.toList) (loweredSymbol candidate)

def exportRankFeatures (candidate : Candidate) (features : RankFeatures ℚ) : RankFeatures ℚ :=
  if hasGraphProvenance candidate then features else { features with scipDistance := 0 }

def scoreFeatures (features : RankFeatures ℚ) (weights : RankWeights) : ℚ :=
  weights.lexical * features.lexical + weights.semantic * features.semantic +
    weights.scipDistance * features.scipDistance +
    weights.fileRolePrior * features.fileRolePrior +
    weights.definitionQuality * features.definitionQuality +
    weights.tokenOverlap * features.tokenOverlap

def structuralFusionMultiplier (candidate : Candidate) (features : RankFeatures ℚ) : ℚ :=
  if isStructuralCandidatePath candidate.filePath then
    let multiplier : ℚ := 5 / 10
    min (if features.tokenOverlap ≥ 35 / 100 ∨ features.semantic ≥ 55 / 100 then
      multiplier * (135 / 100) else multiplier) 1
  else 1

def primaryCodeRoleMultiplier (fileRole : FileRole) (preferPrimaryCode : Bool) : ℚ :=
  if preferPrimaryCode then
    match fileRole with
    | .entrypoint => 108 / 100
    | .source => 102 / 100
    | .test => 58 / 100
    | .docs => 68 / 100
    | .benchmark => 55 / 100
    | .generated => 42 / 100
    | .vendor => 35 / 100
  else 1

def primarySourcePathBonus (filePath : String) (tokens : List Token) : ℚ :=
  let path := asciiLower (forwardSlashes filePath.toList)
  (if containsText path "/src/".toList || "src/".toList.isPrefixOf path then 4 / 100 else 0) +
    (if (tokens.filter fun token => 4 ≤ byteLength token).any (containsText path) then 3 / 100
      else 0)

/-- The additions to the fused score, in the order of the source. -/
def fusedScore (features : QueryFeatures) (tokens : List Token) (preferPrimaryCode : Bool)
    (candidate : Candidate) (rankFeatures : RankFeatures ℚ) : ℚ :=
  let fileRole := effectiveFileRole candidate
  let fused := scoreFeatures rankFeatures (weightsForShape features.shape) *
    structuralFusionMultiplier candidate rankFeatures *
    primaryCodeRoleMultiplier fileRole preferPrimaryCode
  let score := fused +
    (if looksLikeRepoRelativePath candidate.filePath then 8 / 100 else 0) +
    (if features.shape = .pathLike ∧ containsText (asciiLower features.rawQuery.toList)
      (asciiLower candidate.filePath.toList) then 25 / 100 else 0)
  let hits := strongQueryTokenHits candidate tokens
  let score :=
    if features.shape = .naturalLanguage ∨ features.shape = .mixed then
      score + hits * (6 / 100) + (if candidate.source = .lexical ∧ 3 ≤ hits then 8 / 100 else 0)
    else score
  let score :=
    if preferPrimaryCode ∧ fileRole.isPrimary then
      score + primarySourcePathBonus candidate.filePath tokens
    else score
  if preferPrimaryCode ∧ symbolNameLooksTestLike candidate.symbolName then score * (55 / 100)
  else score

/-- One turn of the loop of `rank_candidates`. -/
def fuseCandidate (features : QueryFeatures) (tokens : List Token) (preferPrimaryCode : Bool)
    (candidate : Candidate) : Candidate :=
  let rankFeatures := buildRankFeatures candidate tokens
  { candidate with
    fileRole := some (effectiveFileRole candidate)
    score := fusedScore features tokens preferPrimaryCode candidate rankFeatures
    rankFeatures := some (exportRankFeatures candidate rankFeatures) }

/-! ## Caps -/

def topScore (candidates : List Candidate) : Option ℚ :=
  Selection.maxBy compare (candidates.map (·.score))

def belowScore (score : ℚ) : ℚ := max (score - 1 / 1000) 0

def applyExactCodeEvidenceAnchor (features : QueryFeatures) (tokens : List Token)
    (candidates : List Candidate) : List Candidate :=
  if features.shape = .naturalLanguage then candidates
  else match topScore (candidates.filter (isExactCodeEvidence · tokens)) with
    | none => candidates
    | some topExactCodeScore => candidates.map fun candidate =>
      if candidate.source = .semantic ∧ isExactCodeEvidence candidate tokens = false ∧
          topExactCodeScore ≤ candidate.score then
        { candidate with score := belowScore topExactCodeScore }
      else candidate

def applyStructuralCodeIntentCap (candidates : List Candidate) : List Candidate :=
  match topScore (candidates.filter fun candidate =>
      !isStructuralCandidatePath candidate.filePath) with
  | none => candidates
  | some topGraphScore => candidates.map fun candidate =>
    if isStructuralCandidatePath candidate.filePath ∧ topGraphScore < candidate.score then
      { candidate with score := topGraphScore }
    else candidate

/-- The score of a candidate that is not primary, once the best primary score is known. -/
def cappedScore (bestPrimary : ℚ) (candidate : Candidate) : ℚ :=
  if bestPrimary ≤ candidate.score then belowScore bestPrimary else candidate.score

def capNonPrimaryBelowBestPrimary (candidates : List Candidate) : List Candidate :=
  match topScore (candidates.filter isPrimary) with
  | none => candidates
  | some bestPrimary => candidates.map fun candidate =>
    if isPrimary candidate then candidate
    else { candidate with score := cappedScore bestPrimary candidate }

/-- The hits and the score of the best lexical source with at least three strong hits. -/
def strongLexicalAnchor (candidates : List Candidate) (tokens : List Token) : Option (Nat × ℚ) :=
  Selection.maxBy (fun left right => compare left.2 right.2)
    (((candidates.filter fun candidate => candidate.source = .lexical).filter isPrimary).filterMap
      fun candidate =>
        let hits := strongQueryTokenHits candidate tokens
        if 3 ≤ hits then some (hits, candidate.score) else none)

/-- A dense candidate with fewer strong hits than the anchor. -/
def isWeakDense (anchor : Nat × ℚ) (tokens : List Token) (candidate : Candidate) : Bool :=
  candidate.source = .semantic && decide (strongQueryTokenHits candidate tokens < anchor.1)

def capDenseBelowStrongLexicalSource (candidates : List Candidate) (tokens : List Token) :
    List Candidate :=
  match strongLexicalAnchor candidates tokens with
  | none => candidates
  | some anchor => candidates.map fun candidate =>
    if isWeakDense anchor tokens candidate ∧ anchor.2 ≤ candidate.score then
      { candidate with score := belowScore anchor.2 }
    else candidate

/-! ## The ranking -/

def fileRoleSortRank (candidate : Candidate) : Nat :=
  match effectiveFileRole candidate with
  | .entrypoint => 0
  | .source => 1
  | .test => 2
  | .docs => 3
  | .benchmark => 4
  | .generated => 5
  | .vendor => 6

def sourceSortRank (candidate : Candidate) : Nat :=
  match candidate.source with
  | .lexical => 0
  | .scip => 1
  | .semantic => 2
  | .legacy => 3

def compareRanked (left right : Candidate) : Ordering :=
  (compare right.score left.score).then
    ((compare (fileRoleSortRank left) (fileRoleSortRank right)).then
      ((compare (sourceSortRank left) (sourceSortRank right)).then
        ((compare left.filePath right.filePath).then
          (compare left.symbolName right.symbolName))))

/-- The candidates that survive the minimum score. -/
def survivors (chars : CharClasses) (features : QueryFeatures) (candidates : List Candidate) :
    List Candidate :=
  let tokens := tokenize chars features.rawQuery
  let preferPrimaryCode := prefersPrimaryCodeEvidence features.shape tokens
  let fused := (candidates.filter fun candidate => !isPhantomSidecarHit candidate).map
    (fuseCandidate features tokens preferPrimaryCode)
  (applyExactCodeEvidenceAnchor features tokens fused).filter
    fun candidate => minRankScore features.shape ≤ candidate.score

/-- The candidates as they enter the caps for primary code. -/
def structurallyCapped (chars : CharClasses) (features : QueryFeatures)
    (candidates : List Candidate) : List Candidate :=
  let tokens := tokenize chars features.rawQuery
  if queryHasCodeIntent tokens && !queryMentionsStructuralRole tokens then
    applyStructuralCodeIntentCap (survivors chars features candidates)
  else survivors chars features candidates

def rankCandidates (chars : CharClasses) (features : QueryFeatures) (candidates : List Candidate) :
    List Candidate :=
  let tokens := tokenize chars features.rawQuery
  let candidates := structurallyCapped chars features candidates
  Selection.sortBy compareRanked
    (if prefersPrimaryCodeEvidence features.shape tokens then
      capDenseBelowStrongLexicalSource (capNonPrimaryBelowBestPrimary candidates) tokens
    else candidates)

end CodeStory.Retrieval
