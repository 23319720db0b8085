import Mathlib.Data.List.DropRight
import Mathlib.Data.List.Infix
import CodeStory.Lib.Text

/-!
# What a query asks for

`classify_query` and `plan_query` in full mode. The Unicode classes of characters are a
parameter. The budgets of stages are added elsewhere: they only set deadlines.
-/

set_option autoImplicit false

namespace CodeStory.Retrieval

/-- `char::is_uppercase`, `char::is_lowercase` and `char::is_alphanumeric`. -/
structure CharClasses where
  isUppercase : Char → Bool
  isLowercase : Char → Bool
  isAlphanumeric : Char → Bool

inductive QueryShape where
  | symbolLike
  | pathLike
  | naturalLanguage
  | mixed
  deriving DecidableEq, Repr

structure QueryFeatures where
  rawQuery : String
  shape : QueryShape
  tokenCount : Nat
  hasPathSeparators : Bool
  hasCamelCaseToken : Bool
  hasSnakeCaseToken : Bool
  looksLikeQualifiedSymbol : Bool
  deriving DecidableEq, Repr

/-- `str::trim` -/
def trim (s : String) : String :=
  String.ofList ((s.toList.dropWhile Text.isWhiteSpace).rdropWhile Text.isWhiteSpace)

/-- `str::split_whitespace` -/
def splitWhitespace (s : String) : List (List Char) :=
  (s.toList.splitOnP Text.isWhiteSpace).filter (· ≠ [])

def asciiLower (s : List Char) : List Char := s.map Char.toLower

def isSnakeCase (token : List Char) : Bool :=
  '_' ∈ token && (token.filter Char.isAlpha).all fun c => c.isLower || c = '_'

def questionWords : List String := ["how", "what", "where", "why", "when", "explain", "find"]

/-- The features of a trimmed query. -/
def featuresOf (chars : CharClasses) (trimmed : String) : QueryFeatures :=
  let tokens := splitWhitespace trimmed
  let text := trimmed.toList
  let tokenCount := max tokens.length 1
  let hasPathSeparators := '/' ∈ text || '\\' ∈ text
  let hasCamelCaseToken := tokens.any fun token =>
    token.any chars.isUppercase && token.any chars.isLowercase
  let hasSnakeCaseToken := tokens.any isSnakeCase
  let looksLikeQualifiedSymbol := tokens.any fun token =>
    '.' ∈ token || decide ("::".toList <:+: token)
  let pathLike := hasPathSeparators || (tokenCount == 1 &&
    ([".rs", ".ts", ".tsx"].any fun ending => ending.toList.isSuffixOf text))
  let symbolLike := looksLikeQualifiedSymbol || hasCamelCaseToken || hasSnakeCaseToken ||
    (tokenCount == 1 && text.all fun c => chars.isAlphanumeric c || c = '_')
  let nlLike := tokenCount ≥ 3 || tokens.any fun word =>
    questionWords.any fun question => question.toList == asciiLower word
  let shape : QueryShape :=
    if pathLike then if symbolLike && nlLike then .mixed else .pathLike
    else if symbolLike && !nlLike then .symbolLike
    else if nlLike && !symbolLike then .naturalLanguage
    else if nlLike then .mixed
    else if symbolLike then .symbolLike
    else .naturalLanguage
  ⟨trimmed, shape, tokenCount, hasPathSeparators, hasCamelCaseToken, hasSnakeCaseToken,
    looksLikeQualifiedSymbol⟩

def classifyQuery (chars : CharClasses) (query : String) : QueryFeatures :=
  featuresOf chars (trim query)

inductive RetrievalStageKind where
  | stage0ScipAnchor
  | stage1Lexical
  | stage1bSemantic
  | stage2ScipExpand
  | stage3RepoTextFallback
  deriving DecidableEq, Repr

def RetrievalStageKind.provenanceLabel : RetrievalStageKind → Option String
  | .stage0ScipAnchor => some "exact"
  | .stage1Lexical => some "lexical_source"
  | .stage1bSemantic => some "dense_anchor"
  | .stage2ScipExpand => some "graph_neighbor"
  | .stage3RepoTextFallback => none

structure PlannedStage where
  kind : RetrievalStageKind
  topK : Nat
  deriving DecidableEq, Repr

def topKForShape : QueryShape → Nat
  | .symbolLike => 12
  | .pathLike => 8
  | .naturalLanguage => 48
  | .mixed => 24

def stopAfterLowGainStreak : Nat := 2

/-- The stages of `plan_query` in full mode. -/
def planQuery (features : QueryFeatures) : List PlannedStage :=
  let topK := topKForShape features.shape
  let anchor : List PlannedStage :=
    match features.shape with
    | .symbolLike => [⟨.stage0ScipAnchor, min topK 8⟩]
    | .pathLike => [⟨.stage0ScipAnchor, min topK 8⟩]
    | _ => []
  let lexical : List PlannedStage := [⟨.stage1Lexical, topK⟩]
  let semantic : List PlannedStage :=
    match features.shape with
    | .pathLike => []
    | .symbolLike => [⟨.stage1bSemantic, topK⟩]
    | _ => [⟨.stage1bSemantic, min (topK * 2) 40⟩]
  let expand : List PlannedStage :=
    match features.shape with
    | .naturalLanguage => [⟨.stage2ScipExpand, min topK 20⟩]
    | _ => [⟨.stage2ScipExpand, min topK 16⟩]
  match features.shape with
  | .naturalLanguage => anchor ++ lexical ++ (semantic ++ expand)
  | .mixed => anchor ++ lexical ++ (semantic ++ expand)
  | _ => anchor ++ lexical ++ (expand ++ semantic)

end CodeStory.Retrieval
