import Mathlib.Logic.Basic
import CodeStory.Lib.Text

/-!
# The retrieval manifest

The row that names a published sidecar generation, with the fields that retention, the query
cache and the query executor read, and the names of generations and vector collections.
-/

set_option autoImplicit false

namespace CodeStory.Retrieval

@[ext]
structure RetrievalIndexManifest where
  projectId : String
  lexicalVersion : String
  semanticGeneration : String
  scipRevision : Option String
  sidecarSchemaVersion : Option Int
  sidecarInputHash : Option String
  sidecarGeneration : Option String
  projectionCount : Option Int
  denseProjectionCount : Option Int
  deriving DecidableEq, Repr

section Names

/-- `str::strip_prefix` -/
def stripLead (lead s : String) : Option String :=
  if lead.toList <+: s.toList then some (String.ofList (s.toList.drop lead.toList.length))
  else none

theorem stripLead_eq_some {lead s t : String} : stripLead lead s = some t ↔ s = lead ++ t := by
  unfold stripLead
  constructor
  · intro h
    split at h
    · rename_i hlead
      obtain ⟨rest, hrest⟩ := hlead
      obtain rfl := Option.some.inj h
      apply String.toList_inj.mp
      rw [String.toList_append, String.toList_ofList, ← hrest, List.drop_left]
    · exact absurd h (by simp)
  · rintro rfl
    rw [if_pos (by rw [String.toList_append]; exact List.prefix_append _ _), String.toList_append,
      List.drop_left, String.ofList_toList]

/-- Sixteen lowercase hexadecimal digits. -/
def canonicalSuffix (suffix : String) : Option String :=
  if suffix.utf8ByteSize = 16 ∧
      suffix.toList.all fun c => ('0' ≤ c && c ≤ '9') || ('a' ≤ c && c ≤ 'f') then some suffix
  else none

def generationLead (projectId : String) : String := projectId ++ "-"

def collectionLead (projectId : String) : String := "codestory_" ++ projectId ++ "_"

def canonicalGenerationSuffix (projectId generation : String) : Option String :=
  (stripLead (generationLead projectId) generation).bind canonicalSuffix

def canonicalCollectionSuffix (projectId collection : String) : Option String :=
  (stripLead (collectionLead projectId) collection).bind canonicalSuffix

theorem canonicalSuffix_eq {suffix t : String} (h : canonicalSuffix suffix = some t) :
    suffix = t := by
  unfold canonicalSuffix at h
  split at h
  · exact Option.some.inj h
  · exact absurd h (by simp)

theorem canonicalGenerationSuffix_eq {projectId generation suffix : String}
    (h : canonicalGenerationSuffix projectId generation = some suffix) :
    generation = generationLead projectId ++ suffix := by
  obtain ⟨t, ht, hsuffix⟩ := Option.bind_eq_some_iff.mp h
  obtain rfl := canonicalSuffix_eq hsuffix
  exact stripLead_eq_some.mp ht

theorem canonicalCollectionSuffix_eq {projectId collection suffix : String}
    (h : canonicalCollectionSuffix projectId collection = some suffix) :
    collection = collectionLead projectId ++ suffix := by
  obtain ⟨t, ht, hsuffix⟩ := Option.bind_eq_some_iff.mp h
  obtain rfl := canonicalSuffix_eq hsuffix
  exact stripLead_eq_some.mp ht

theorem append_left_cancel {lead s t : String} (h : lead ++ s = lead ++ t) : s = t := by
  have hlist := congrArg String.toList h
  rw [String.toList_append, String.toList_append] at hlist
  exact String.toList_inj.mp (List.append_cancel_left hlist)

end Names

def lexicalIndexVersion : String := "sqlite-fts5-v1"

def sidecarSchemaVersion : Int := 6

def sidecarGenerationId (projectId sidecarInputHash : String) : String :=
  generationLead projectId ++ String.ofList (sidecarInputHash.toList.take 16)

def sidecarVectorGeneration (projectId sidecarInputHash : String) : String :=
  collectionLead projectId ++ String.ofList (sidecarInputHash.toList.take 16)

/-- As far as the fields go that are kept here. -/
def manifestHasCurrentSidecarContract (projectId : String) (manifest : RetrievalIndexManifest) :
    Bool :=
  match manifest.sidecarInputHash with
  | none => false
  | some hash =>
    !Text.isBlank hash && manifest.lexicalVersion = lexicalIndexVersion &&
      manifest.sidecarSchemaVersion = some sidecarSchemaVersion &&
      manifest.sidecarGeneration = some (sidecarGenerationId projectId hash) &&
      manifest.semanticGeneration = sidecarVectorGeneration projectId hash &&
      manifest.projectionCount.any (0 ≤ ·) && manifest.denseProjectionCount.any (0 ≤ ·) &&
      manifest.denseProjectionCount = manifest.projectionCount

end CodeStory.Retrieval
