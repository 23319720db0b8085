import Mathlib.Data.List.Sort
import CodeStory.ApiError
import CodeStory.Lib.Text
import CodeStory.Store.Database

/-!
# Persisted search generations

The catalog is the directory of search generations next to the live database. A generation is
its completion marker, if the marker file can be read and decoded, and the number of documents
of its index, if the index opens. Locks held through other file handles, listings, modification
times and failures of calls are answers of the world. A removal that fails leaves what the world
says is left.

The name of the catalog directory always exists, file names are UTF-8, and the lock files of
generations, which stay behind, are not entries of the catalog here. Log messages are not
modelled.
-/

set_option autoImplicit false

namespace CodeStory.Search

open Store

def searchGenerationCompletionSchemaVersion : Nat := 1

structure SearchGenerationCompletion where
  schemaVersion : Nat
  generationId : String
  symbolCount : Nat
  tantivyDocCount : Nat
  deriving DecidableEq, Repr

structure SearchGeneration where
  completion : Option SearchGenerationCompletion
  tantivyDocCount : Option Nat
  deriving DecidableEq, Repr

abbrev Catalog := String → Option SearchGeneration

def Catalog.set (catalog : Catalog) (name : String) (content : Option SearchGeneration) :
    Catalog :=
  fun other => if other = name then content else catalog other

@[simp] theorem Catalog.set_self (catalog : Catalog) (name : String)
    (content : Option SearchGeneration) : catalog.set name content name = content := by
  simp [Catalog.set]

theorem Catalog.set_of_ne {catalog : Catalog} {name other : String}
    {content : Option SearchGeneration} (h : other ≠ name) :
    catalog.set name content other = catalog other := by
  simp [Catalog.set, h]

def readSearchGenerationCompletion (content : Option SearchGeneration)
    (expectedGenerationId : String) : Option SearchGenerationCompletion :=
  (content.bind (·.completion)).filter fun marker =>
    marker.schemaVersion = searchGenerationCompletionSchemaVersion &&
      marker.generationId = expectedGenerationId

/-- The marker names the generation, and the index has as many documents as it says. -/
def isValid (name : String) (content : Option SearchGeneration) : Bool :=
  (readSearchGenerationCompletion content name).any fun marker =>
    content.bind (·.tantivyDocCount) = some marker.tantivyDocCount

/-- How other handles hold the lock file of a generation. -/
inductive Lock where
  | free
  | shared
  | exclusive
  deriving DecidableEq, Repr

inductive LockAnswer where
  | unopened (error : String)
  | failed (error : String)
  | held (lock : Lock)
  deriving DecidableEq, Repr

inductive Removal where
  | done
  | failed (error : String) (left : Option SearchGeneration)
  deriving DecidableEq, Repr

/-- A directory lists no name twice. -/
structure Listing where
  names : List String
  distinct : names.Nodup

structure CatalogWorld where
  rootIsDir : Bool
  deletionRootError : Option String
  listing : Except String Listing
  modified : String → Option Int
  inspection : String → LockAnswer
  removalLock : String → LockAnswer
  removal : String → Removal

structure CatalogRoot where
  parent : String
  directory : String
  deriving DecidableEq, Repr

section Catalog
variable (root : CatalogRoot) (world : CatalogWorld)

def CatalogRoot.path : String := root.parent ++ "/" ++ root.directory

def generationPath (name : String) : String := root.path ++ "/" ++ name

def persistedSearchIndexLockPath (name : String) : String := generationPath root name ++ ".lock"

def lockNotOpened (name error : String) : ApiError :=
  .internal ("Failed to open persisted search generation lock " ++
    persistedSearchIndexLockPath root name ++ ": " ++ error)

/-- `none` for a generation that is locked exclusively. -/
def inspectSearchGeneration (name : String) (content : Option SearchGeneration) :
    Except ApiError (Option Bool) :=
  match world.inspection name with
  | .unopened error => .error (lockNotOpened root name error)
  | .failed error =>
    .error (.internal ("Failed to inspect persisted search generation lock " ++
      persistedSearchIndexLockPath root name ++ ": " ++ error))
  | .held .exclusive => .ok none
  | .held _ => .ok (some (isValid name content))

/-- `OwnedDeletionRoot::remove`, with what is left of the generation. -/
def removeOwned (name : String) (content : Option SearchGeneration) :
    Except String Bool × Option SearchGeneration :=
  match content with
  | none => (.ok false, none)
  | some _ =>
    match world.removal name with
    | .done => (.ok true, none)
    | .failed error left => (.error error, left)

def tryRemoveSearchGeneration (name : String) (content : Option SearchGeneration) :
    Except ApiError Bool × Option SearchGeneration :=
  match world.removalLock name with
  | .unopened error => (.error (lockNotOpened root name error), content)
  | .failed error =>
    (.error (.internal ("Failed to lock persisted search generation " ++
      generationPath root name ++ " for removal: " ++ error)), content)
  | .held .free =>
    match removeOwned world name content with
    | (.ok removed, left) => (.ok removed, left)
    | (.error error, left) =>
      (.error (.internal ("Failed to remove persisted search generation " ++
        generationPath root name ++ ": " ++ error)), left)
  | .held _ => (.ok false, content)

/-- The entries of a listing, the most recently modified first. -/
def generationsByModification (listing : Listing) : List String :=
  (listing.names.filter (!Text.endsWith · ".lock")).insertionSort fun a b =>
    (world.modified b).getD 0 ≤ (world.modified a).getD 0

section Retention
variable (isUuid : String → Bool) (activeGenerationId : String)
  (pinnedRollbackGenerationId : Option String)

/-- The loop over the generations; the flag says that a rollback is retained. -/
def retainGenerations : List String → Bool → Catalog → Except ApiError Unit × Catalog
  | [], _, catalog => (.ok (), catalog)
  | name :: rest, rollbackRetained, catalog =>
    if name = activeGenerationId then
      retainGenerations rest rollbackRetained catalog
    else
      match (if isUuid name then inspectSearchGeneration root world name (catalog name)
        else .ok (some false)) with
      | .error error => (.error error, catalog)
      | .ok none => retainGenerations rest rollbackRetained catalog
      | .ok (some valid) =>
        if valid && !rollbackRetained && pinnedRollbackGenerationId.all (· = name) then
          retainGenerations rest true catalog
        else
          match tryRemoveSearchGeneration root world name (catalog name) with
          | (.error error, left) => (.error error, catalog.set name left)
          | (.ok _, left) => retainGenerations rest rollbackRetained (catalog.set name left)

end Retention

/-- The rollback pinned by a read of the live publication; a failed read pins nothing. -/
def pinnedRollback (read : Except StorageError (Option IndexPublicationRecord))
    (activeGenerationId : String) : Option String :=
  (read.toOption.join.map (·.generationId)).filter (· ≠ activeGenerationId)

/-- `read` is the outcome of `Store::database_complete_index_publication`. -/
def pruneSearchGenerations (isUuid : String → Bool) (activeGenerationId : String)
    (read : Except StorageError (Option IndexPublicationRecord)) (catalog : Catalog) :
    Except ApiError Unit × Catalog :=
  if !world.rootIsDir then (.ok (), catalog)
  else
    match world.deletionRootError with
    | some error =>
      (.error (.internal ("Failed to open persisted search generation deletion root " ++
        root.parent ++ ": " ++ error)), catalog)
    | none =>
      match world.listing with
      | .error error =>
        (.error (.internal ("Failed to list persisted search generations " ++ root.path ++ ": " ++
          error)), catalog)
      | .ok listing =>
        retainGenerations root world isUuid activeGenerationId
          (pinnedRollback read activeGenerationId) (generationsByModification world listing) false
          catalog

end Catalog

end CodeStory.Search
