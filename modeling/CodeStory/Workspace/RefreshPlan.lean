import CodeStory.Lib.KeyedTable
import CodeStory.Lib.Selection
import CodeStory.Workspace.LexicalPath

/-!
# The plan of a refresh

`build_refresh_outcome_from_inventory` and the store it compares the current files with. Paths
are compared as `PathBuf` compares them, by their components. What the file system answers is
any function of the path, the same during one call. The order in which the map of stored files
yields its values is an argument. The issues of the inventory are passed through and left out.
-/

set_option autoImplicit false

namespace CodeStory.Workspace

open UnixPath

structure StoredFileState where
  id : Int
  path : UnixPath
  modificationTime : Int
  contentHash : Option String
  indexed : Bool
  complete : Bool
  retryRequired : Bool
  deriving DecidableEq

structure IndexedFileRecord where
  fileId : Int
  modificationTime : Int
  contentHash : Option String
  indexed : Bool
  complete : Bool
  retryRequired : Bool
  deriving DecidableEq

/-- The path of a map entry, as the map tells it apart. -/
def pathKey {α : Type} (entry : UnixPath × α) : List Component := entry.1.components

def StoredFileState.pathKey (file : StoredFileState) : List Component := file.path.components

structure RefreshInputs where
  storedFiles : List StoredFileState
  inventory : KeyedTable (pathKey (α := IndexedFileRecord))

inductive WorkspaceInventoryOutcome where
  | complete
  | partially
  | unreadable
  | bounded
  deriving DecidableEq, Repr

def storedState (entry : UnixPath × IndexedFileRecord) : StoredFileState :=
  ⟨entry.2.fileId, entry.1, entry.2.modificationTime, entry.2.contentHash, entry.2.indexed,
    entry.2.complete, entry.2.retryRequired⟩

/-- `RefreshInputs::inventory_map` -/
def RefreshInputs.inventoryMap (inputs : RefreshInputs) : KeyedTable StoredFileState.pathKey :=
  if inputs.storedFiles ≠ [] then KeyedTable.empty.upsertAll inputs.storedFiles
  else ⟨inputs.inventory.rows.map storedState, by
    rw [List.map_map]
    exact inputs.inventory.nodup⟩

/-- The stored files that a refresh is given. -/
def RefreshInputs.stored (inputs : RefreshInputs) : List StoredFileState :=
  if inputs.storedFiles ≠ [] then inputs.storedFiles else inputs.inventory.rows.map storedState

/-- What the file system answers about a path during the call. -/
structure FileView where
  canonicalize : List Component → Option UnixPath
  modificationTimeMillis : List Component → Option Int
  currentContentHash : List Component → Option String

section Plan
variable (view : FileView) (root : UnixPath)

def normalizedCompareKey (path : UnixPath) : String :=
  let absolute := if path.absolute then normalizeLexicalPath path
    else normalizeLexicalPath (root.join path)
  ((view.canonicalize absolute.components).getD absolute).text

def storedFileNeedsIndex (path : UnixPath) (file : StoredFileState) : Bool :=
  if !file.indexed || file.retryRequired then true
  else
    match view.modificationTimeMillis path.components with
    | none => true
    | some mtime =>
      if mtime ≠ file.modificationTime then true
      else
        match file.contentHash with
        | none => false
        | some expected =>
          match view.currentContentHash path.components with
          | some actual => actual ≠ expected
          | none => true

def storedKey (file : StoredFileState) : String := normalizedCompareKey view root file.path

/-- The stored files by key, from the values in the order in which the map yields them. -/
def normalizedStoredMap (values : List StoredFileState) : KeyedTable (storedKey view root) :=
  KeyedTable.empty.upsertAll values

structure CurrentFiles where
  filesToIndex : List UnixPath
  existingFileIds : KeyedTable (pathKey (α := Int))
  currentFileKeys : List String

/-- One turn of the loop over the current files. -/
def visitCurrent (stored : KeyedTable (storedKey view root)) (s : CurrentFiles)
    (path : UnixPath) : CurrentFiles :=
  let key := normalizedCompareKey view root path
  let found := stored.lookup key
  { filesToIndex :=
      if (match found with
        | some file => storedFileNeedsIndex view path file
        | none => true) then s.filesToIndex ++ [path] else s.filesToIndex
    existingFileIds :=
      match found with
      | some file => s.existingFileIds.upsert (path, file.id)
      | none => s.existingFileIds
    currentFileKeys := s.currentFileKeys ++ [key] }

structure RefreshPlan where
  filesToIndex : List UnixPath
  filesToRemove : List Int
  existingFileIds : KeyedTable (pathKey (α := Int))

def buildRefreshOutcomeFromInventory (values : List StoredFileState)
    (currentFiles : List UnixPath) (outcome : WorkspaceInventoryOutcome) : RefreshPlan :=
  let stored := normalizedStoredMap view root values
  let visited := currentFiles.foldl (visitCurrent view root stored) ⟨[], KeyedTable.empty, []⟩
  -- the second iteration of the map is in any order too, and sorted away
  let filesToRemove :=
    if outcome = .complete then
      (stored.rows.filter fun file => storedKey view root file ∉ visited.currentFileKeys).map
        (·.id)
    else []
  { filesToIndex := visited.filesToIndex
    filesToRemove := (filesToRemove.insertionSort (· ≤ ·)).destutter (· ≠ ·)
    existingFileIds := visited.existingFileIds }

end Plan

section Partition
variable (view : FileView) (root : UnixPath)

/-- The stored file calls for indexing the current one: it is not indexed, it is to be tried
again, or what the file system answers is not what it records. -/
def CallsForIndex (path : UnixPath) (file : StoredFileState) : Prop :=
  file.indexed = false ∨ file.retryRequired = true ∨
    view.modificationTimeMillis path.components ≠ some file.modificationTime ∨
    ∃ hash, file.contentHash = some hash ∧ view.currentContentHash path.components ≠ some hash

def Names (file : StoredFileState) (path : UnixPath) : Prop :=
  normalizedCompareKey view root file.path = normalizedCompareKey view root path

/-- No stored file names the current one, or one that does calls for indexing it. -/
def NeedsIndex (rows : List StoredFileState) (path : UnixPath) : Prop :=
  (∀ file ∈ rows, ¬ Names view root file path) ∨
    ∃ file ∈ rows, Names view root file path ∧ CallsForIndex view path file

def RefreshPlan.existingId (plan : RefreshPlan) (path : UnixPath) : Option Int :=
  (plan.existingFileIds.lookup path.components).map (·.2)

/-- What a plan is to be, for the stored files and the current ones. -/
structure RefreshPartition (rows : List StoredFileState) (currentFiles : List UnixPath)
    (outcome : WorkspaceInventoryOutcome) (plan : RefreshPlan) : Prop where
  kept : outcome ≠ .complete → plan.filesToRemove = []
  covered : outcome = .complete → ∀ file ∈ rows,
    file.id ∈ plan.filesToRemove ∨ ∃ path ∈ currentFiles, plan.existingId path = some file.id
  disjoint : outcome = .complete → ∀ file ∈ rows,
    ¬ (file.id ∈ plan.filesToRemove ∧
      ∃ path ∈ currentFiles, plan.existingId path = some file.id)
  removed : outcome = .complete → ∀ id, id ∈ plan.filesToRemove ↔
    ∃ file ∈ rows, file.id = id ∧ ∀ path ∈ currentFiles, ¬ Names view root file path
  indexed : ∀ path ∈ currentFiles, NeedsIndex view root rows path →
    (plan.filesToIndex.map components).count path.components = 1

/-- A complete inventory meets stored files of which no two are one file, and a current file
that needs indexing is listed once and not named by a stored file that says otherwise. -/
def Unaliased (rows : List StoredFileState) (currentFiles : List UnixPath)
    (outcome : WorkspaceInventoryOutcome) : Prop :=
  (outcome = .complete → (rows.map (storedKey view root)).Nodup) ∧
    ∀ path ∈ currentFiles, NeedsIndex view root rows path →
      (currentFiles.map components).count path.components = 1 ∧
        ∀ file ∈ rows, Names view root file path → CallsForIndex view path file

end Partition

section Keys
variable {view : FileView} {root : UnixPath}

theorem normalizeLexicalPath_congr {p q : UnixPath} (habsolute : p.absolute = q.absolute)
    (hreduce : reduce p.segments = reduce q.segments) :
    normalizeLexicalPath p = normalizeLexicalPath q := by
  rw [normalizeLexicalPath_eq, normalizeLexicalPath_eq]
  unfold climb names
  rw [habsolute, hreduce]

/-- Equal paths have equal keys. -/
theorem normalizedCompareKey_congr {p q : UnixPath} (h : p.components = q.components) :
    normalizedCompareKey view root p = normalizedCompareKey view root q := by
  have habsolute := absolute_eq_of_components h
  have hreduce : ∀ state,
      p.segments.foldl reduceStep state = q.segments.foldl reduceStep state := by
    intro state
    rw [← foldl_reduceComponent, ← foldl_reduceComponent, h]
  have hjoined : (if p.absolute = true then normalizeLexicalPath p
        else normalizeLexicalPath (root.join p)) =
      if q.absolute = true then normalizeLexicalPath q
        else normalizeLexicalPath (root.join q) := by
    rw [habsolute]
    by_cases hq : q.absolute = true
    · rw [if_pos hq, if_pos hq]
      exact normalizeLexicalPath_congr habsolute (hreduce _)
    · have hp : p.absolute ≠ true := by rw [habsolute]; exact hq
      rw [if_neg hq, if_neg hq]
      unfold join
      rw [if_neg hp, if_neg hq]
      refine normalizeLexicalPath_congr ?_ ?_
      · rfl
      · rw [reduce_append, reduce_append, hreduce]
  unfold normalizedCompareKey
  rw [hjoined]

theorem storedFileNeedsIndex_iff (path : UnixPath) (file : StoredFileState) :
    storedFileNeedsIndex view path file = true ↔ CallsForIndex view path file := by
  unfold storedFileNeedsIndex CallsForIndex
  cases file.indexed with
  | false => simp
  | true =>
    cases file.retryRequired with
    | true => simp
    | false =>
      cases view.modificationTimeMillis path.components with
      | none => simp
      | some mtime =>
        by_cases hmtime : mtime = file.modificationTime
        · cases file.contentHash with
          | none => simp [hmtime]
          | some expected =>
            cases view.currentContentHash path.components with
            | none => simp [hmtime]
            | some actual => simp [hmtime]
        · simp [hmtime]

end Keys

section Visited
variable {view : FileView} {root : UnixPath}

/-- Whether the loop pushes the path. -/
def pushed (stored : KeyedTable (storedKey view root)) (path : UnixPath) : Bool :=
  match stored.lookup (normalizedCompareKey view root path) with
  | some file => storedFileNeedsIndex view path file
  | none => true

def recordedIds (stored : KeyedTable (storedKey view root)) (currentFiles : List UnixPath) :
    List (UnixPath × Int) :=
  currentFiles.filterMap fun path =>
    (stored.lookup (normalizedCompareKey view root path)).map fun file => (path, file.id)

theorem foldl_visitCurrent (stored : KeyedTable (storedKey view root))
    (currentFiles : List UnixPath) (s : CurrentFiles) :
    currentFiles.foldl (visitCurrent view root stored) s =
      { filesToIndex := s.filesToIndex ++ currentFiles.filter (pushed stored)
        existingFileIds := s.existingFileIds.upsertAll (recordedIds stored currentFiles)
        currentFileKeys := s.currentFileKeys ++
          currentFiles.map (normalizedCompareKey view root) } := by
  induction currentFiles generalizing s with
  | nil => simp [recordedIds, KeyedTable.upsertAll]
  | cons path rest ih =>
    rw [List.foldl_cons, ih]
    unfold visitCurrent recordedIds
    dsimp only
    cases hfound : stored.lookup (normalizedCompareKey view root path) with
    | none => simp [pushed, hfound]
    | some file =>
      cases hneeds : storedFileNeedsIndex view path file with
      | true => simp [pushed, hfound, hneeds, KeyedTable.upsertAll]
      | false => simp [pushed, hfound, hneeds, KeyedTable.upsertAll]

variable {values : List StoredFileState} {currentFiles : List UnixPath}
  {outcome : WorkspaceInventoryOutcome}

theorem filesToIndex_eq :
    (buildRefreshOutcomeFromInventory view root values currentFiles outcome).filesToIndex =
      currentFiles.filter (pushed (normalizedStoredMap view root values)) := by
  unfold buildRefreshOutcomeFromInventory
  dsimp only
  rw [foldl_visitCurrent, List.nil_append]

/-- The id recorded for a current file is that of the stored file with its key. -/
theorem existingId_eq {path : UnixPath} (hpath : path ∈ currentFiles) :
    (buildRefreshOutcomeFromInventory view root values currentFiles outcome).existingId path =
      ((normalizedStoredMap view root values).lookup
        (normalizedCompareKey view root path)).map (·.id) := by
  let stored := normalizedStoredMap view root values
  have hmap : (buildRefreshOutcomeFromInventory view root values currentFiles
      outcome).existingFileIds = KeyedTable.empty.upsertAll (recordedIds stored currentFiles) := by
    unfold buildRefreshOutcomeFromInventory
    dsimp only
    rw [foldl_visitCurrent]
  unfold RefreshPlan.existingId
  rw [hmap, KeyedTable.lookup_upsertAll, KeyedTable.lookup_empty, Option.or_none]
  cases hlast : KeyedTable.lastRow pathKey (recordedIds stored currentFiles) path.components with
  | none =>
    have hnone := KeyedTable.lastRow_eq_none_iff.mp hlast
    cases hfound : stored.lookup (normalizedCompareKey view root path) with
    | none => rfl
    | some file =>
      exfalso
      apply hnone (path, file.id)
      · exact List.mem_filterMap.mpr ⟨path, hpath, by rw [hfound]; rfl⟩
      · rfl
  | some entry =>
    obtain ⟨hentry, hkey⟩ := KeyedTable.mem_of_lastRow hlast
    obtain ⟨other, -, hother⟩ := List.mem_filterMap.mp hentry
    obtain ⟨file, hfound, rfl⟩ := Option.map_eq_some_iff.mp hother
    -- another spelling of the path has the same key
    have hsame : normalizedCompareKey view root other = normalizedCompareKey view root path :=
      normalizedCompareKey_congr hkey
    have hfound' : (normalizedStoredMap view root values).lookup
        (normalizedCompareKey view root other) = some file := hfound
    rw [← hsame, hfound']
    rfl

theorem mem_filesToRemove {id : Int} :
    id ∈ (buildRefreshOutcomeFromInventory view root values currentFiles
        outcome).filesToRemove ↔
      outcome = .complete ∧ ∃ file ∈ (normalizedStoredMap view root values).rows, file.id = id ∧
        ∀ path ∈ currentFiles, ¬ Names view root file path := by
  unfold buildRefreshOutcomeFromInventory
  dsimp only
  rw [foldl_visitCurrent, Selection.mem_destutter_ne, List.mem_insertionSort]
  by_cases hcomplete : outcome = .complete
  · rw [if_pos hcomplete, List.mem_map]
    simp only [hcomplete, true_and, List.nil_append, List.mem_filter, List.mem_map,
      decide_eq_true_eq, not_exists, not_and]
    constructor
    · rintro ⟨file, ⟨hfile, hkeys⟩, hid⟩
      exact ⟨file, hfile, hid, fun path hpath hnames => hkeys path hpath hnames.symm⟩
    · rintro ⟨file, hfile, hid, hkeys⟩
      exact ⟨file, ⟨hfile, fun path hpath hnames => hkeys path hpath hnames.symm⟩, hid⟩
  · rw [if_neg hcomplete]
    simp [hcomplete]

/-- The map of a list of values holds the last value of each key. -/
theorem mem_normalizedStoredMap {file : StoredFileState} :
    file ∈ (normalizedStoredMap view root values).rows ↔
      KeyedTable.lastRow (storedKey view root) values (storedKey view root file) = some file := by
  have hlookup : (normalizedStoredMap view root values).lookup (storedKey view root file) =
      KeyedTable.lastRow (storedKey view root) values (storedKey view root file) := by
    unfold normalizedStoredMap
    rw [KeyedTable.lookup_upsertAll, KeyedTable.lookup_empty, Option.or_none]
  rw [← hlookup, KeyedTable.lookup_eq_some_iff]
  exact ⟨fun h => ⟨h, rfl⟩, fun h => h.1⟩

theorem lookup_normalizedStoredMap (key : String) :
    (normalizedStoredMap view root values).lookup key =
      KeyedTable.lastRow (storedKey view root) values key := by
  unfold normalizedStoredMap
  rw [KeyedTable.lookup_upsertAll, KeyedTable.lookup_empty, Option.or_none]

end Visited

section Exact
variable {view : FileView} {root : UnixPath} {rows values : List StoredFileState}
  {currentFiles : List UnixPath} {outcome : WorkspaceInventoryOutcome}

/-- Two stored files that are one file are lost one of: no plan over a complete inventory
removes or records it. -/
theorem nodup_of_partition (hids : (rows.map (·.id)).Nodup) (hperm : values.Perm rows)
    (h : RefreshPartition view root rows currentFiles .complete
      (buildRefreshOutcomeFromInventory view root values currentFiles .complete)) :
    (rows.map (storedKey view root)).Nodup := by
  have hrows : rows.Nodup := List.Nodup.of_map _ hids
  apply hrows.map_on
  intro left hleft right hright hkey
  have hkept : ∀ file ∈ rows, KeyedTable.lastRow (storedKey view root) values
      (storedKey view root file) = some file := by
    intro file hfile
    rcases h.covered rfl file hfile with hremoved | ⟨path, hpath, hexisting⟩
    · obtain ⟨-, file', hfile', hid, -⟩ := mem_filesToRemove.mp hremoved
      have hlast := mem_normalizedStoredMap.mp hfile'
      have hmem := hperm.mem_iff.mp (KeyedTable.mem_of_lastRow hlast).1
      obtain rfl := List.inj_on_of_nodup_map hids hmem hfile hid
      exact hlast
    · rw [existingId_eq hpath, lookup_normalizedStoredMap] at hexisting
      obtain ⟨file', hlast, hid⟩ := Option.map_eq_some_iff.mp hexisting
      obtain ⟨hmem, hkey'⟩ := KeyedTable.mem_of_lastRow hlast
      obtain rfl := List.inj_on_of_nodup_map hids (hperm.mem_iff.mp hmem) hfile hid
      rw [hkey']
      exact hlast
  have hleftKept := hkept left hleft
  rw [hkey, hkept right hright] at hleftKept
  exact (Option.some.inj hleftKept).symm

theorem pushed_of_calls (hperm : values.Perm rows) {path : UnixPath}
    (hcalls : ∀ file ∈ rows, Names view root file path → CallsForIndex view path file) :
    pushed (normalizedStoredMap view root values) path = true := by
  unfold pushed
  rw [lookup_normalizedStoredMap]
  split
  · rename_i file hfound
    obtain ⟨hmem, hkey⟩ := KeyedTable.mem_of_lastRow hfound
    exact (storedFileNeedsIndex_iff path file).mpr (hcalls file (hperm.mem_iff.mp hmem) hkey)
  · rfl

/-- Equal paths are pushed or not alike. -/
theorem pushed_congr {stored : KeyedTable (storedKey view root)} {p q : UnixPath}
    (h : p.components = q.components) : pushed stored p = pushed stored q := by
  unfold pushed storedFileNeedsIndex
  rw [@normalizedCompareKey_congr view root p q h, h]

/-- A path that is pushed is in the plan as often as it is listed. -/
theorem count_filesToIndex {path : UnixPath}
    (h : pushed (normalizedStoredMap view root values) path = true) :
    ((buildRefreshOutcomeFromInventory view root values currentFiles
        outcome).filesToIndex.map components).count path.components =
      (currentFiles.map components).count path.components := by
  rw [filesToIndex_eq]
  induction currentFiles with
  | nil => rfl
  | cons first rest ih =>
    by_cases hsame : first.components = path.components
    · rw [List.filter_cons_of_pos (by rw [pushed_congr hsame]; exact h), List.map_cons,
        List.map_cons, hsame, List.count_cons_self, List.count_cons_self, ih]
    · have hrest : ((first :: rest).filter
          (pushed (normalizedStoredMap view root values))).map components =
          (if pushed (normalizedStoredMap view root values) first
            then [first.components] else []) ++
            (rest.filter (pushed (normalizedStoredMap view root values))).map components := by
        rw [List.filter_cons]
        split
        · rfl
        · rfl
      rw [hrest, List.count_append, ih, List.map_cons, List.count_cons_of_ne hsame]
      split
      · rw [List.count_singleton, if_neg (by simpa using hsame), Nat.zero_add]
      · rw [List.count_nil, Nat.zero_add]

/-- Where stored files have keys of their own, each is the last row of its key. -/
theorem lastRow_of_distinct (hperm : values.Perm rows)
    (hkeys : (rows.map (storedKey view root)).Nodup) {file : StoredFileState}
    (hfile : file ∈ rows) :
    KeyedTable.lastRow (storedKey view root) values (storedKey view root file) = some file := by
  obtain ⟨kept, hkept⟩ :=
    @KeyedTable.exists_lastRow _ _ (storedKey view root) _ values file (hperm.mem_iff.mpr hfile)
  obtain ⟨hmem, hkey⟩ := KeyedTable.mem_of_lastRow hkept
  rw [hkept, List.inj_on_of_nodup_map hkeys (hperm.mem_iff.mp hmem) hfile hkey]

theorem mem_filesToRemove_of_distinct (hperm : values.Perm rows)
    (hkeys : (rows.map (storedKey view root)).Nodup) (hcomplete : outcome = .complete) (id : Int) :
    id ∈ (buildRefreshOutcomeFromInventory view root values currentFiles
      outcome).filesToRemove ↔
    ∃ file ∈ rows, file.id = id ∧ ∀ path ∈ currentFiles, ¬ Names view root file path := by
  rw [mem_filesToRemove]
  constructor
  · rintro ⟨-, file, hfile, hid, hfree⟩
    have hmem := (KeyedTable.mem_of_lastRow (mem_normalizedStoredMap.mp hfile)).1
    exact ⟨file, hperm.mem_iff.mp hmem, hid, hfree⟩
  · rintro ⟨file, hfile, hid, hfree⟩
    exact ⟨hcomplete, file,
      mem_normalizedStoredMap.mpr (lastRow_of_distinct hperm hkeys hfile), hid, hfree⟩

theorem exists_existingId_of_distinct (hids : (rows.map (·.id)).Nodup) (hperm : values.Perm rows)
    (hkeys : (rows.map (storedKey view root)).Nodup) {file : StoredFileState}
    (hfile : file ∈ rows) :
    (∃ path ∈ currentFiles, (buildRefreshOutcomeFromInventory view root values currentFiles
      outcome).existingId path = some file.id) ↔
    ∃ path ∈ currentFiles, Names view root file path := by
  constructor
  · rintro ⟨path, hpath, hid⟩
    rw [existingId_eq hpath, lookup_normalizedStoredMap] at hid
    obtain ⟨other, hother, hid⟩ := Option.map_eq_some_iff.mp hid
    obtain ⟨hmem, hkey⟩ := KeyedTable.mem_of_lastRow hother
    obtain rfl := List.inj_on_of_nodup_map hids (hperm.mem_iff.mp hmem) hfile hid
    exact ⟨path, hpath, hkey⟩
  · rintro ⟨path, hpath, hnames⟩
    refine ⟨path, hpath, ?_⟩
    have hkey : storedKey view root file = normalizedCompareKey view root path := hnames
    rw [existingId_eq hpath, lookup_normalizedStoredMap, ← hkey,
      lastRow_of_distinct hperm hkeys hfile]
    rfl

/-- The plan of unaliased inputs. -/
theorem partition_of_unaliased (hids : (rows.map (·.id)).Nodup) (hperm : values.Perm rows)
    (h : Unaliased view root rows currentFiles outcome) :
    RefreshPartition view root rows currentFiles outcome
      (buildRefreshOutcomeFromInventory view root values currentFiles outcome) := by
  obtain ⟨hkeys, hindex⟩ := h
  have hremoved := fun hcomplete : outcome = .complete =>
    @mem_filesToRemove_of_distinct _ _ _ _ currentFiles _ hperm (hkeys hcomplete) hcomplete
  have hexisting := fun (hcomplete : outcome = .complete) file (hfile : file ∈ rows) =>
    @exists_existingId_of_distinct _ _ _ _ currentFiles outcome hids hperm (hkeys hcomplete) file
      hfile
  refine ⟨?_, ?_, ?_, hremoved, ?_⟩
  · intro hpartial
    apply List.eq_nil_iff_forall_not_mem.mpr
    intro id hid
    exact hpartial (mem_filesToRemove.mp hid).1
  · intro hcomplete file hfile
    rw [hexisting hcomplete file hfile]
    by_cases hnamed : ∃ path ∈ currentFiles, Names view root file path
    · exact .inr hnamed
    · left
      rw [hremoved hcomplete]
      exact ⟨file, hfile, rfl, fun path hpath hnames => hnamed ⟨path, hpath, hnames⟩⟩
  · rintro hcomplete file hfile ⟨hid, hnamed⟩
    rw [hexisting hcomplete file hfile] at hnamed
    obtain ⟨other, hother, hsame, hfree⟩ := (hremoved hcomplete file.id).mp hid
    obtain rfl := List.inj_on_of_nodup_map hids hother hfile hsame
    obtain ⟨path, hpath, hnames⟩ := hnamed
    exact hfree path hpath hnames
  · intro path hpath hneeds
    obtain ⟨honce, hcalls⟩ := hindex path hpath hneeds
    rw [count_filesToIndex (pushed_of_calls hperm hcalls), honce]

/-- An order in which a stored file is the last of its key. -/
theorem exists_order {file : StoredFileState} (hfile : file ∈ rows) :
    ∃ values, values.Perm rows ∧
      KeyedTable.lastRow (storedKey view root) values (storedKey view root file) = some file := by
  obtain ⟨before, after, rfl⟩ := List.append_of_mem hfile
  refine ⟨before ++ after ++ [file], ?_, ?_⟩
  · rw [List.append_assoc]
    exact List.Perm.append_left _ (List.perm_append_singleton file after)
  · rw [KeyedTable.lastRow_append]
    simp [KeyedTable.lastRow]

/-- What the plans of every order say of the inputs. -/
theorem unaliased_of_partition (hids : (rows.map (·.id)).Nodup)
    (h : ∀ values, values.Perm rows → RefreshPartition view root rows currentFiles outcome
      (buildRefreshOutcomeFromInventory view root values currentFiles outcome)) :
    Unaliased view root rows currentFiles outcome := by
  refine ⟨?_, ?_⟩
  · rintro rfl
    exact nodup_of_partition hids (List.Perm.refl rows) (h rows (List.Perm.refl rows))
  · intro path hpath hneeds
    have hpushed : ∀ values, values.Perm rows →
        pushed (normalizedStoredMap view root values) path = true := by
      intro values hperm
      by_contra hskipped
      have hcount := (h values hperm).indexed path hpath hneeds
      have hmem : path.components ∈ (buildRefreshOutcomeFromInventory view root values
          currentFiles outcome).filesToIndex.map components := by
        apply List.count_pos_iff.mp
        omega
      rw [filesToIndex_eq] at hmem
      obtain ⟨other, hother, hsame⟩ := List.mem_map.mp hmem
      apply hskipped
      rw [← pushed_congr hsame]
      exact (List.mem_filter.mp hother).2
    constructor
    · rw [← count_filesToIndex (hpushed rows (List.Perm.refl rows))]
      exact (h rows (List.Perm.refl rows)).indexed path hpath hneeds
    · intro file hfile hnames
      obtain ⟨values, hperm, hlast⟩ := @exists_order view root rows file hfile
      have hcalled := hpushed values hperm
      have hkey : storedKey view root file = normalizedCompareKey view root path := hnames
      unfold pushed at hcalled
      rw [lookup_normalizedStoredMap, ← hkey, hlast] at hcalled
      exact (storedFileNeedsIndex_iff path file).mp hcalled

end Exact

section Inputs

/-- The map of stored files with distinct paths holds all of them. -/
theorem inventoryMap_rows {inputs : RefreshInputs}
    (h : (inputs.stored.map StoredFileState.pathKey).Nodup) :
    inputs.inventoryMap.rows.Perm inputs.stored := by
  unfold RefreshInputs.inventoryMap RefreshInputs.stored at *
  by_cases hstored : inputs.storedFiles ≠ []
  · rw [if_pos hstored] at h ⊢
    rw [if_pos hstored]
    exact KeyedTable.rows_upsertAll_empty h
  · rw [if_neg hstored, if_neg hstored]

/-- In whatever order the map yields the stored files, the plan partitions them and indexes what
it has to exactly when the inputs are unaliased. -/
theorem refreshPartition_iff (view : FileView) (root : UnixPath) (inputs : RefreshInputs)
    (currentFiles : List UnixPath) (outcome : WorkspaceInventoryOutcome)
    (hids : (inputs.stored.map (·.id)).Nodup)
    (hpaths : (inputs.stored.map StoredFileState.pathKey).Nodup) :
    (∀ values, values.Perm inputs.inventoryMap.rows →
      RefreshPartition view root inputs.stored currentFiles outcome
        (buildRefreshOutcomeFromInventory view root values currentFiles outcome)) ↔
      Unaliased view root inputs.stored currentFiles outcome := by
  have hrows := inventoryMap_rows hpaths
  constructor
  · intro h
    apply unaliased_of_partition hids
    intro values hperm
    exact h values (hperm.trans hrows.symm)
  · intro h values hperm
    exact partition_of_unaliased hids (hperm.trans hrows) h

/-- A path beneath `/ws`. -/
def inWorkspace (n : FileName) : UnixPath := ⟨true, [.name ⟨"ws", by decide⟩, .name n]⟩

def realFile : UnixPath := inWorkspace ⟨"real.rs", by decide⟩

def linkFile : UnixPath := inWorkspace ⟨"link.rs", by decide⟩

/-- An indexed file that is gone, and one that was never indexed. -/
def unindexedInputs : RefreshInputs where
  storedFiles :=
    [⟨1, linkFile, 5, none, true, true, false⟩, ⟨2, realFile, 5, none, false, false, false⟩]
  inventory := KeyedTable.empty

def plainView : FileView := ⟨fun _ => none, fun _ => some 5, fun _ => none⟩

theorem unindexed_file_planned :
    RefreshPartition plainView ⟨true, [.name ⟨"ws", by decide⟩]⟩ unindexedInputs.stored [realFile]
      .complete (buildRefreshOutcomeFromInventory plainView ⟨true, [.name ⟨"ws", by decide⟩]⟩
        unindexedInputs.inventoryMap.rows [realFile] .complete) := by
  refine (refreshPartition_iff plainView _ unindexedInputs [realFile] .complete (by decide)
    (by decide)).mpr ⟨fun _ => by decide, ?_⟩ _ (List.Perm.refl _)
  intro path hpath _
  obtain rfl := List.mem_singleton.mp hpath
  refine ⟨by decide, fun file hfile hnames => ?_⟩
  rcases List.mem_pair.mp hfile with rfl | rfl
  · unfold Names at hnames
    exact absurd hnames (by decide)
  · exact .inl rfl

/-- Two indexed files, of which the first has become a link to the second. -/
def linkedInputs : RefreshInputs where
  storedFiles := [⟨1, linkFile, 5, none, true, true, false⟩,
    ⟨2, realFile, 5, none, true, true, false⟩]
  inventory := KeyedTable.empty

def linkedView : FileView where
  canonicalize path := if path = linkFile.components then some realFile else none
  modificationTimeMillis _ := some 5
  currentContentHash _ := none

/-- The stored file that became a link is neither removed nor recorded. -/
theorem linked_file_lost :
    (linkedInputs.stored.map (·.id)).Nodup ∧
      (linkedInputs.stored.map StoredFileState.pathKey).Nodup ∧
      ¬ RefreshPartition linkedView ⟨true, [.name ⟨"ws", by decide⟩]⟩ linkedInputs.stored
        [realFile] .complete (buildRefreshOutcomeFromInventory linkedView
          ⟨true, [.name ⟨"ws", by decide⟩]⟩ linkedInputs.inventoryMap.rows [realFile]
          .complete) := by
  have hpaths : (linkedInputs.stored.map StoredFileState.pathKey).Nodup := by decide
  refine ⟨by decide, hpaths, fun h => ?_⟩
  have hkeys := nodup_of_partition (by decide) (inventoryMap_rows hpaths) h
  revert hkeys
  decide

end Inputs

end CodeStory.Workspace
