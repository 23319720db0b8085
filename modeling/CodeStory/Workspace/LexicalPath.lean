import CodeStory.Lib.UnixPath

/-!
# Paths of a workspace

`normalize_lexical_path`, `workspace_relative_path` and `resolve_project_relative_path` on Unix,
over file systems without symbolic links. What the file system knows of a place is a function of
the place; between two places of one device and inode only files are allowed, as hard links.
-/

set_option autoImplicit false

namespace CodeStory.Workspace

open UnixPath

/-! ## Lexical normalisation -/

def normalizeStep (normalized : UnixPath) (component : Component) : UnixPath :=
  match component with
  | .curDir => normalized
  -- `pop`, which also takes back a `..` that was pushed before.
  | .parentDir => (normalized.parent).getD (normalized.push component)
  | .rootDir => normalized.push component
  | .normal _ => normalized.push component

def normalizeLexicalPath (path : UnixPath) : UnixPath :=
  path.components.foldl normalizeStep UnixPath.empty

def normalizeMissingStep (normalized : UnixPath) (component : Component) : UnixPath :=
  match component with
  | .curDir => normalized
  | .parentDir =>
    match normalized.components.getLast? with
    | some (.normal _) => (normalized.parent).getD normalized
    | _ => if normalized.absolute then normalized else normalized.push component
  | .rootDir => normalized.push component
  | .normal _ => normalized.push component

/-- What `workspace_path_identity` compares of a path that is not there. -/
def normalizeMissingUnixPath (path : UnixPath) : UnixPath :=
  path.components.foldl normalizeMissingStep UnixPath.empty

theorem reduced_snoc (absolute : Bool) (levels : Nat) (names : List FileName) (n : FileName) :
    reduced absolute levels (names ++ [n]) =
      ⟨absolute, (reduced absolute levels names).segments ++ [.name n]⟩ := by
  unfold reduced
  rw [List.map_append, ← List.append_assoc]
  rfl

theorem parent_reduced_snoc (absolute : Bool) (levels : Nat) (names : List FileName)
    (n : FileName) :
    (reduced absolute levels (names ++ [n])).parent = some (reduced absolute levels names) := by
  have hplain := plain_reduced absolute levels (names ++ [n])
  rw [reduced_snoc] at hplain ⊢
  exact parent_snoc hplain

/-- A `..` that finds no name before it is added or, where one was added before, taken back. -/
theorem normalizeStep_up (absolute : Bool) (climbed : Nat) (names : List FileName) :
    normalizeStep (reduced absolute (climbed % 2) names) .parentDir =
      reduced absolute ((reduceStep (climbed, names) .up).1 % 2)
        (reduceStep (climbed, names) .up).2 := by
  rcases List.eq_nil_or_concat names with rfl | ⟨front, n, rfl⟩
  · have hreduce : reduceStep (climbed, []) .up = (climbed + 1, []) := rfl
    rw [hreduce]
    rcases Nat.mod_two_eq_zero_or_one climbed with heven | hodd
    · have hnext : (climbed + 1) % 2 = 1 := by omega
      rw [hnext, heven]
      unfold normalizeStep
      have hnone : (reduced absolute 0 []).parent = none := parent_nil absolute
      rw [hnone]
      rfl
    · have hnext : (climbed + 1) % 2 = 0 := by omega
      rw [hnext, hodd]
      unfold normalizeStep
      have hparent : (reduced absolute 1 []).parent = some (reduced absolute 0 []) :=
        @parent_snoc absolute [] .up (plain_reduced absolute 1 [])
      rw [hparent]
      rfl
  · rw [List.concat_eq_append]
    have hreduce : reduceStep (climbed, front ++ [n]) .up = (climbed, front) := by
      unfold reduceStep
      rw [if_neg (by simp), List.dropLast_concat]
    rw [hreduce]
    unfold normalizeStep
    rw [parent_reduced_snoc]
    rfl

theorem foldl_normalizeStep (absolute : Bool) (segments : List Segment)
    (state : Nat × List FileName) :
    segments.foldl (fun normalized segment =>
        (segment.component).elim normalized (normalizeStep normalized))
        (reduced absolute (state.1 % 2) state.2) =
      reduced absolute ((segments.foldl reduceStep state).1 % 2)
        (segments.foldl reduceStep state).2 := by
  induction segments generalizing state with
  | nil => rfl
  | cons segment rest ih =>
    rw [List.foldl_cons, List.foldl_cons]
    have hstep : (segment.component).elim (reduced absolute (state.1 % 2) state.2)
        (normalizeStep (reduced absolute (state.1 % 2) state.2)) =
        reduced absolute ((reduceStep state segment).1 % 2) (reduceStep state segment).2 := by
      cases segment with
      | cur => rfl
      | up => exact normalizeStep_up absolute state.1 state.2
      | name n => exact (reduced_snoc absolute (state.1 % 2) state.2 n).symm
    rw [hstep]
    exact ih (reduceStep state segment)

/-- The names come out right; of the levels climbed only the parity is kept. -/
theorem normalizeLexicalPath_eq (path : UnixPath) :
    normalizeLexicalPath path = reduced path.absolute (path.climb % 2) path.names := by
  have hstart : (if path.absolute then normalizeStep UnixPath.empty .rootDir else UnixPath.empty) =
      reduced path.absolute 0 [] := by
    cases path.absolute with
    | true => rfl
    | false => rfl
  unfold normalizeLexicalPath
  rw [foldl_components (fun _ => rfl), hstart]
  exact foldl_normalizeStep path.absolute path.segments (0, [])

theorem normalizeLexicalPath_idem (path : UnixPath) :
    normalizeLexicalPath (normalizeLexicalPath path) = normalizeLexicalPath path := by
  rw [normalizeLexicalPath_eq, normalizeLexicalPath_eq path, climb_reduced, names_reduced,
    Nat.mod_mod]
  rfl

theorem absolute_normalizeLexicalPath (path : UnixPath) :
    (normalizeLexicalPath path).absolute = path.absolute := by
  rw [normalizeLexicalPath_eq]
  rfl

theorem plain_normalizeLexicalPath (path : UnixPath) : (normalizeLexicalPath path).Plain := by
  rw [normalizeLexicalPath_eq]
  exact plain_reduced _ _ _

theorem locate_reduced (cwd : List FileName) (absolute : Bool) (levels : Nat)
    (names : List FileName) :
    (reduced absolute levels names).locate cwd =
      (start cwd absolute).take ((start cwd absolute).length - levels) ++ names := by
  rw [locate_eq, climb_reduced, names_reduced]
  rfl

theorem locate_normalizeLexicalPath (cwd : List FileName) (path : UnixPath) :
    (normalizeLexicalPath path).locate cwd =
      (start cwd path.absolute).take ((start cwd path.absolute).length - path.climb % 2) ++
        path.names := by
  rw [normalizeLexicalPath_eq, locate_reduced]

theorem locate_normalize_of_absolute {path : UnixPath} (h : path.absolute = true)
    (cwd : List FileName) : (normalizeLexicalPath path).locate cwd = path.locate cwd := by
  rw [locate_normalizeLexicalPath, locate_eq, h]
  simp [start]

/-- The number of `..` in a path; a working directory of that depth is deep enough for it. -/
def parents (path : UnixPath) : Nat := path.segments.count .up

/-- Normalisation leaves the place alone, from every working directory that is deep enough. -/
def PreservesPlace (path : UnixPath) : Prop :=
  ∀ cwd : List FileName, parents path ≤ cwd.length →
    (normalizeLexicalPath path).locate cwd = path.locate cwd

theorem foldl_reduceStep_climb_le (segments : List Segment) (state : Nat × List FileName) :
    (segments.foldl reduceStep state).1 ≤ state.1 + segments.count .up := by
  induction segments generalizing state with
  | nil => simp
  | cons segment rest ih =>
    rw [List.foldl_cons]
    have hrest := ih (reduceStep state segment)
    cases segment with
    | cur =>
      rw [List.count_cons_of_ne (by decide)]
      exact hrest
    | name n =>
      rw [List.count_cons_of_ne (by simp)]
      exact hrest
    | up =>
      rw [List.count_cons_self]
      have hstep : (reduceStep state .up).1 ≤ state.1 + 1 := by
        unfold reduceStep
        dsimp only
        split
        · exact Nat.le_refl _
        · exact Nat.le_succ _
      omega

theorem climb_le_parents (path : UnixPath) : path.climb ≤ parents path := by
  have h := foldl_reduceStep_climb_le path.segments (0, [])
  rw [Nat.zero_add] at h
  exact h

theorem preservesPlace_iff (path : UnixPath) :
    PreservesPlace path ↔ path.absolute = true ∨ path.climb ≤ 1 := by
  constructor
  · intro h
    by_cases habs : path.absolute = true
    · exact Or.inl habs
    · right
      have hrelative : path.absolute = false := by simpa using habs
      have hdeep := h (List.replicate (parents path) ⟨"d", by decide⟩) (by simp)
      have hlength := congrArg List.length hdeep
      have hclimb := climb_le_parents path
      rw [locate_normalizeLexicalPath, locate_eq, hrelative] at hlength
      simp only [start, Bool.false_eq_true, if_false, List.length_append, List.length_take,
        List.length_replicate] at hlength
      omega
  · rintro (habs | hclimb) cwd _
    · exact locate_normalize_of_absolute habs cwd
    · have hparity : path.climb % 2 = path.climb := Nat.mod_eq_of_lt (by omega)
      rw [locate_normalizeLexicalPath, locate_eq, hparity]

/-! ## Containment -/

inductive IoErrorKind where
  | notFound
  | notADirectory
  | permissionDenied
  | other
  deriving DecidableEq, Repr

inductive FileKind where
  | file
  | directory
  | other
  deriving DecidableEq, Repr

/-- A file system without symbolic links and the working directory of the process. -/
structure FileSystem where
  cwd : List FileName
  entry : List FileName → Except IoErrorKind FileKind
  /-- Device and inode. -/
  inode : List FileName → Nat × Nat
  root : entry [] = .ok .directory
  beneath : ∀ {place n kind}, entry (place ++ [n]) = .ok kind → entry place = .ok .directory
  /-- A missing entry is looked for in a directory, or under a missing one. -/
  notFound_beneath : ∀ {place n}, entry (place ++ [n]) = .error .notFound →
    entry place = .ok .directory ∨ entry place = .error .notFound
  /-- Directories have no hard links. -/
  inode_directory : ∀ {place place' kind}, entry place = .ok .directory →
    entry place' = .ok kind → inode place = inode place' → place = place'

namespace FileSystem
variable (fs : FileSystem)

/-- The empty path names nothing, not even the working directory. -/
def metadata (path : UnixPath) : Except IoErrorKind FileKind :=
  if path = UnixPath.empty then .error .notFound else fs.entry (path.locate fs.cwd)

def canonicalize (path : UnixPath) : Except IoErrorKind UnixPath :=
  match fs.metadata path with
  | .ok _ => .ok (reduced true 0 (path.locate fs.cwd))
  | .error error => .error error

end FileSystem

inductive WorkspacePathIdentity where
  | existingUnix (device inode : Nat)
  | missingUnix (path : UnixPath)
  deriving DecidableEq

section Resolution
variable (fs : FileSystem)

def workspacePathIdentity (path : UnixPath) : Except IoErrorKind WorkspacePathIdentity :=
  match fs.metadata path with
  | .ok _ =>
    let (device, inode) := fs.inode (path.locate fs.cwd)
    .ok (.existingUnix device inode)
  | .error .notFound => .ok (.missingUnix (normalizeMissingUnixPath path))
  | .error error => .error error

def sameWorkspacePath (left right : UnixPath) : Bool :=
  match workspacePathIdentity fs left, workspacePathIdentity fs right with
  | .ok left, .ok right => left = right
  | _, _ => false

def workspaceRelativePath (workspaceRoot path : UnixPath) : Option UnixPath :=
  let root := normalizeLexicalPath workspaceRoot
  let candidate := normalizeLexicalPath path
  match candidate.stripPrefix root with
  | some relative => some relative
  | none =>
    if candidate.absolute = false then some candidate
    else match candidate.ancestors.find? (sameWorkspacePath fs root) with
      | none => none
      | some matchingRoot => candidate.stripPrefix matchingRoot

inductive ProjectRelativePathResolution where
  | existing (absolute relative : UnixPath)
  | missing (absolute relative : UnixPath)
  | notFile (absolute relative : UnixPath)
  | outOfProject
  deriving DecidableEq

/-- The loop up the ancestors of a missing path: whether the first that is there lies in the
workspace. -/
def ancestorsContained (resolvedRoot : UnixPath) : List UnixPath → Except IoErrorKind Bool
  | [] => .ok true
  | path :: rest =>
    match fs.canonicalize path with
    | .ok resolved => .ok (workspaceRelativePath fs resolvedRoot resolved).isSome
    | .error .notFound => ancestorsContained resolvedRoot rest
    | .error error => .error error

def resolveProjectRelativePath (workspaceRoot requested : UnixPath) :
    Except IoErrorKind ProjectRelativePathResolution :=
  if requested = UnixPath.empty then .ok .outOfProject
  else
    let root := normalizeLexicalPath workspaceRoot
    let candidate := normalizeLexicalPath
      (if requested.absolute then requested else root.join requested)
    match workspaceRelativePath fs root candidate with
    | none => .ok .outOfProject
    | some relative =>
      if relative = UnixPath.empty then .ok (.notFile candidate relative)
      else
        let resolvedRoot := match fs.canonicalize root with
          | .ok resolved => resolved
          | .error _ => root
        match fs.metadata candidate with
        | .ok kind =>
          match fs.canonicalize candidate with
          | .error error => .error error
          | .ok resolved =>
            if (workspaceRelativePath fs resolvedRoot resolved).isNone then .ok .outOfProject
            else if kind = .file then .ok (.existing candidate relative)
            else .ok (.notFile candidate relative)
        | .error .notFound =>
          match ancestorsContained fs resolvedRoot
              ((candidate.parent).elim [] UnixPath.ancestors) with
          | .error error => .error error
          | .ok false => .ok .outOfProject
          | .ok true => .ok (.missing candidate relative)
        | .error error => .error error

/-- The request leads to a place outside the workspace. -/
def LeavesWorkspace (workspaceRoot requested : UnixPath) : Prop :=
  ¬ workspaceRoot.locate fs.cwd <+: (workspaceRoot.join requested).locate fs.cwd

instance (workspaceRoot requested : UnixPath) :
    Decidable (LeavesWorkspace fs workspaceRoot requested) :=
  inferInstanceAs (Decidable (¬ _))

/-- The request is answered as one for a file of the workspace. -/
def Accepted (resolution : Except IoErrorKind ProjectRelativePathResolution) : Prop :=
  ∃ absolute relative, resolution = .ok (.existing absolute relative) ∨
    resolution = .ok (.missing absolute relative)

end Resolution

/-! ### The spelling of missing paths -/

/-- The levels that `normalize_missing_unix_path` keeps: above the root there are none. -/
def keptLevels (absolute : Bool) (climbed : Nat) : Nat := if absolute then 0 else climbed

theorem normalizeMissingStep_up (absolute : Bool) (climbed : Nat) (names : List FileName) :
    normalizeMissingStep (reduced absolute (keptLevels absolute climbed) names) .parentDir =
      reduced absolute (keptLevels absolute (reduceStep (climbed, names) .up).1)
        (reduceStep (climbed, names) .up).2 := by
  rcases List.eq_nil_or_concat names with rfl | ⟨front, n, rfl⟩
  · have hreduce : reduceStep (climbed, []) .up = (climbed + 1, []) := rfl
    rw [hreduce]
    cases absolute with
    | true => rfl
    | false =>
      have hsegments : reduced false (climbed + 1) [] =
          ⟨false, (reduced false climbed []).segments ++ [.up]⟩ := by
        simp [reduced, List.replicate_succ']
      change normalizeMissingStep (reduced false climbed []) .parentDir =
        reduced false (climbed + 1) []
      have hlast : ∀ n, (reduced false climbed []).components.getLast? ≠ some (.normal n) := by
        intro n hn
        rw [components_plain (plain_reduced false climbed [])] at hn
        have hmem := List.mem_of_getLast? hn
        simp [reduced, Segment.component] at hmem
      unfold normalizeMissingStep
      dsimp only
      split
      · rename_i m hm
        exact absurd hm (hlast m)
      · rw [hsegments]
        rfl
  · rw [List.concat_eq_append]
    have hreduce : reduceStep (climbed, front ++ [n]) .up = (climbed, front) := by
      unfold reduceStep
      rw [if_neg (by simp), List.dropLast_concat]
    have hlast : (reduced absolute (keptLevels absolute climbed)
      (front ++ [n])).components.getLast? =
        some (.normal n) := by
      rw [components_plain (plain_reduced _ _ _), reduced_snoc, List.filterMap_append,
        ← List.append_assoc]
      exact List.getLast?_concat
    rw [hreduce]
    unfold normalizeMissingStep
    dsimp only
    rw [hlast, parent_reduced_snoc]
    rfl

theorem foldl_normalizeMissingStep (absolute : Bool) (segments : List Segment)
    (state : Nat × List FileName) :
    segments.foldl (fun normalized segment =>
        (segment.component).elim normalized (normalizeMissingStep normalized))
        (reduced absolute (keptLevels absolute state.1) state.2) =
      reduced absolute (keptLevels absolute (segments.foldl reduceStep state).1)
        (segments.foldl reduceStep state).2 := by
  induction segments generalizing state with
  | nil => rfl
  | cons segment rest ih =>
    rw [List.foldl_cons, List.foldl_cons]
    have hstep : (segment.component).elim (reduced absolute (keptLevels absolute state.1) state.2)
        (normalizeMissingStep (reduced absolute (keptLevels absolute state.1) state.2)) =
        reduced absolute (keptLevels absolute (reduceStep state segment).1)
          (reduceStep state segment).2 := by
      cases segment with
      | cur => rfl
      | up => exact normalizeMissingStep_up absolute state.1 state.2
      | name n => exact (reduced_snoc absolute (keptLevels absolute state.1) state.2 n).symm
    rw [hstep]
    exact ih (reduceStep state segment)

theorem normalizeMissingUnixPath_eq (path : UnixPath) :
    normalizeMissingUnixPath path =
      reduced path.absolute (keptLevels path.absolute path.climb) path.names := by
  have hstart : (if path.absolute then normalizeMissingStep UnixPath.empty .rootDir
      else UnixPath.empty) = reduced path.absolute (keptLevels path.absolute 0) [] := by
    cases path.absolute with
    | true => rfl
    | false => rfl
  unfold normalizeMissingUnixPath
  rw [foldl_components (fun _ => rfl), hstart]
  exact foldl_normalizeMissingStep path.absolute path.segments (0, [])

/-- Unlike `normalizeLexicalPath`, the spelling of a missing path always keeps its place. -/
theorem locate_normalizeMissingUnixPath (cwd : List FileName) (path : UnixPath) :
    (normalizeMissingUnixPath path).locate cwd = path.locate cwd := by
  rw [normalizeMissingUnixPath_eq, locate_reduced, locate_eq]
  cases path.absolute with
  | true => simp [start, keptLevels]
  | false => rfl

/-! ### Absolute workspace roots -/

section AbsoluteRoot
variable {fs : FileSystem}

theorem metadata_of_absolute {path : UnixPath} (h : path.absolute = true) :
    fs.metadata path = fs.entry (path.locate fs.cwd) := by
  unfold FileSystem.metadata
  rw [if_neg]
  rintro rfl
  exact absurd h (by decide)

/-- Paths of one identity denote one place, or a file and a hard link to it. -/
theorem sameWorkspacePath_spec {left right : UnixPath} (hleft : left.absolute = true)
    (hright : right.absolute = true) (h : sameWorkspacePath fs left right = true) :
    left.locate fs.cwd = right.locate fs.cwd ∨
      ∃ kind, fs.entry (right.locate fs.cwd) = .ok kind ∧ kind ≠ .directory := by
  unfold sameWorkspacePath workspacePathIdentity at h
  rw [metadata_of_absolute hleft, metadata_of_absolute hright] at h
  cases hl : fs.entry (left.locate fs.cwd) with
  | ok kind =>
    cases hr : fs.entry (right.locate fs.cwd) with
    | ok kind' =>
      rw [hl, hr] at h
      have hinode : fs.inode (left.locate fs.cwd) = fs.inode (right.locate fs.cwd) := by
        have hsame := of_decide_eq_true h
        injection hsame with hdevice hnumber
        exact Prod.ext hdevice hnumber
      by_cases hdir : kind' = .directory
      · subst hdir
        exact Or.inl (fs.inode_directory hr hl hinode.symm).symm
      · exact Or.inr ⟨kind', rfl, hdir⟩
    | error e' =>
      rw [hl, hr] at h
      cases e' <;> simp at h
  | error e =>
    cases hr : fs.entry (right.locate fs.cwd) with
    | ok kind' =>
      rw [hl, hr] at h
      cases e <;> simp at h
    | error e' =>
      rw [hl, hr] at h
      cases e <;> cases e' <;> simp at h
      -- Both are missing and spelled alike.
      left
      rw [← locate_normalizeMissingUnixPath fs.cwd left, h, locate_normalizeMissingUnixPath]

/-- Under a file there is nothing, and the failure says so. -/
theorem entry_beneath_file {place : List FileName} {kind : FileKind}
    (hplace : fs.entry place = .ok kind) (hkind : kind ≠ .directory) {rest : List FileName}
    (hrest : rest ≠ []) :
    ∃ error, fs.entry (place ++ rest) = .error error ∧ error ≠ .notFound := by
  induction rest using List.reverseRecOn with
  | nil => exact absurd rfl hrest
  | append_singleton rest n ih =>
    rw [← List.append_assoc]
    have hparent : fs.entry (place ++ rest) ≠ .ok .directory ∧
        fs.entry (place ++ rest) ≠ .error .notFound := by
      by_cases hnil : rest = []
      · subst hnil
        rw [List.append_nil, hplace]
        refine ⟨?_, by simp⟩
        intro h
        exact hkind (Except.ok.inj h)
      · obtain ⟨error, herror, hne⟩ := ih hnil
        rw [herror]
        refine ⟨by simp, ?_⟩
        intro h
        exact hne (Except.error.inj h)
    cases hentry : fs.entry (place ++ rest ++ [n]) with
    | ok kind' => exact absurd (fs.beneath hentry) hparent.1
    | error error =>
      refine ⟨error, rfl, ?_⟩
      rintro rfl
      rcases fs.notFound_beneath hentry with h | h
      · exact hparent.1 h
      · exact hparent.2 h

/-- A path below an absolute root lies in the workspace, or beneath a hard link to a root that
is a file. -/
theorem workspaceRelativePath_spec {root candidate relative : UnixPath}
    (hroot : root.absolute = true) (hcandidate : candidate.absolute = true)
    (h : workspaceRelativePath fs root (normalizeLexicalPath candidate) = some relative) :
    root.locate fs.cwd <+: candidate.locate fs.cwd ∨
      ∃ link kind, link.absolute = true ∧
        link.segments <+: (normalizeLexicalPath candidate).segments ∧
        fs.entry (link.locate fs.cwd) = .ok kind ∧ kind ≠ .directory ∧
        (normalizeLexicalPath candidate).stripPrefix link = some relative := by
  have hrootAbs : (normalizeLexicalPath root).absolute = true :=
    (absolute_normalizeLexicalPath root).trans hroot
  have hcandAbs : (normalizeLexicalPath candidate).absolute = true :=
    (absolute_normalizeLexicalPath candidate).trans hcandidate
  have hplace : ∀ q : UnixPath, q.absolute = true →
      q.segments <+: (normalizeLexicalPath candidate).segments →
      q.locate fs.cwd <+: candidate.locate fs.cwd := by
    intro q hq hbegins
    rw [normalizeLexicalPath_eq] at hbegins
    rw [locate_of_absolute hq, locate_of_absolute hcandidate]
    exact (names_of_prefix_reduced hbegins).1
  unfold workspaceRelativePath at h
  rw [normalizeLexicalPath_idem] at h
  dsimp only at h
  split at h
  · rename_i relative' hstrip
    left
    rw [← locate_normalize_of_absolute hroot]
    apply hplace _ hrootAbs
    unfold UnixPath.stripPrefix at hstrip
    split at hstrip
    · rename_i hcomponents
      exact segments_prefix_of_components (plain_normalizeLexicalPath candidate)
        (plain_normalizeLexicalPath root) (hcandAbs.trans hrootAbs.symm) hcomponents
    · exact absurd hstrip (by simp)
  · rw [if_neg (by simp [hcandAbs])] at h
    split at h
    · exact absurd h (by simp)
    · rename_i link hfind
      obtain ⟨hlinkAbs, hlinkPrefix⟩ := mem_ancestorsFrom (plain_normalizeLexicalPath candidate)
        (List.mem_of_find?_eq_some hfind)
      have hlink : link.absolute = true := hlinkAbs.trans hcandAbs
      rcases sameWorkspacePath_spec hrootAbs hlink (List.find?_some hfind) with hsame | hfile
      · left
        rw [← locate_normalize_of_absolute hroot, hsame]
        exact hplace link hlink hlinkPrefix
      · obtain ⟨kind, hkind, hne⟩ := hfile
        exact Or.inr ⟨link, kind, hlink, hlinkPrefix, hkind, hne, h⟩

/-- What lies beneath a hard link to a file is not there, and not merely missing. -/
theorem metadata_beneath_link {candidate link relative : UnixPath} {kind : FileKind}
    (hcandidate : candidate.absolute = true) (hlink : link.absolute = true)
    (hbegins : link.segments <+: (normalizeLexicalPath candidate).segments)
    (hkind : fs.entry (link.locate fs.cwd) = .ok kind) (hne : kind ≠ .directory)
    (hstrip : (normalizeLexicalPath candidate).stripPrefix link = some relative)
    (hrelative : relative ≠ UnixPath.empty) :
    ∃ error, fs.metadata (normalizeLexicalPath candidate) = .error error ∧ error ≠ .notFound := by
  have habs : (normalizeLexicalPath candidate).absolute = true :=
    (absolute_normalizeLexicalPath candidate).trans hcandidate
  rw [metadata_of_absolute habs, locate_normalize_of_absolute hcandidate,
    locate_of_absolute hcandidate]
  rw [locate_of_absolute hlink] at hkind
  rw [normalizeLexicalPath_eq] at hbegins hstrip
  obtain ⟨⟨rest, hrest⟩, hwhole⟩ := names_of_prefix_reduced hbegins
  rw [← hrest]
  apply entry_beneath_file hkind hne
  rintro rfl
  rw [List.append_nil] at hrest
  have hnames : candidate.names ≠ [] := by
    intro hnil
    rw [hrest, hnil, fs.root] at hkind
    exact hne (Except.ok.inj hkind).symm
  have hsegments := hwhole hrest hnames
  have hlinkEq : link = reduced candidate.absolute (candidate.climb % 2) candidate.names :=
    congrArg₂ UnixPath.mk (hlink.trans hcandidate.symm) hsegments
  rw [hlinkEq] at hstrip
  unfold UnixPath.stripPrefix at hstrip
  rw [if_pos List.prefix_rfl, List.drop_length] at hstrip
  exact hrelative (Option.some.inj hstrip).symm

theorem locate_join_normalize {workspaceRoot requested : UnixPath}
    (hroot : workspaceRoot.absolute = true) (cwd : List FileName) :
    (if requested.absolute then requested
      else (normalizeLexicalPath workspaceRoot).join requested).locate cwd =
      (workspaceRoot.join requested).locate cwd := by
  cases hrequested : requested.absolute with
  | true => simp [join, hrequested]
  | false =>
    rw [if_neg (by simp), locate_join _ _ _ hrequested, locate_join _ _ _ hrequested,
      locate_normalize_of_absolute hroot]

/-- Under an absolute root a request that leaves the workspace is refused. -/
theorem not_accepted_of_leaves {workspaceRoot requested : UnixPath}
    (hroot : workspaceRoot.absolute = true) (hleaves : LeavesWorkspace fs workspaceRoot requested) :
    ¬ Accepted (resolveProjectRelativePath fs workspaceRoot requested) := by
  rintro ⟨absolute, relative, haccepted⟩
  unfold resolveProjectRelativePath at haccepted
  split at haccepted
  · simp at haccepted
  · dsimp only at haccepted
    generalize hpath : (if requested.absolute = true then requested
      else (normalizeLexicalPath workspaceRoot).join requested) = path at haccepted
    have hplace : path.locate fs.cwd = (workspaceRoot.join requested).locate fs.cwd := by
      rw [← hpath]
      exact locate_join_normalize hroot fs.cwd
    have habs : path.absolute = true := by
      rw [← hpath]
      split
      · assumption
      · rename_i hrel
        rw [join, if_neg hrel]
        exact (absolute_normalizeLexicalPath workspaceRoot).trans hroot
    split at haccepted
    · simp at haccepted
    · rename_i relative' hrelative
      split at haccepted
      · simp at haccepted
      · rename_i hne
        rcases workspaceRelativePath_spec
          ((absolute_normalizeLexicalPath workspaceRoot).trans hroot) habs hrelative with
          hinside | ⟨link, kind, hlink, hlinkPrefix, hkind, hdir, hstrip⟩
        · apply hleaves
          rw [← locate_normalize_of_absolute hroot, ← hplace]
          exact hinside
        · obtain ⟨error, herror, hfound⟩ :=
            metadata_beneath_link habs hlink hlinkPrefix hkind hdir hstrip hne
          rw [herror] at haccepted
          cases error with
          | notFound => exact hfound rfl
          | notADirectory => simp at haccepted
          | permissionDenied => simp at haccepted
          | other => simp at haccepted

end AbsoluteRoot

/-! ### Relative workspace roots -/

theorem ancestorsContained_eq_false {fs : FileSystem} {resolvedRoot : UnixPath}
    {paths : List UnixPath} (h : ancestorsContained fs resolvedRoot paths = .ok false) :
    ∃ path ∈ paths, ∃ resolved, fs.canonicalize path = .ok resolved ∧
      workspaceRelativePath fs resolvedRoot resolved = none := by
  induction paths with
  | nil => cases h
  | cons path rest ih =>
    unfold ancestorsContained at h
    split at h
    · rename_i resolved hresolved
      exact ⟨path, List.mem_cons_self, resolved, hresolved,
        Option.not_isSome_iff_eq_none.mp fun hsome => by simp [hsome] at h⟩
    · obtain ⟨found, hmem, hfound⟩ := ih h
      exact ⟨found, List.mem_cons_of_mem _ hmem, hfound⟩
    · cases h

/-- Under a relative root a relative request is refused only where it, or a directory above it, is
there and resolves outside: where it leads by its names is not looked at. -/
theorem relative_request_refused {fs : FileSystem} {workspaceRoot requested : UnixPath}
    (hroot : workspaceRoot.absolute = false) (hrequested : requested.absolute = false)
    (hne : requested ≠ UnixPath.empty)
    (h : resolveProjectRelativePath fs workspaceRoot requested = .ok .outOfProject) :
    let root := normalizeLexicalPath workspaceRoot
    let candidate := normalizeLexicalPath (root.join requested)
    ∃ path ∈ candidate :: (candidate.parent).elim [] UnixPath.ancestors, ∃ resolved,
      fs.canonicalize path = .ok resolved ∧
        workspaceRelativePath fs ((fs.canonicalize root).toOption.getD root) resolved = none := by
  intro root candidate
  have hcandidate : (normalizeLexicalPath candidate).absolute = false := by
    rw [absolute_normalizeLexicalPath, absolute_normalizeLexicalPath]
    unfold join
    rw [if_neg (by simp [hrequested]), absolute_normalizeLexicalPath]
    exact hroot
  have hrelative : ∃ relative, workspaceRelativePath fs root candidate = some relative := by
    unfold workspaceRelativePath
    dsimp only
    split
    · exact ⟨_, rfl⟩
    · rw [if_pos hcandidate]
      exact ⟨_, rfl⟩
  obtain ⟨relative, hrelative⟩ := hrelative
  unfold resolveProjectRelativePath at h
  rw [if_neg hne] at h
  dsimp only at h
  rw [if_neg (by simp [hrequested]), hrelative] at h
  dsimp only at h
  split at h
  · cases h
  change ∃ path ∈ _, ∃ resolved, _ ∧ workspaceRelativePath fs
    ((fs.canonicalize (normalizeLexicalPath workspaceRoot)).toOption.getD _) resolved = none
  cases hcanonical : fs.canonicalize (normalizeLexicalPath workspaceRoot)
  all_goals
    rw [hcanonical] at h
    dsimp only at h
    split at h
    · split at h
      · cases h
      · rename_i resolved hresolved
        split at h
        · rename_i hnone
          exact ⟨candidate, List.mem_cons_self, resolved, hresolved,
            Option.isNone_iff_eq_none.mp hnone⟩
        · split at h <;> cases h
    · split at h
      · cases h
      · rename_i hcontained
        obtain ⟨path, hmem, resolved, hresolved, hnone⟩ := ancestorsContained_eq_false hcontained
        exact ⟨path, List.mem_cons_of_mem _ hmem, resolved, hresolved, hnone⟩
      · cases h
    · cases h

/-- A file system with the working directory and the directories above it. -/
def bareFileSystem (cwd : List FileName) : FileSystem where
  cwd := cwd
  entry := fun place => if place <+: cwd then .ok .directory else .error .notFound
  inode := fun place => (0, place.length)
  root := if_pos (List.nil_prefix)
  beneath := by
    intro place n kind h
    split at h
    · rename_i hbegins
      exact if_pos ((List.prefix_append place [n]).trans hbegins)
    · exact absurd h (by simp)
  notFound_beneath := by
    intro place n _
    by_cases hbegins : place <+: cwd
    · exact Or.inl (if_pos hbegins)
    · exact Or.inr (if_neg hbegins)
  inode_directory := by
    intro place place' kind h h' hinode
    split at h
    · split at h'
      · rename_i hplace hplace'
        have hlength : place.length = place'.length := congrArg Prod.snd hinode
        exact (List.prefix_of_prefix_length_le hplace hplace' hlength.le).eq_of_length hlength
      · exact absurd h' (by simp)
    · exact absurd h (by simp)

/-- A request that leaves the workspace for `n` and is normalised to `n`. -/
def escape (workspaceRoot : UnixPath) (n : FileName) : UnixPath :=
  reduced false (workspaceRoot.names.length + 2 - workspaceRoot.climb % 2) [n]

theorem reduce_join_escape {workspaceRoot path : UnixPath}
    (hnames : path.names = workspaceRoot.names) (n : FileName) :
    reduce (path.join (escape workspaceRoot n)).segments =
      (path.climb + (2 - workspaceRoot.climb % 2), [n]) := by
  have hsegments : (path.join (escape workspaceRoot n)).segments =
      path.segments ++
        (List.replicate (workspaceRoot.names.length + 2 - workspaceRoot.climb % 2) Segment.up ++
          [n].map Segment.name) := rfl
  have hpath : reduce path.segments = (path.climb, workspaceRoot.names) := by
    rw [← hnames]
    rfl
  have hparity : workspaceRoot.climb % 2 < 2 := Nat.mod_lt _ (by decide)
  rw [hsegments, reduce_append, hpath, List.foldl_append, foldl_reduceStep_ups,
    foldl_reduceStep_names, Prod.mk.injEq]
  constructor
  · dsimp only
    omega
  · rw [show workspaceRoot.names.length -
      (workspaceRoot.names.length + 2 - workspaceRoot.climb % 2) = 0 by omega]
    simp

theorem normalize_join_escape {workspaceRoot : UnixPath} (hroot : workspaceRoot.absolute = false)
    (n : FileName) :
    normalizeLexicalPath ((normalizeLexicalPath workspaceRoot).join (escape workspaceRoot n)) =
      reduced false 0 [n] := by
  have hnames : (normalizeLexicalPath workspaceRoot).names = workspaceRoot.names := by
    rw [normalizeLexicalPath_eq, names_reduced]
  have hclimb : (normalizeLexicalPath workspaceRoot).climb = workspaceRoot.climb % 2 := by
    rw [normalizeLexicalPath_eq, climb_reduced]
  have hreduce := reduce_join_escape hnames n
  have hparity : workspaceRoot.climb % 2 < 2 := Nat.mod_lt _ (by decide)
  rw [hclimb, show workspaceRoot.climb % 2 + (2 - workspaceRoot.climb % 2) = 2 by omega] at hreduce
  have hjoined : ((normalizeLexicalPath workspaceRoot).join (escape workspaceRoot n)).absolute =
      false := (absolute_normalizeLexicalPath workspaceRoot).trans hroot
  rw [normalizeLexicalPath_eq _, hjoined]
  unfold climb UnixPath.names
  rw [hreduce, Nat.mod_self]

/-- The escape leads past the workspace, from a working directory that is deep enough. -/
theorem escape_leaves {workspaceRoot : UnixPath} (hroot : workspaceRoot.absolute = false)
    {n d : FileName} (hne : n ≠ d) {depth : Nat} (hdepth : workspaceRoot.climb + 2 ≤ depth) :
    LeavesWorkspace (bareFileSystem (List.replicate depth d)) workspaceRoot
      (escape workspaceRoot n) := by
  have hreduce := @reduce_join_escape workspaceRoot workspaceRoot rfl n
  have hparity : workspaceRoot.climb % 2 < 2 := Nat.mod_lt _ (by decide)
  have hjoined : (workspaceRoot.join (escape workspaceRoot n)).absolute = false := hroot
  intro hbegins
  rw [locate_eq, locate_eq, hjoined, hroot] at hbegins
  unfold climb UnixPath.names at hbegins
  rw [hreduce] at hbegins
  change (List.replicate depth d).take ((List.replicate depth d).length - workspaceRoot.climb) ++
    workspaceRoot.names <+: (List.replicate depth d).take ((List.replicate depth d).length -
      (workspaceRoot.climb + (2 - workspaceRoot.climb % 2))) ++ [n] at hbegins
  rw [List.take_replicate, List.take_replicate, List.length_replicate] at hbegins
  have hlength := hbegins.length_le
  simp only [List.length_append, List.length_replicate, List.length_singleton] at hlength
  have hnone : workspaceRoot.names = [] := List.eq_nil_of_length_eq_zero (by omega)
  rw [hnone, List.append_nil] at hbegins
  have hlast : n ∈ List.replicate (min (depth - workspaceRoot.climb) depth) d := by
    rw [hbegins.eq_of_length (by
      simp only [List.length_append, List.length_replicate, List.length_singleton]
      omega)]
    exact List.mem_append_right _ (List.mem_singleton.mpr rfl)
  exact hne (List.eq_of_mem_replicate hlast)

/-- A single name has a relative path to every workspace that is not that name. -/
theorem workspaceRelativePath_single (fs : FileSystem) {root : UnixPath} {n : FileName}
    (hne : normalizeLexicalPath root ≠ reduced false 0 [n]) :
    ∃ relative, workspaceRelativePath fs root (reduced false 0 [n]) = some relative ∧
      relative ≠ UnixPath.empty := by
  have hsingle : normalizeLexicalPath (reduced false 0 [n]) = reduced false 0 [n] := rfl
  have hcomponents : (reduced false 0 [n]).components = [.normal n] := rfl
  unfold workspaceRelativePath
  rw [hsingle]
  dsimp only
  by_cases hbegins : (normalizeLexicalPath root).components <+: (reduced false 0 [n]).components
  · have hstrip : (reduced false 0 [n]).stripPrefix (normalizeLexicalPath root) =
        some (reduced false 0 [n]) := by
      unfold UnixPath.stripPrefix
      rw [if_pos hbegins]
      rw [hcomponents] at hbegins ⊢
      rcases List.prefix_cons_iff.mp hbegins with hnil | ⟨rest, hrest, hnone⟩
      · rw [hnil]
        rfl
      · rw [List.prefix_nil.mp hnone] at hrest
        exact absurd (components_inj (plain_normalizeLexicalPath root) (plain_reduced false 0 [n])
          hrest) hne
    rw [hstrip]
    exact ⟨_, rfl, by simp [reduced, UnixPath.empty]⟩
  · have hstrip : (reduced false 0 [n]).stripPrefix (normalizeLexicalPath root) = none :=
      if_neg hbegins
    rw [hstrip]
    exact ⟨_, rfl, by simp [reduced, UnixPath.empty]⟩

theorem metadata_single (cwd : List FileName) (n : FileName) :
    (bareFileSystem cwd).metadata (reduced false 0 [n]) = .error .notFound := by
  have hplace : (reduced false 0 [n]).locate cwd = cwd ++ [n] := rfl
  unfold FileSystem.metadata
  rw [if_neg (by simp [reduced, UnixPath.empty])]
  change (if (reduced false 0 [n]).locate cwd <+: cwd then _ else _) = _
  rw [hplace, if_neg]
  intro h
  have hlength := h.length_le
  rw [List.length_append, List.length_singleton] at hlength
  omega

/-- The escape is answered as a missing file of the workspace. -/
theorem escape_accepted {workspaceRoot : UnixPath} (hroot : workspaceRoot.absolute = false)
    {n : FileName} (hne : normalizeLexicalPath workspaceRoot ≠ reduced false 0 [n])
    (cwd : List FileName) :
    Accepted (resolveProjectRelativePath (bareFileSystem cwd) workspaceRoot
      (escape workspaceRoot n)) := by
  have hrequest : escape workspaceRoot n ≠ UnixPath.empty := by
    simp [escape, reduced, UnixPath.empty]
  have hroot' : normalizeLexicalPath (normalizeLexicalPath workspaceRoot) ≠
    reduced false 0 [n] := by
    rw [normalizeLexicalPath_idem]
    exact hne
  obtain ⟨relative, hrelative, hnonempty⟩ :=
    workspaceRelativePath_single (bareFileSystem cwd) hroot'
  refine ⟨reduced false 0 [n], relative, Or.inr ?_⟩
  unfold resolveProjectRelativePath
  rw [if_neg hrequest]
  dsimp only
  rw [if_neg (by simp [escape, reduced]), normalize_join_escape hroot, hrelative]
  dsimp only
  rw [if_neg hnonempty, metadata_single]
  rfl

/-- Normalisation keeps the place of a path, and requests stay in the workspace, exactly where
no run of `..` is collapsed and the root is not relative. -/
theorem lexical_paths_keep_their_place (path workspaceRoot : UnixPath) :
    (PreservesPlace path ↔ path.absolute = true ∨ path.climb ≤ 1) ∧
    normalizeLexicalPath (normalizeLexicalPath path) = normalizeLexicalPath path ∧
    ((∀ (fs : FileSystem) (requested : UnixPath), LeavesWorkspace fs workspaceRoot requested →
        ¬ Accepted (resolveProjectRelativePath fs workspaceRoot requested)) ↔
      workspaceRoot.absolute = true) := by
  refine ⟨preservesPlace_iff path, normalizeLexicalPath_idem path, ?_⟩
  constructor
  · intro hrefuses
    by_contra habs
    have hroot : workspaceRoot.absolute = false := by simpa using habs
    have hdepth : workspaceRoot.climb + 2 ≤ parents workspaceRoot + 2 :=
      Nat.add_le_add_right (climb_le_parents workspaceRoot) 2
    -- One of two names is not the whole of the root.
    by_cases hname : normalizeLexicalPath workspaceRoot = reduced false 0 [⟨"x", by decide⟩]
    · have hother : normalizeLexicalPath workspaceRoot ≠ reduced false 0 [⟨"y", by decide⟩] := by
        rw [hname]
        decide
      exact hrefuses _ _ (escape_leaves hroot (n := ⟨"y", by decide⟩) (d := ⟨"d", by decide⟩)
        (by decide) hdepth) (escape_accepted hroot hother _)
    · exact hrefuses _ _ (escape_leaves hroot (n := ⟨"x", by decide⟩) (d := ⟨"d", by decide⟩)
        (by decide) hdepth) (escape_accepted hroot hname _)
  · intro hroot fs requested hleaves
    exact not_accepted_of_leaves hroot hleaves

/-- `../..` is normalised to the empty path, and under the root `.` the request `../../x`, which
leads two levels up, is answered as the missing file `x` of the workspace. -/
theorem climbing_two_levels_is_lost :
    (¬ PreservesPlace ⟨false, [.up, .up]⟩) ∧
    LeavesWorkspace (bareFileSystem [⟨"a", by decide⟩, ⟨"b", by decide⟩, ⟨"c", by decide⟩])
      ⟨false, [.cur]⟩ ⟨false, [.up, .up, .name ⟨"x", by decide⟩]⟩ ∧
    resolveProjectRelativePath
      (bareFileSystem [⟨"a", by decide⟩, ⟨"b", by decide⟩, ⟨"c", by decide⟩])
      ⟨false, [.cur]⟩ ⟨false, [.up, .up, .name ⟨"x", by decide⟩]⟩ =
      .ok (.missing ⟨false, [.name ⟨"x", by decide⟩]⟩ ⟨false, [.name ⟨"x", by decide⟩]⟩) := by
  refine ⟨?_, by decide, by decide⟩
  intro h
  have hlost := h [⟨"a", by decide⟩, ⟨"b", by decide⟩] (by decide)
  exact absurd hlost (by decide)

end CodeStory.Workspace
