import CodeStory.Workspace.SourcePolicy

/-!
# Policy paths

What `normalized_policy_path` says of a file below a canonical root, where the path that is
written leads, and the key of a file that is there.
-/

set_option autoImplicit false

namespace CodeStory.Workspace

open UnixPath

section Relative

theorem stripPrefix_segments {p base relative : UnixPath} (hp : p.Plain) (hbase : base.Plain)
    (hpAbs : p.absolute = true) (hbaseAbs : base.absolute = true)
    (h : p.stripPrefix base = some relative) :
    p.segments = base.segments ++ relative.segments ∧ relative.absolute = false := by
  unfold UnixPath.stripPrefix at h
  split at h
  · rename_i hbegins
    obtain ⟨rest, hrest⟩ := hbegins
    rw [← hrest, List.drop_left] at h
    obtain rfl := Option.some.inj h
    rw [components_plain hp, components_plain hbase, hpAbs, hbaseAbs] at hrest
    have hsegments : base.segments.filterMap Segment.component ++ rest =
        p.segments.filterMap Segment.component := List.cons.inj hrest |>.2
    have hroot : Component.rootDir ∉ rest := by
      intro hmem
      apply rootDir_not_mem p.segments
      rw [← hsegments]
      exact List.mem_append_right _ hmem
    constructor
    · have hback := congrArg (List.filterMap Component.segment) hsegments
      rw [List.filterMap_append, filterMap_segment_component hp,
        filterMap_segment_component hbase] at hback
      exact hback.symm
    · unfold ofComponents
      rw [decide_eq_false_iff_not]
      intro hhead
      exact hroot (List.mem_of_head? hhead)
  · exact absurd h (by simp)

/-- Segments without `.` and `..` are names. -/
theorem exists_names {segments : List Segment} (hcur : Segment.cur ∉ segments)
    (hup : Segment.up ∉ segments) : ∃ names : List FileName, segments = names.map .name := by
  induction segments with
  | nil => exact ⟨[], rfl⟩
  | cons segment rest ih =>
    obtain ⟨names, rfl⟩ := ih (fun h => hcur (List.mem_cons_of_mem _ h))
      (fun h => hup (List.mem_cons_of_mem _ h))
    cases segment with
    | cur => exact absurd List.mem_cons_self hcur
    | up => exact absurd List.mem_cons_self hup
    | name n => exact ⟨n :: names, rfl⟩

/-- What is left of an absolute path below one of its ancestors. -/
theorem stripPrefix_names {p base relative : UnixPath} (hp : p.Plain) (hbase : base.Plain)
    (hpAbs : p.absolute = true) (hbaseAbs : base.absolute = true)
    (h : p.stripPrefix base = some relative) :
    relative.absolute = false ∧ Segment.up ∈ relative.segments ∨
      ∃ rest, p.names = base.names ++ rest ∧ relative = reduced false 0 rest := by
  obtain ⟨hsegments, hrelative⟩ := stripPrefix_segments hp hbase hpAbs hbaseAbs h
  by_cases hup : Segment.up ∈ relative.segments
  · exact .inl ⟨hrelative, hup⟩
  · right
    have hcur : Segment.cur ∉ relative.segments := by
      intro hcur
      apply hp
      rw [hsegments]
      exact List.mem_append_right _ hcur
    obtain ⟨rest, hrest⟩ := exists_names hcur hup
    refine ⟨rest, ?_, ?_⟩
    · unfold names
      rw [hsegments, hrest, reduce_append, foldl_reduceStep_names]
    · obtain ⟨absolute, segments⟩ := relative
      subst hrelative hrest
      rfl

theorem normalize_reduced (absolute : Bool) (names : List FileName) :
    normalizeLexicalPath (reduced absolute 0 names) = reduced absolute 0 names := by
  rw [normalizeLexicalPath_eq, climb_reduced, names_reduced]
  rfl

variable {fs : FileSystem} {root : List FileName}

/-- The relative path of a file that is there, below a canonical root. -/
theorem workspaceRelativePath_cases {candidate relative : UnixPath} {kind : FileKind}
    (hcandidate : candidate.absolute = true)
    (hexists : fs.entry (candidate.locate fs.cwd) = .ok kind)
    (h : workspaceRelativePath fs (reduced true 0 root) candidate = some relative) :
    relative.absolute = false ∧ Segment.up ∈ relative.segments ∨ relative = reduced false 0 [] ∨
      ∃ rest, candidate.locate fs.cwd = root ++ rest ∧ relative = reduced false 0 rest := by
  have hcandAbs : (normalizeLexicalPath candidate).absolute = true :=
    (absolute_normalizeLexicalPath candidate).trans hcandidate
  have hnames : candidate.locate fs.cwd = (normalizeLexicalPath candidate).names := by
    rw [← locate_of_absolute hcandAbs fs.cwd, locate_normalize_of_absolute hcandidate]
  have hplain := plain_normalizeLexicalPath candidate
  unfold workspaceRelativePath at h
  rw [normalize_reduced] at h
  dsimp only at h
  split at h
  · rename_i relative' hstrip
    obtain rfl := Option.some.inj h
    rcases stripPrefix_names hplain (plain_reduced true 0 root) hcandAbs rfl hstrip with
      hup | ⟨rest, hrest, hrelative⟩
    · exact .inl hup
    · rw [names_reduced] at hrest
      exact .inr (.inr ⟨rest, hnames.trans hrest, hrelative⟩)
  · rw [if_neg (by simp [hcandAbs])] at h
    split at h
    · exact absurd h (by simp)
    · rename_i link hfind
      obtain ⟨hlinkAbs, hlinkPrefix⟩ := mem_ancestorsFrom hplain (List.mem_of_find?_eq_some hfind)
      have hlink : link.absolute = true := hlinkAbs.trans hcandAbs
      have hlinkPlain : link.Plain := fun hcur => hplain (hlinkPrefix.subset hcur)
      rcases stripPrefix_names hplain hlinkPlain hcandAbs hlink h with hup |
        ⟨rest, hrest, hrelative⟩
      · exact .inl hup
      · right
        rcases sameWorkspacePath_spec rfl hlink (List.find?_some hfind) with hsame | hfile
        · rw [locate_of_absolute rfl, locate_of_absolute hlink, names_reduced] at hsame
          exact .inr ⟨rest, by rw [hnames, hrest, ← hsame], hrelative⟩
        · -- nothing lies beneath a file
          left
          obtain ⟨kind', hkind, hne⟩ := hfile
          by_cases hnil : rest = []
          · rw [hrelative, hnil]
          · exfalso
            rw [locate_of_absolute hlink] at hkind
            obtain ⟨error, herror, -⟩ := entry_beneath_file hkind hne hnil
            rw [hnames, hrest, herror] at hexists
            exact absurd hexists (by simp)

theorem workspaceRelativePath_below (rest : List FileName) :
    workspaceRelativePath fs (reduced true 0 root) (reduced true 0 (root ++ rest)) =
      some (reduced false 0 rest) := by
  have hstrip : (reduced true 0 (root ++ rest)).stripPrefix (reduced true 0 root) =
      some (reduced false 0 rest) := by
    have hcomponents : ∀ names, (reduced true 0 names).components =
        .rootDir :: names.map .normal := by
      intro names
      rw [components_plain (plain_reduced true 0 names)]
      unfold reduced
      simp [Function.comp_def, Segment.component]
    unfold UnixPath.stripPrefix
    rw [hcomponents, hcomponents, List.map_append, ← List.cons_append,
      if_pos (List.prefix_append _ _), List.drop_left]
    unfold ofComponents reduced
    cases rest with
    | nil => rfl
    | cons n rest => simp [Function.comp_def, Component.segment]
  unfold workspaceRelativePath
  rw [normalize_reduced, normalize_reduced]
  dsimp only
  rw [hstrip]

end Relative

section PolicyPath

theorem toList_forwardSlashes (text : String) :
    (forwardSlashes text).toList = text.toList.map fun c => if c = '\\' then '/' else c :=
  String.toList_ofList

theorem forwardSlashes_eq_self {text : String} (h : '\\' ∉ text.toList) :
    forwardSlashes text = text := by
  apply String.toList_inj.mp
  rw [toList_forwardSlashes]
  conv_rhs => rw [← List.map_id text.toList]
  apply List.map_congr_left
  intro c hc
  apply if_neg
  rintro rfl
  exact h hc

theorem backslash_not_mem (text : String) : '\\' ∉ (forwardSlashes text).toList := by
  rw [toList_forwardSlashes]
  intro h
  obtain ⟨c, -, hc⟩ := List.mem_map.mp h
  split at hc
  · exact absurd hc (by decide)
  · rename_i hne
    exact hne hc

theorem forwardSlashes_intercalate (texts : List String) :
    forwardSlashes ("/".intercalate texts) = "/".intercalate (texts.map forwardSlashes) := by
  induction texts with
  | nil => decide
  | cons t rest ih =>
    cases rest with
    | nil => simp
    | cons second rest =>
      rw [String.intercalate_cons_cons, List.map_cons, List.map_cons,
        String.intercalate_cons_cons]
      rw [List.map_cons] at ih
      rw [← ih]
      apply String.toList_inj.mp
      rw [String.toList_append, String.toList_append, toList_forwardSlashes,
        toList_forwardSlashes, toList_forwardSlashes, String.toList_append,
        String.toList_append, List.map_append, List.map_append]
      rfl

theorem text_relative (names : List FileName) :
    (reduced false 0 names).text = "/".intercalate (names.map FileName.text) := by
  rw [text_reduced]
  exact String.empty_append

theorem text_relative_ne_empty {names : List FileName} (h : names ≠ []) :
    (reduced false 0 names).text ≠ "" := by
  intro hempty
  have hpath : reduced false 0 names = reduced false 0 [] := by
    apply text_injective
    rw [hempty]
    decide
  apply h
  have hnames := names_reduced false 0 names
  rw [hpath, names_reduced] at hnames
  exact hnames.symm

/-- The text of names without backslashes has none. -/
theorem backslash_not_mem_text {names : List FileName}
    (h : ∀ n ∈ names, '\\' ∉ n.text.toList) : '\\' ∉ (reduced false 0 names).text.toList := by
  rw [text_relative]
  induction names with
  | nil => decide
  | cons n rest ih =>
    have hrest := ih fun m hm => h m (List.mem_cons_of_mem _ hm)
    cases rest with
    | nil => simpa using h n List.mem_cons_self
    | cons m rest =>
      rw [List.map_cons, List.map_cons, String.intercalate_cons_cons, String.toList_append,
        String.toList_append, List.mem_append, List.mem_append]
      rw [List.map_cons] at hrest
      rintro ((hmem | hmem) | hmem)
      · exact h n List.mem_cons_self hmem
      · exact absurd hmem (by decide)
      · exact hrest hmem

variable {tree : SourceTree} {root : List FileName}

/-- What the policy path of a file that is there says. -/
theorem normalizedPolicyPath_ok {path : UnixPath} {kind : FileKind} {normalizedPath : String}
    (hpath : path.absolute = true) (hexists : tree.entry (path.locate tree.cwd) = .ok kind)
    (h : normalizedPolicyPath tree (reduced true 0 root) path = .ok normalizedPath) :
    ∃ rest, path.locate tree.cwd = root ++ rest ∧
      normalizedPath = forwardSlashes (reduced false 0 rest).text ∧
      normalizedPath.toList.head? ≠ some '/' ∧ ".." ∉ splitText normalizedPath ∧ rest ≠ [] := by
  unfold normalizedPolicyPath at h
  split at h
  · exact absurd h (by simp)
  · rename_i relative hrelative
    dsimp only at h
    split at h
    · exact absurd h (by simp)
    · rename_i hchecks
      obtain rfl := Except.ok.inj h
      obtain ⟨hempty, hhead, hups⟩ : forwardSlashes relative.text ≠ "" ∧
          (forwardSlashes relative.text).toList.head? ≠ some '/' ∧
          ".." ∉ splitText (forwardSlashes relative.text) := by
        simpa only [not_or] using hchecks
      rcases workspaceRelativePath_cases hpath hexists hrelative with
        ⟨habsolute, hup⟩ | rfl | ⟨rest, hrest, rfl⟩
      · -- a step up stays one between the new separators
        exfalso
        apply hups
        unfold text
        rw [habsolute, if_neg (by decide), String.empty_append, forwardSlashes_intercalate,
          splitText_flatMap (by
            intro hnil
            rw [List.map_eq_nil_iff, List.map_eq_nil_iff] at hnil
            rw [hnil] at hup
            exact absurd hup List.not_mem_nil), List.mem_flatMap]
        refine ⟨forwardSlashes (Segment.text .up), ?_, by decide⟩
        exact List.mem_map_of_mem (List.mem_map_of_mem hup)
      · exact absurd (by decide) hempty
      · refine ⟨rest, hrest, rfl, hhead, hups, ?_⟩
        rintro rfl
        exact hempty (by decide)

theorem normalizedPolicyPath_below {rest : List FileName} (hne : rest ≠ [])
    (hplain : ∀ n ∈ rest, '\\' ∉ n.text.toList) :
    normalizedPolicyPath tree (reduced true 0 root) (reduced true 0 (root ++ rest)) =
      .ok (reduced false 0 rest).text := by
  unfold normalizedPolicyPath
  rw [workspaceRelativePath_below]
  dsimp only
  rw [forwardSlashes_eq_self (backslash_not_mem_text hplain), if_neg]
  rintro (hempty | hhead | hups)
  · exact text_relative_ne_empty hne hempty
  · rw [text_relative] at hhead
    exact head_intercalate rest hhead
  · rw [text_relative, splitText_names hne] at hups
    obtain ⟨n, -, hn⟩ := List.mem_map.mp hups
    exact n.valid.2.2.1 hn

end PolicyPath

section Place

/-- The file that an exclusion names. -/
def exclusionPath (root : UnixPath) (candidate : OversizedSourceExclusionCandidate) : UnixPath :=
  root.join (ofText candidate.normalizedPath)

def Segment.fileName : Segment → Option FileName
  | .cur => none
  | .up => none
  | .name n => some n

theorem foldl_reduceStep_down {segments : List Segment} (hup : Segment.up ∉ segments)
    (state : Nat × List FileName) :
    segments.foldl reduceStep state =
      (state.1, state.2 ++ segments.filterMap Segment.fileName) := by
  induction segments generalizing state with
  | nil => simp
  | cons segment rest ih =>
    rw [List.foldl_cons, ih fun h => hup (List.mem_cons_of_mem _ h)]
    cases segment with
    | cur => rfl
    | up => exact absurd List.mem_cons_self hup
    | name n => simp [reduceStep, Segment.fileName]

theorem ofSegmentText_eq_name {t : String} {n : FileName}
    (h : ofSegmentText t = some (.name n)) : n.text = t := by
  unfold ofSegmentText at h
  split at h
  · exact absurd h (by simp)
  · split at h
    · exact absurd h (by simp)
    · split at h
      · rw [← Segment.name.inj (Option.some.inj h)]
      · exact absurd h (by simp)

theorem ofSegmentText_eq_up {t : String} (h : ofSegmentText t = some .up) : t = ".." := by
  unfold ofSegmentText at h
  split at h
  · exact absurd h (by simp)
  · split at h
    · assumption
    · split at h
      · exact absurd h (by simp)
      · exact absurd h (by simp)

variable {tree : SourceTree} {root : List FileName}

/-- A policy path leads below the root, by names of its characters. -/
theorem place_ofText {normalizedPath : String} (hhead : normalizedPath.toList.head? ≠ some '/')
    (hups : ".." ∉ splitText normalizedPath) :
    ((reduced true 0 root).join (ofText normalizedPath)).absolute = true ∧
      ∃ rest : List FileName, ((reduced true 0 root).join (ofText normalizedPath)).locate tree.cwd =
        root ++ rest ∧ ∀ n ∈ rest, ∀ c ∈ n.text.toList, c ∈ normalizedPath.toList := by
  have hrelative : (ofText normalizedPath).absolute = false := decide_eq_false hhead
  have hjoin : (reduced true 0 root).join (ofText normalizedPath) =
      ⟨true, (reduced true 0 root).segments ++ (ofText normalizedPath).segments⟩ := by
    unfold join
    rw [if_neg (by simp [hrelative])]
    rfl
  have hup : Segment.up ∉ (ofText normalizedPath).segments := by
    intro hmem
    obtain ⟨t, ht, hsegment⟩ := List.mem_filterMap.mp hmem
    rw [ofSegmentText_eq_up hsegment] at ht
    exact hups ht
  rw [hjoin]
  refine ⟨rfl, (ofText normalizedPath).segments.filterMap Segment.fileName, ?_, ?_⟩
  · rw [locate_of_absolute rfl]
    unfold names
    dsimp only
    rw [reduce_append, reduce_reduced, foldl_reduceStep_down hup]
  · intro n hn c hc
    obtain ⟨segment, hsegment, hname⟩ := List.mem_filterMap.mp hn
    obtain ⟨t, ht, htext⟩ := List.mem_filterMap.mp hsegment
    cases segment with
    | cur => exact absurd hname (by simp [Segment.fileName])
    | up => exact absurd hname (by simp [Segment.fileName])
    | name m =>
      obtain rfl : m = n := Option.some.inj hname
      rw [ofSegmentText_eq_name htext] at hc
      exact mem_of_mem_splitText ht hc

/-- The path that the text of names below the root leads to. -/
theorem join_ofText (rest : List FileName) :
    (reduced true 0 root).join (ofText (reduced false 0 rest).text) =
      reduced true 0 (root ++ rest) := by
  rw [ofText_text]
  unfold join reduced
  rw [if_neg Bool.false_ne_true, List.map_append]
  rfl

/-- The key of a file that is there is where it is. -/
theorem key_of_entry {path : UnixPath} {kind : FileKind} (hpath : path.absolute = true)
    (hexists : tree.entry (path.locate tree.cwd) = .ok kind) (base : UnixPath) :
    normalizedCompareKey tree.view base path =
      (reduced true 0 (path.locate tree.cwd)).text := by
  have hnormal : (normalizeLexicalPath path).absolute = true :=
    (absolute_normalizeLexicalPath path).trans hpath
  have hcanonical : tree.view.canonicalize (normalizeLexicalPath path).components =
      some (reduced true 0 (path.locate tree.cwd)) := by
    change (tree.canonicalize (ofComponents (normalizeLexicalPath path).components)).toOption = _
    rw [ofComponents_components (plain_normalizeLexicalPath path)]
    unfold FileSystem.canonicalize
    rw [metadata_of_absolute hnormal, locate_normalize_of_absolute hpath, hexists]
    rfl
  unfold normalizedCompareKey
  dsimp only
  rw [if_pos hpath, hcanonical, Option.getD_some]

end Place

end CodeStory.Workspace
