import CodeStory.Graph.Storage

/-!
# File paths when a cache moves to another root

Moving a cache replaces the text of the old root wherever it occurs. For a path below the root
the first occurrence is the root itself; any other occurrence, in the rest of the path or in a
path that is not below the root, is rewritten as well. Where a rewritten path is that of another
row the move fails, and every path stays what it was.

Which characters separate the components of a path depends on the platform and is a parameter.
-/

set_option autoImplicit false

namespace CodeStory.Graph

universe u
variable (isSeparator : Char → Bool) (source target path : String)

/-- The root itself, or something under it on the boundary of a component. -/
def Below : Prop :=
  path = source ∨
    (∃ c rel, isSeparator c = true ∧ path = source ++ String.ofList (c :: rel)) ∨
    ((∃ c, source.toList.getLast? = some c ∧ isSeparator c = true) ∧
      source.toList <+: path.toList)

/-- What a move should make of a path. -/
structure PathRebased (result : String) : Prop where
  below : ∀ c rel, isSeparator c = true → path = source ++ String.ofList (c :: rel) →
    result = target ++ String.ofList (c :: rel)
  elsewhere : ¬ Below isSeparator source path → result = path

/-- The old root does not occur where it is not the root. -/
def RootOccursAsRoot : Prop :=
  source = target ∨
    ((∀ c rel, isSeparator c = true → path = source ++ String.ofList (c :: rel) →
        source ≠ "" ∧ ¬ source.toList <:+: c :: rel) ∧
      (¬ Below isSeparator source path → source = "" ∨ ¬ source.toList <:+: path.toList))

variable {isSeparator source target path}

theorem toList_rebaseText (hsource : source ≠ "") :
    (Storage.rebaseText source target path).toList =
      SqlText.replaceChars source.toList target.toList 0 path.toList := by
  have hchars : source.toList ≠ [] := by simpa using hsource
  unfold Storage.rebaseText
  split
  · unfold SqlText.replace
    rw [if_neg hchars, String.toList_ofList]
  · rename_i hcontains
    rw [SqlText.contains_iff] at hcontains
    rw [SqlText.replaceChars_of_not_infix hcontains]

theorem rebaseText_empty : Storage.rebaseText "" target path = path := by
  unfold Storage.rebaseText SqlText.replace
  split <;> rfl

theorem rebaseText_eq_self_iff (hsource : source ≠ "") :
    Storage.rebaseText source target path = path ↔
      source = target ∨ ¬ source.toList <:+: path.toList := by
  have hchars : source.toList ≠ [] := by simpa using hsource
  rw [← String.toList_inj, toList_rebaseText hsource, SqlText.replaceChars_eq_self_iff hchars,
    String.toList_inj]

theorem rebaseText_below_iff (hsource : source ≠ "") (rest : List Char) :
    Storage.rebaseText source target (source ++ String.ofList rest) =
        target ++ String.ofList rest ↔
      source = target ∨ ¬ source.toList <:+: rest := by
  have hchars : source.toList ≠ [] := by simpa using hsource
  rw [← String.toList_inj, toList_rebaseText hsource, String.toList_append, String.toList_append,
    String.toList_ofList, SqlText.replaceChars_append hchars, List.append_cancel_left_eq,
    SqlText.replaceChars_eq_self_iff hchars, String.toList_inj]

theorem rebaseText_rebased_iff :
    PathRebased isSeparator source target path (Storage.rebaseText source target path) ↔
      RootOccursAsRoot isSeparator source target path := by
  constructor
  · intro h
    by_cases hsame : source = target
    · exact .inl hsame
    right
    constructor
    · intro c rel hc hpath
      have hresult := h.below c rel hc hpath
      have hsource : source ≠ "" := by
        rintro rfl
        rw [rebaseText_empty, hpath] at hresult
        have hchars := congrArg String.toList hresult
        rw [String.toList_append, String.toList_append] at hchars
        have htarget := List.append_cancel_right hchars
        exact hsame (String.toList_inj.mp htarget)
      refine ⟨hsource, ?_⟩
      rw [hpath, rebaseText_below_iff hsource] at hresult
      exact hresult.resolve_left hsame
    · intro hbelow
      by_cases hsource : source = ""
      · exact .inl hsource
      · have hself := (rebaseText_eq_self_iff hsource).mp (h.elsewhere hbelow)
        exact .inr (hself.resolve_left hsame)
  · intro h
    constructor
    · intro c rel hc hpath
      by_cases hsource : source = ""
      · rcases h with hsame | ⟨hclean, -⟩
        · rw [hsource, rebaseText_empty, hpath, ← hsame, hsource]
        · exact absurd hsource (hclean c rel hc hpath).1
      · rw [hpath, rebaseText_below_iff hsource]
        rcases h with hsame | ⟨hclean, -⟩
        · exact .inl hsame
        · exact .inr (hclean c rel hc hpath).2
    · intro hbelow
      by_cases hsource : source = ""
      · rw [hsource, rebaseText_empty]
      · rw [rebaseText_eq_self_iff hsource]
        rcases h with hsame | ⟨-, hclean⟩
        · exact .inl hsame
        · exact .inr ((hclean hbelow).resolve_left hsource)

/-- Only paths that are not under the root may stay. -/
theorem unmoved_rebased_iff :
    PathRebased isSeparator source target path path ↔
      source = target ∨ ∀ c rel, isSeparator c = true →
        path ≠ source ++ String.ofList (c :: rel) := by
  constructor
  · intro h
    by_cases hsame : source = target
    · exact .inl hsame
    · refine .inr fun c rel hc hpath => hsame ?_
      have hchars := congrArg String.toList (hpath.symm.trans (h.below c rel hc hpath))
      rw [String.toList_append, String.toList_append] at hchars
      exact String.toList_inj.mp (List.append_cancel_right hchars)
  · intro h
    refine ⟨fun c rel hc hpath => ?_, fun _ => rfl⟩
    rcases h with hsame | hunder
    · rw [← hsame]
      exact hpath
    · exact absurd hpath (hunder c rel hc)

namespace Storage
variable {β : Type u}

/-- A file row of any store, moved from any root to any other. Where no two rows collide, its path
is rebased exactly when the old root occurs in it as the root only; where two do, exactly when
there was nothing to move. -/
theorem file_path_rebased_iff (isSeparator : Char → Bool) (s : Storage β) (source target : String)
    (callableKeys : List (Int × String)) {id : Int} {info : FileInfo}
    (h : s.file.lookup id = some info) :
    (∃ moved, ((s.rebaseRehydratedPathBoundCache source target callableKeys).getD
      s).file.lookup id =
          some moved ∧
        PathRebased isSeparator source target info.path moved.path) ↔
      if s.rebaseFits source target callableKeys then
        RootOccursAsRoot isSeparator source target info.path
      else source = target ∨
        ∀ c rel, isSeparator c = true → info.path ≠ source ++ String.ofList (c :: rel) := by
  have hrow : ∀ row : FileInfo, (∃ moved, some row = some moved ∧
      PathRebased isSeparator source target info.path moved.path) ↔
        PathRebased isSeparator source target info.path row.path := by
    intro row
    constructor
    · rintro ⟨moved, hmoved, hrebased⟩
      obtain rfl := Option.some.inj hmoved
      exact hrebased
    · exact fun hrebased => ⟨row, rfl, hrebased⟩
  unfold rebaseRehydratedPathBoundCache
  split
  · have hmoved : (s.rebased source target).file.lookup id =
        some { info with path := rebaseText source target info.path } := by
      unfold rebased
      rw [KeyedTable.lookup_update, h]
      rfl
    rw [Option.getD_some, hmoved, hrow]
    exact rebaseText_rebased_iff
  · rw [Option.getD_none, h, hrow]
    exact unmoved_rebased_iff

section Inputs

def isSlash (c : Char) : Bool := c = '/'

/-- What follows the root of a path. -/
theorem rest_of_path {path source : String} {rest : List Char} {c : Char} {rel : List Char}
    (hrest : path.toList = source.toList ++ rest) (h : path = source ++ String.ofList (c :: rel)) :
    rest = c :: rel := by
  have hchars := congrArg String.toList h
  rw [String.toList_append, String.toList_ofList, hrest] at hchars
  exact List.append_cancel_left hchars

/-- A file below the root, one with the root once more in its path, and one in a directory
whose name begins like the root. -/
def threeFiles : Storage Unit :=
  (created : Storage Unit).insertFilesBatch
    [⟨1, "/work/app/src/lib.rs", "rust", true⟩,
      ⟨2, "/work/app/vendor/work/app/lib.rs", "rust", true⟩, ⟨3, "/work/app2/lib.rs", "rust", true⟩]

theorem plain_path_is_rebased :
    threeFiles.file.lookup 1 = some ⟨1, "/work/app/src/lib.rs", "rust", true⟩ ∧
      ∃ moved, ((threeFiles.rebaseRehydratedPathBoundCache "/work/app" "/srv/app"
          [(1, "/work/app/src/lib.rs::run")]).getD threeFiles).file.lookup 1 = some moved ∧
        PathRebased isSlash "/work/app" "/srv/app" "/work/app/src/lib.rs" moved.path := by
  have hlookup : threeFiles.file.lookup 1 =
      some ⟨1, "/work/app/src/lib.rs", "rust", true⟩ := by decide
  refine ⟨hlookup, (file_path_rebased_iff isSlash threeFiles _ _ _ hlookup).mpr ?_⟩
  rw [if_pos (by decide)]
  refine .inr ⟨?_, ?_⟩
  · intro c rel _ hpath
    have hrest : "/src/lib.rs".toList = c :: rel := rest_of_path (by decide) hpath
    rw [← hrest]
    decide
  · intro hbelow
    exact absurd (.inr (.inl ⟨'/', "src/lib.rs".toList, rfl, rfl⟩)) hbelow

/-- The same file in the main work tree and in another one below it. -/
def twoWorkTrees : Storage Unit :=
  (created : Storage Unit).insertFilesBatch
    [⟨1, "/repo/src/a.rs", "rust", true⟩, ⟨2, "/repo/.worktrees/w/src/a.rs", "rust", true⟩]

/-- The second root in the path is rewritten, and so is the beginning of the other directory; a
move into the other work tree fails, and no path moves. -/
theorem rebase_misplaces_paths :
    ((threeFiles.rebaseRehydratedPathBoundCache "/work/app" "/srv/app" []).map
        (·.file.rows.map (·.path)) =
      some ["/srv/app/src/lib.rs", "/srv/app/vendor/srv/app/lib.rs", "/srv/app2/lib.rs"]) ∧
    ¬ PathRebased isSlash "/work/app" "/srv/app" "/work/app/vendor/work/app/lib.rs"
      "/srv/app/vendor/srv/app/lib.rs" ∧
    ¬ PathRebased isSlash "/work/app" "/srv/app" "/work/app2/lib.rs" "/srv/app2/lib.rs" ∧
    (twoWorkTrees.rebaseRehydratedPathBoundCache "/repo" "/repo/.worktrees/w" []).isNone = true ∧
    ¬ PathRebased isSlash "/repo" "/repo/.worktrees/w" "/repo/src/a.rs" "/repo/src/a.rs" := by
  refine ⟨by decide, ?_, ?_, by decide, ?_⟩
  · intro h
    have hresult := h.below '/' "vendor/work/app/lib.rs".toList rfl rfl
    exact absurd hresult (by decide)
  · intro h
    have hout : ¬ Below isSlash "/work/app" "/work/app2/lib.rs" := by
      rintro (hsame | ⟨c, rel, hc, hpath⟩ | ⟨⟨c, hlast, hc⟩, -⟩)
      · exact absurd hsame (by decide)
      · have hrest : "2/lib.rs".toList = c :: rel := rest_of_path (by decide) hpath
        obtain rfl : '2' = c := (List.cons.inj hrest).1
        exact absurd hc (by decide)
      · obtain rfl : 'p' = c := Option.some.inj hlast
        exact absurd hc (by decide)
    exact absurd (h.elsewhere hout) (by decide)
  · intro h
    have hresult := h.below '/' "src/a.rs".toList rfl rfl
    exact absurd hresult (by decide)

end Inputs

end Storage

end CodeStory.Graph
