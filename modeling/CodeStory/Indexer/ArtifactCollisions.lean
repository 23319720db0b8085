import CodeStory.Indexer.ArtifactKey

/-!
# Inputs with one key

Among inputs that feed the same bytes to the hash, those of one layout are the same and all others
are not; and every input has one of another layout beside it.
-/

set_option autoImplicit false

namespace CodeStory.Indexer

open Utf8Text (Text encode byteLen)
open Encoding (Measured)

/-! ## Parts -/

theorem measured_text : Measured byteLen encode := by
  intro a b h
  rw [Utf8Text.length_encode, Utf8Text.length_encode]
  exact ⟨h, Utf8Text.encode_inj⟩

theorem measured_str : Measured textLayout mixStr := by
  intro a b h
  obtain ⟨hlength, hinj⟩ := measured_text (a := a.toList) (b := b.toList) h
  exact ⟨hlength, fun heq => String.toList_inj.mp (hinj heq)⟩

theorem measured_optionalStr : Measured (Option.map textLayout) mixOptionalStr := by
  have heq : mixOptionalStr = Encoding.optionally 0 1 mixStr := by
    funext value
    cases value with
    | none => rfl
    | some value => rfl
  rw [heq]
  exact measured_str.option 0 1

theorem measured_define :
    Measured (fun define : String × Option String => (textLayout define.1, define.2.map textLayout))
      mixDefine := by
  intro a b h
  obtain ⟨hname, hvalue⟩ := Prod.mk.inj h
  obtain ⟨hlength, hinj⟩ := measured_optionalStr hvalue
  unfold mixDefine
  rw [List.length_append, List.length_append, (measured_str hname).1, hlength]
  refine ⟨rfl, fun heq => ?_⟩
  obtain ⟨hfirst, hrest⟩ := measured_str.append_inj hname heq
  exact Prod.ext hfirst (hinj hrest)

/-! ## Paths -/

def forwardSlash (c : Char) : Char := if c = '\\' then '/' else c

theorem utf8Size_forwardSlash (c : Char) : (forwardSlash c).utf8Size = c.utf8Size := by
  unfold forwardSlash
  split
  · rename_i h
    rw [h]
    rfl
  · rfl

theorem map_forwardSlash_inj {a b : Text} (ha : '/' ∉ a) (hb : '/' ∉ b)
    (h : a.map forwardSlash = b.map forwardSlash) : a = b := by
  induction a generalizing b with
  | nil => exact (List.map_eq_nil_iff.mp h.symm).symm
  | cons c a ih =>
    cases b with
    | nil => cases h
    | cons d b =>
      obtain ⟨hhead, htail⟩ := List.cons.inj h
      rw [ih (fun hm => ha (List.mem_cons_of_mem _ hm)) (fun hm => hb (List.mem_cons_of_mem _ hm))
        htail]
      congr 1
      have hc : c ≠ '/' := fun heq => ha (heq ▸ List.mem_cons_self)
      have hd : d ≠ '/' := fun heq => hb (heq ▸ List.mem_cons_self)
      unfold forwardSlash at hhead
      split at hhead
      · rename_i hcb
        split at hhead
        · rename_i hdb
          rw [hcb, hdb]
        · exact absurd hhead.symm hd
      · split at hhead
        · exact absurd hhead hc
        · exact hhead

/-- A name behind a text that is as long on both sides. -/
theorem name_append_inj {n n' : FileName} {x y : Text}
    (hlength : byteLen n.text.toList = byteLen n'.text.toList)
    (heq : n.text.toList.map forwardSlash ++ x = n'.text.toList.map forwardSlash ++ y) :
    n = n' ∧ x = y := by
  have hsame : byteLen (n.text.toList.map forwardSlash) =
      byteLen (n'.text.toList.map forwardSlash) := by
    rw [Utf8Text.byteLen_map utf8Size_forwardSlash, Utf8Text.byteLen_map utf8Size_forwardSlash,
      hlength]
  obtain ⟨hname, hrest⟩ := Utf8Text.append_inj heq hsame
  have htext := map_forwardSlash_inj n.valid.2.2.2 n'.valid.2.2.2 hname
  refine ⟨?_, hrest⟩
  obtain ⟨text, _⟩ := n
  obtain ⟨text', _⟩ := n'
  obtain rfl := String.toList_inj.mp htext
  rfl

/-- The names behind the first one, each with its separator. -/
def laterNames (path : Portable) : Text := path.flatMap fun name => '/' :: name.text.toList

theorem laterNames_spec {a b : Portable} (h : portableLayout a = portableLayout b) :
    byteLen (laterNames a) = byteLen (laterNames b) ∧
      ((laterNames a).map forwardSlash = (laterNames b).map forwardSlash → a = b) := by
  induction a generalizing b with
  | nil =>
    cases b with
    | nil => exact ⟨rfl, fun _ => rfl⟩
    | cons n b => cases h
  | cons n a ih =>
    cases b with
    | nil => cases h
    | cons n' b =>
      obtain ⟨hname, hrest⟩ := List.cons.inj h
      dsimp only at hname
      obtain ⟨hlength, hinj⟩ := ih hrest
      have hsplit : ∀ (m : FileName) (path : Portable),
          laterNames (m :: path) = '/' :: (m.text.toList ++ laterNames path) := fun _ _ => rfl
      rw [hsplit, hsplit, Utf8Text.byteLen_cons, Utf8Text.byteLen_cons, Utf8Text.byteLen_append,
        Utf8Text.byteLen_append, hname, hlength]
      refine ⟨rfl, fun heq => ?_⟩
      rw [List.map_cons, List.map_cons, List.map_append, List.map_append] at heq
      obtain ⟨hsame, htail⟩ := name_append_inj hname (List.cons.inj heq).2
      rw [hsame, hinj htail]

theorem measured_path : Measured portableLayout mixPath := by
  intro a b h
  have hspec : byteLen a.text = byteLen b.text ∧
      (a.text.map forwardSlash = b.text.map forwardSlash → a = b) := by
    cases a with
    | nil =>
      cases b with
      | nil => exact ⟨rfl, fun _ => rfl⟩
      | cons n b => cases h
    | cons n a =>
      cases b with
      | nil => cases h
      | cons n' b =>
        obtain ⟨hname, hrest⟩ := List.cons.inj h
        dsimp only at hname
        obtain ⟨hlength, hinj⟩ := laterNames_spec hrest
        have hsplit : ∀ (m : FileName) (path : Portable),
            Portable.text (m :: path) = m.text.toList ++ laterNames path := fun _ _ => rfl
        rw [hsplit, hsplit, Utf8Text.byteLen_append, Utf8Text.byteLen_append, hname, hlength]
        refine ⟨rfl, fun heq => ?_⟩
        rw [List.map_append, List.map_append] at heq
        obtain ⟨hsame, htail⟩ := name_append_inj hname heq
        rw [hsame, hinj htail]
  change (encode (a.text.map forwardSlash)).length = (encode (b.text.map forwardSlash)).length ∧
    (encode (a.text.map forwardSlash) = encode (b.text.map forwardSlash) → a = b)
  rw [Utf8Text.length_encode, Utf8Text.length_encode, Utf8Text.byteLen_map utf8Size_forwardSlash,
    Utf8Text.byteLen_map utf8Size_forwardSlash]
  exact ⟨hspec.1, fun heq => hspec.2 (Utf8Text.encode_inj heq)⟩

/-! ## Whole inputs -/

theorem standard_name_inj {a b : CxxStandard} (h : a.name = b.name) : a = b := by
  cases a <;> cases b <;> first | rfl | exact absurd h (by decide)

theorem measured_standard :
    Measured (Option.map fun standard : CxxStandard => textLayout standard.name)
      fun standard => mixOptionalStr (standard.map CxxStandard.name) := by
  intro a b h
  have hmap : (a.map CxxStandard.name).map textLayout =
      (b.map CxxStandard.name).map textLayout := by
    rw [Option.map_map, Option.map_map]
    exact h
  obtain ⟨hlength, hinj⟩ := measured_optionalStr hmap
  refine ⟨hlength, fun heq => ?_⟩
  exact Option.map_injective (fun _ _ => standard_name_inj) (hinj heq)

theorem measured_sorted : Measured PortableInfo.layout mixSorted := by
  intro a b h
  have hfile := congrArg InfoLayout.file h
  have hdirectory := congrArg InfoLayout.workingDirectory h
  have hstandard := congrArg InfoLayout.standard h
  have hinclude := congrArg InfoLayout.includePaths h
  have hsystem := congrArg InfoLayout.systemIncludePaths h
  have hdefines := congrArg InfoLayout.defines h
  have hflags := congrArg InfoLayout.otherFlags h
  have hflagsSpec := measured_text.flatMap hflags
  unfold mixSorted
  constructor
  · simp only [List.length_append]
    rw [(measured_path hfile).1, (measured_path hdirectory).1, (measured_standard hstandard).1,
      (measured_path.flatMap hinclude).1, (measured_path.flatMap hsystem).1,
      (measured_define.flatMap hdefines).1, hflagsSpec.1]
  · intro heq
    obtain ⟨hfileEq, heq⟩ := measured_path.append_inj hfile heq
    obtain ⟨hdirectoryEq, heq⟩ := measured_path.append_inj hdirectory heq
    obtain ⟨hstandardEq, heq⟩ := measured_standard.append_inj hstandard heq
    obtain ⟨hincludeEq, heq⟩ := measured_path.flatMap.append_inj hinclude heq
    obtain ⟨hsystemEq, heq⟩ := measured_path.flatMap.append_inj hsystem heq
    obtain ⟨hdefinesEq, heq⟩ := measured_define.flatMap.append_inj hdefines heq
    have hflagsEq := hflagsSpec.2 heq
    cases a
    cases b
    dsimp only at hfileEq hdirectoryEq hstandardEq hincludeEq hsystemEq hdefinesEq hflagsEq
    rw [hfileEq, hdirectoryEq, hstandardEq, hincludeEq, hsystemEq, hdefinesEq, hflagsEq]

instance : Std.TransCmp comparePortable :=
  inferInstanceAs (Std.TransCmp (compareOn fun path : Portable => path.map (·.text)))

theorem portable_eq_of_compare {a b : Portable} (h : comparePortable a b = .eq) : a = b := by
  have hnames : a.map (·.text) = b.map (·.text) := Std.LawfulEqCmp.eq_of_compare h
  refine List.map_injective_iff.mpr ?_ hnames
  intro n n' heq
  obtain ⟨text, _⟩ := n
  obtain ⟨text', _⟩ := n'
  obtain rfl : text = text' := heq
  rfl

theorem sortPortable_eq_iff {l l' : List Portable} :
    Selection.sortBy comparePortable l = Selection.sortBy comparePortable l' ↔ l.Perm l' := by
  constructor
  · intro h
    exact (Selection.perm_sortBy l).symm.trans (h ▸ Selection.perm_sortBy l')
  · intro h
    exact Selection.sortBy_congr h fun a _ b _ heq => portable_eq_of_compare heq

theorem sortFlags_eq_iff {l l' : List Text} :
    Selection.sortBy compare l = Selection.sortBy compare l' ↔ l.Perm l' := by
  constructor
  · intro h
    exact (Selection.perm_sortBy l).symm.trans (h ▸ Selection.perm_sortBy l')
  · intro h
    exact Selection.sortBy_congr h fun a _ b _ heq => Std.LawfulEqCmp.eq_of_compare heq

theorem sorted_eq_iff {info info' : PortableInfo} :
    info.sorted = info'.sorted ↔ SameInfo info info' := by
  constructor
  · intro h
    exact ⟨(congrArg PortableInfo.file h :), (congrArg PortableInfo.workingDirectory h :),
      (congrArg PortableInfo.standard h :),
      sortPortable_eq_iff.mp (congrArg PortableInfo.includePaths h :),
      sortPortable_eq_iff.mp (congrArg PortableInfo.systemIncludePaths h :),
      (congrArg PortableInfo.defines h :),
      sortFlags_eq_iff.mp (congrArg PortableInfo.otherFlags h :)⟩
  · intro h
    unfold PortableInfo.sorted
    rw [h.file, h.workingDirectory, h.standard, sortPortable_eq_iff.mpr h.includePaths,
      sortPortable_eq_iff.mpr h.systemIncludePaths, h.defines, sortFlags_eq_iff.mpr h.otherFlags]

theorem map_sorted_eq_iff {info info' : Option PortableInfo} :
    info.map PortableInfo.sorted = info'.map PortableInfo.sorted ↔
      Option.Rel SameInfo info info' := by
  cases info with
  | none =>
    cases info' with
    | none => exact iff_of_true rfl .none
    | some info' => exact iff_of_false (by simp) (fun h => by cases h)
  | some info =>
    cases info' with
    | none => exact iff_of_false (by simp) (fun h => by cases h)
    | some info' =>
      rw [Option.map_some, Option.map_some, Option.some_inj, sorted_eq_iff]
      constructor
      · exact fun h => .some h
      · intro h
        cases h with
        | some h => exact h

theorem mixCompilationInfo_eq (info : Option PortableInfo) :
    mixCompilationInfo info = Encoding.optionally 0 1 mixSorted (info.map PortableInfo.sorted) := by
  cases info with
  | none => rfl
  | some info => rfl

theorem mixBool_inj {a b : Bool} {x y : List UInt8} (h : mixBool a ++ x = mixBool b ++ y) :
    a = b ∧ x = y := by
  obtain ⟨hhead, htail⟩ := List.cons.inj h
  refine ⟨?_, htail⟩
  cases a <;> cases b <;> first | rfl | exact absurd hhead (by decide)

/-- Bytes that are cut at the same places come from the same input. -/
theorem same_of_layout {a b : PortableInput} (hlayout : a.layout = b.layout)
    (hmixed : a.mixed = b.mixed) : SameInput a b := by
  have hpath := congrArg InputLayout.cachePath hlayout
  have hsource := congrArg InputLayout.sourceBytes hlayout
  have hname := congrArg InputLayout.languageName hlayout
  have hquery := congrArg InputLayout.graphQuery hlayout
  have htags := congrArg InputLayout.tagsQuery hlayout
  have hinfo : (a.compilationInfo.map PortableInfo.sorted).map PortableInfo.layout =
      (b.compilationInfo.map PortableInfo.sorted).map PortableInfo.layout := by
    rw [Option.map_map, Option.map_map]
    exact congrArg InputLayout.compilationInfo hlayout
  unfold PortableInput.mixed at hmixed
  have heq := List.append_cancel_left (List.append_cancel_left hmixed)
  obtain ⟨hpathEq, heq⟩ := measured_path.append_inj hpath heq
  obtain ⟨hsourceEq, heq⟩ := List.append_inj heq hsource
  obtain ⟨hnameEq, heq⟩ := measured_str.append_inj hname heq
  obtain ⟨hqueryEq, heq⟩ := measured_str.append_inj hquery heq
  obtain ⟨htagsEq, heq⟩ := measured_optionalStr.append_inj htags heq
  obtain ⟨hlegacyEq, heq⟩ := mixBool_inj heq
  obtain ⟨hlazyEq, heq⟩ := mixBool_inj heq
  rw [mixCompilationInfo_eq, mixCompilationInfo_eq] at heq
  have hlanguage : a.language = b.language := by
    cases ha : a.language
    cases hb : b.language
    rw [ha, hb] at hnameEq hqueryEq htagsEq
    dsimp only at hnameEq hqueryEq htagsEq
    rw [hnameEq, hqueryEq, htagsEq]
  exact ⟨hpathEq, hsourceEq, hlanguage, hlegacyEq, hlazyEq,
    map_sorted_eq_iff.mp ((measured_sorted.option 0 1 hinfo).2 heq)⟩

theorem layout_of_same {a b : PortableInput} (h : SameInput a b) : a.layout = b.layout := by
  have hinfo : a.compilationInfo.map (fun info => info.sorted.layout) =
      b.compilationInfo.map fun info => info.sorted.layout := by
    have hsorted := congrArg (Option.map PortableInfo.layout)
      (map_sorted_eq_iff.mpr h.compilationInfo)
    rw [Option.map_map, Option.map_map] at hsorted
    exact hsorted
  unfold PortableInput.layout
  rw [h.cachePath, h.sourceBytes, h.language, hinfo]

/-! ## Collisions -/

theorem language_of_portable {root : UnixPath} {input : ArtifactInput} {portable : PortableInput}
    (h : input.portable root = some portable) :
    portable.language = input.language ∧ ∀ language,
      ({ input with language := language } : ArtifactInput).portable root =
        some { portable with language := language } := by
  unfold ArtifactInput.portable at h
  obtain ⟨path, hpath, h⟩ := Option.bind_eq_some_iff.mp h
  obtain ⟨info, hinfo, h⟩ := Option.bind_eq_some_iff.mp h
  obtain rfl := Option.some.inj h
  refine ⟨rfl, fun language => ?_⟩
  unfold ArtifactInput.portable
  exact Option.bind_eq_some_iff.mpr
    ⟨path, hpath, Option.bind_eq_some_iff.mpr ⟨info, hinfo, rfl⟩⟩

/-- The last character of the name goes to the query. -/
def shiftName (language : LanguageConfig) : LanguageConfig :=
  { language with
    languageName := String.ofList language.languageName.toList.dropLast
    graphQuery := String.ofList
      (language.languageName.toList.drop (language.languageName.toList.length - 1) ++
        language.graphQuery.toList) }

theorem shiftName_mixed (language : LanguageConfig) (rest : List UInt8) :
    mixStr (shiftName language).languageName ++ (mixStr (shiftName language).graphQuery ++ rest) =
      mixStr language.languageName ++ (mixStr language.graphQuery ++ rest) := by
  rw [← List.append_assoc, ← List.append_assoc]
  congr 1
  unfold shiftName mixStr
  dsimp only
  rw [String.toList_ofList, String.toList_ofList, ← Utf8Text.encode_append,
    ← Utf8Text.encode_append, ← List.append_assoc, List.dropLast_eq_take, List.take_append_drop]

theorem shiftName_ne {language : LanguageConfig} (h : language.languageName ≠ "") :
    shiftName language ≠ language := by
  intro heq
  have hlength := congrArg
    (fun language : LanguageConfig => language.languageName.toList.length) heq
  have hne : language.languageName.toList ≠ [] := fun hnil =>
    h (String.toList_inj.mp (hnil.trans rfl))
  have hpos := List.length_pos_iff.mpr hne
  unfold shiftName at hlength
  dsimp only at hlength
  rw [String.toList_ofList, List.length_dropLast] at hlength
  omega

/-- Among the inputs with the bytes of one input, those that are cut like it are the same, and
there is another one. -/
theorem same_bytes_are_not_the_same_input (root : UnixPath) (input : ArtifactInput)
    (portable : PortableInput) (hportable : input.portable root = some portable)
    (hname : input.language.languageName ≠ "") :
    (∀ (other : ArtifactInput) (other' : PortableInput), other.portable root = some other' →
      other'.mixed = portable.mixed →
      (SameInput portable other' ↔ portable.layout = other'.layout)) ∧
    ∃ (other : ArtifactInput) (other' : PortableInput),
      other.portable root = some other' ∧ other'.mixed = portable.mixed ∧
      buildIndexArtifactCacheKey root other = buildIndexArtifactCacheKey root input ∧
      ¬ SameInput portable other' := by
  constructor
  · intro other other' _ hmixed
    exact ⟨layout_of_same, fun hlayout => same_of_layout hlayout hmixed.symm⟩
  · obtain ⟨hlanguage, hother⟩ := language_of_portable hportable
    have hmixed : ({ portable with language := shiftName input.language } : PortableInput).mixed =
        portable.mixed := by
      have htags : (shiftName input.language).tagsQuery = input.language.tagsQuery := rfl
      unfold PortableInput.mixed
      dsimp only
      rw [hlanguage, htags, shiftName_mixed]
    refine ⟨_, _, hother (shiftName input.language), hmixed, ?_, ?_⟩
    · unfold buildIndexArtifactCacheKey
      rw [hother, hportable, Option.map_some, Option.map_some, hmixed]
    · intro hsame
      exact shiftName_ne hname (hsame.language.symm.trans hlanguage)

def sampleLanguage : LanguageConfig := ⟨"cpp", "(translation_unit) @root", none⟩

/-- A source below `/ws` that is compiled with these include paths. -/
def sampleInput (includePaths : List String) : ArtifactInput where
  cachePath := .ofText "src/a.cpp"
  sourceBytes := encode "int a;".toList
  language := sampleLanguage
  compilationInfo := some
    { file := .ofText "/ws/src/a.cpp"
      workingDirectory := .ofText "/ws"
      includePaths := includePaths.map UnixPath.ofText
      systemIncludePaths := []
      defines := .empty
      standard := some .cxx17
      otherFlags := ["-Wall"] }
  legacyEdgeIdentity := false
  lazyGraphExecution := true

def sampleInfo (includePaths : List Portable) : PortableInfo where
  file := [⟨"src", by decide⟩, ⟨"a.cpp", by decide⟩]
  workingDirectory := []
  standard := some .cxx17
  includePaths := includePaths
  systemIncludePaths := []
  defines := []
  otherFlags := ["flag:-Wall".toList]

def samplePortable (includePaths : List Portable) : PortableInput where
  cachePath := [⟨"src", by decide⟩, ⟨"a.cpp", by decide⟩]
  sourceBytes := encode "int a;".toList
  language := sampleLanguage
  legacyEdgeIdentity := false
  lazyGraphExecution := true
  compilationInfo := some (sampleInfo includePaths)

theorem sample_portable :
    (sampleInput ["/ws/include"]).portable (.ofText "/ws") =
      some (samplePortable [[⟨"include", by decide⟩]]) := by decide

theorem sample_bytes_are_not_the_same_input :
    ∃ (other : ArtifactInput) (other' : PortableInput),
      other.portable (.ofText "/ws") = some other' ∧
      other'.mixed = (samplePortable [[⟨"include", by decide⟩]]).mixed ∧
      buildIndexArtifactCacheKey (.ofText "/ws") other =
        buildIndexArtifactCacheKey (.ofText "/ws") (sampleInput ["/ws/include"]) ∧
      ¬ SameInput (samplePortable [[⟨"include", by decide⟩]]) other' :=
  (same_bytes_are_not_the_same_input (.ofText "/ws") (sampleInput ["/ws/include"]) _
    sample_portable (by decide)).2

/-- Two include directories are mixed like one with the joined name. -/
theorem include_paths_run_together :
    (sampleInput ["/ws/inc", "/ws/lude"]).portable (.ofText "/ws") =
        some (samplePortable [[⟨"inc", by decide⟩], [⟨"lude", by decide⟩]]) ∧
      (sampleInput ["/ws/include"]).portable (.ofText "/ws") =
        some (samplePortable [[⟨"include", by decide⟩]]) ∧
      (samplePortable [[⟨"inc", by decide⟩], [⟨"lude", by decide⟩]]).mixed =
        (samplePortable [[⟨"include", by decide⟩]]).mixed ∧
      ¬ SameInput (samplePortable [[⟨"inc", by decide⟩], [⟨"lude", by decide⟩]])
        (samplePortable [[⟨"include", by decide⟩]]) := by
  refine ⟨by decide, by decide +kernel, by decide, ?_⟩
  intro hsame
  have hinfo := hsame.compilationInfo
  cases hinfo with
  | some h => exact absurd h.includePaths.length_eq (by decide)

end CodeStory.Indexer
