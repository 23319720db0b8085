import Mathlib.Data.List.Infix
import Mathlib.Data.List.Basic

/-!
# Unix paths

Paths as their segments, with the operations of `std::path` on them: the components, of which
`.` is one only at the front of a relative path, the parent, `push`, `join`, `strip_prefix` and
`ancestors`. `locate` is the place a path denotes where there are no symbolic links, from a
working directory, with `/..` the same as `/`; `reduce` is what is left of a sequence of
components when each `..` has taken back the name before it.
-/

set_option autoImplicit false

/-- A name that a directory entry can have. -/
def IsFileName (s : String) : Prop := s ≠ "" ∧ s ≠ "." ∧ s ≠ ".." ∧ '/' ∉ s.toList

instance (s : String) : Decidable (IsFileName s) :=
  inferInstanceAs (Decidable (s ≠ "" ∧ s ≠ "." ∧ s ≠ ".." ∧ '/' ∉ s.toList))

structure FileName where
  text : String
  valid : IsFileName text
  deriving DecidableEq

namespace UnixPath

inductive Segment where
  | cur
  | up
  | name (n : FileName)
  deriving DecidableEq

inductive Component where
  | rootDir
  | curDir
  | parentDir
  | normal (n : FileName)
  deriving DecidableEq

def Segment.component : Segment → Option Component
  | .cur => none
  | .up => some .parentDir
  | .name n => some (.normal n)

def Component.segment : Component → Option Segment
  | .rootDir => none
  | .curDir => some .cur
  | .parentDir => some .up
  | .normal n => some (.name n)

end UnixPath

/-- The segments between the separators of a path. -/
structure UnixPath where
  absolute : Bool
  segments : List UnixPath.Segment
  deriving DecidableEq

namespace UnixPath

def empty : UnixPath := ⟨false, []⟩

def components (p : UnixPath) : List Component :=
  if p.absolute then .rootDir :: p.segments.filterMap Segment.component
  else match p.segments with
    | .cur :: rest => .curDir :: rest.filterMap Segment.component
    | segments => segments.filterMap Segment.component

def ofComponents (cs : List Component) : UnixPath :=
  ⟨cs.head? = some .rootDir, cs.filterMap Component.segment⟩

def push (p : UnixPath) (c : Component) : UnixPath :=
  match c.segment with
  | none => ⟨true, []⟩
  | some segment => ⟨p.absolute, p.segments ++ [segment]⟩

def parent (p : UnixPath) : Option UnixPath :=
  match p.components.getLast? with
  | none => none
  | some .rootDir => none
  | some _ => some (ofComponents p.components.dropLast)

def join (p q : UnixPath) : UnixPath :=
  if q.absolute then q else ⟨p.absolute, p.segments ++ q.segments⟩

def stripPrefix (p base : UnixPath) : Option UnixPath :=
  if base.components <+: p.components then
    some (ofComponents (p.components.drop base.components.length))
  else none

def ancestorsFrom : Nat → UnixPath → List UnixPath
  | 0, p => [p]
  | fuel + 1, p =>
    p :: match p.parent with
      | none => []
      | some q => ancestorsFrom fuel q

/-- The path, its parent, the parent of that and so on. -/
def ancestors (p : UnixPath) : List UnixPath := ancestorsFrom p.components.length p

def Segment.text : Segment → String
  | .cur => "."
  | .up => ".."
  | .name n => n.text

/-- The path as it is written. -/
def text (p : UnixPath) : String :=
  (if p.absolute then "/" else "") ++ "/".intercalate (p.segments.map Segment.text)

def ofSegmentText (t : String) : Option Segment :=
  if t = "." then some .cur
  else if t = ".." then some .up
  else if h : IsFileName t then some (.name ⟨t, h⟩) else none

/-- `str::split` at the separators. -/
def splitText (s : String) : List String := (s.toList.splitOn '/').map String.ofList

/-- The path that a text is read as. -/
def ofText (s : String) : UnixPath :=
  ⟨s.toList.head? = some '/', (splitText s).filterMap ofSegmentText⟩

/-! ## The place a path denotes -/

def locateStep (place : List FileName) : Component → List FileName
  | .rootDir => []
  | .curDir => place
  | .parentDir => place.dropLast
  | .normal n => place ++ [n]

def locate (cwd : List FileName) (p : UnixPath) : List FileName := p.components.foldl locateStep cwd

/-- Levels climbed above the start, and the names that follow. -/
def reduceStep (state : Nat × List FileName) : Segment → Nat × List FileName
  | .cur => state
  | .up => if state.2 = [] then (state.1 + 1, []) else (state.1, state.2.dropLast)
  | .name n => (state.1, state.2 ++ [n])

def reduce (segments : List Segment) : Nat × List FileName := segments.foldl reduceStep (0, [])

/-- How far above its start a path leads. -/
def climb (p : UnixPath) : Nat := (reduce p.segments).1

def names (p : UnixPath) : List FileName := (reduce p.segments).2

/-- The levels of `..` segments, then the names. -/
def reduced (absolute : Bool) (levels : Nat) (names : List FileName) : UnixPath :=
  ⟨absolute, List.replicate levels .up ++ names.map .name⟩

/-- No `.` segments. -/
def Plain (p : UnixPath) : Prop := Segment.cur ∉ p.segments

/-! ## Folds over the components -/

section Fold
variable {β : Type} {f : β → Component → β}

theorem foldl_filterMap_component (segments : List Segment) (b : β) :
    (segments.filterMap Segment.component).foldl f b =
      segments.foldl (fun b segment => (segment.component).elim b (f b)) b := by
  induction segments generalizing b with
  | nil => rfl
  | cons segment rest ih =>
    cases segment with
    | cur => exact ih b
    | up => exact ih (f b .parentDir)
    | name n => exact ih (f b (.normal n))

/-- A fold to which `.` is nothing goes over the segments. -/
theorem foldl_components (hcur : ∀ b, f b .curDir = b) (p : UnixPath) (b : β) :
    p.components.foldl f b =
      p.segments.foldl (fun b segment => (segment.component).elim b (f b))
        (if p.absolute then f b .rootDir else b) := by
  obtain ⟨absolute, segments⟩ := p
  unfold components
  cases absolute with
  | true => exact foldl_filterMap_component segments (f b .rootDir)
  | false =>
    simp only [Bool.false_eq_true, if_false]
    split
    · rename_i rest
      rw [List.foldl_cons, hcur]
      exact foldl_filterMap_component rest b
    · exact foldl_filterMap_component segments b

end Fold

/-! ## Reduction -/

/-- What a component does to the levels and names before it. -/
def reduceComponent (state : Nat × List FileName) : Component → Nat × List FileName
  | .rootDir => state
  | .curDir => state
  | .parentDir => reduceStep state .up
  | .normal n => reduceStep state (.name n)

theorem foldl_reduceComponent (p : UnixPath) (state : Nat × List FileName) :
    p.components.foldl reduceComponent state = p.segments.foldl reduceStep state := by
  rw [foldl_components (fun _ => rfl)]
  have hstart : (if p.absolute = true then reduceComponent state .rootDir else state) = state :=
    ite_self _
  rw [hstart]
  congr 1
  funext state segment
  cases segment with
  | cur => rfl
  | up => rfl
  | name n => rfl

/-- The components say whether a path is absolute. -/
theorem absolute_iff (p : UnixPath) : p.absolute = true ↔ p.components.head? = some .rootDir := by
  obtain ⟨absolute, segments⟩ := p
  cases absolute with
  | true => exact iff_of_true rfl rfl
  | false =>
    refine iff_of_false (by simp) ?_
    have hsegments : ∀ segments : List Segment,
        (segments.filterMap Segment.component).head? ≠ some .rootDir := by
      intro segments hhead
      obtain ⟨segment, -, hsegment⟩ := List.mem_filterMap.mp (List.mem_of_head? hhead)
      cases segment with
      | cur | up | name n => simp [Segment.component] at hsegment
    unfold components
    simp only [Bool.false_eq_true, if_false]
    split
    · simp
    · exact hsegments segments

theorem absolute_eq_of_components {p q : UnixPath} (h : p.components = q.components) :
    p.absolute = q.absolute := by
  rw [Bool.eq_iff_iff, absolute_iff, absolute_iff, h]

theorem reduce_append (segments more : List Segment) :
    reduce (segments ++ more) = more.foldl reduceStep (reduce segments) :=
  List.foldl_append

/-- A run of `..` takes back the names and climbs with what is left of it. -/
theorem foldl_reduceStep_ups (levels : Nat) (state : Nat × List FileName) :
    (List.replicate levels Segment.up).foldl reduceStep state =
      (state.1 + (levels - state.2.length), state.2.take (state.2.length - levels)) := by
  induction levels generalizing state with
  | zero =>
    rw [Nat.zero_sub, Nat.sub_zero, List.take_length]
    rfl
  | succ levels ih =>
    obtain ⟨climbed, names⟩ := state
    rw [List.replicate_succ, List.foldl_cons, ih]
    by_cases hnames : names = []
    · subst hnames
      have hstep : reduceStep (climbed, []) .up = (climbed + 1, []) := rfl
      rw [hstep, Prod.mk.injEq]
      simp only [List.length_nil, List.take_nil, and_true]
      omega
    · have hstep : reduceStep (climbed, names) .up = (climbed, names.dropLast) := if_neg hnames
      have hpos : 0 < names.length := List.length_pos_iff.mpr hnames
      rw [hstep, Prod.mk.injEq]
      constructor
      · simp only [List.length_dropLast]
        omega
      · simp only [List.length_dropLast]
        rw [List.dropLast_eq_take, List.take_take]
        congr 1
        omega

theorem foldl_reduceStep_names (more : List FileName) (state : Nat × List FileName) :
    (more.map Segment.name).foldl reduceStep state = (state.1, state.2 ++ more) := by
  induction more generalizing state with
  | nil => simp
  | cons n more ih =>
    rw [List.map_cons, List.foldl_cons, ih]
    simp [reduceStep]

theorem reduce_reduced (absolute : Bool) (levels : Nat) (names : List FileName) :
    reduce (reduced absolute levels names).segments = (levels, names) := by
  unfold reduced
  rw [reduce_append]
  unfold reduce
  rw [foldl_reduceStep_ups, foldl_reduceStep_names]
  simp

theorem climb_reduced (absolute : Bool) (levels : Nat) (names : List FileName) :
    (reduced absolute levels names).climb = levels :=
  congrArg Prod.fst (reduce_reduced absolute levels names)

theorem names_reduced (absolute : Bool) (levels : Nat) (names : List FileName) :
    (reduced absolute levels names).names = names :=
  congrArg Prod.snd (reduce_reduced absolute levels names)

/-- The place from which the names of a path start. -/
def start (cwd : List FileName) (absolute : Bool) : List FileName :=
  if absolute then [] else cwd

theorem foldl_locate (base : List FileName) (segments : List Segment) (climbed : Nat)
    (names : List FileName) :
    segments.foldl (fun place segment => (segment.component).elim place (locateStep place))
        (base.take (base.length - climbed) ++ names) =
      base.take (base.length - (segments.foldl reduceStep (climbed, names)).1) ++
        (segments.foldl reduceStep (climbed, names)).2 := by
  induction segments generalizing climbed names with
  | nil => rfl
  | cons segment rest ih =>
    rw [List.foldl_cons, List.foldl_cons]
    cases segment with
    | cur => exact ih climbed names
    | name n =>
      have hstep : ((Segment.name n).component).elim (base.take (base.length - climbed) ++ names)
          (locateStep (base.take (base.length - climbed) ++ names)) =
          base.take (base.length - climbed) ++ (names ++ [n]) := List.append_assoc _ _ _
      rw [hstep]
      exact ih climbed (names ++ [n])
    | up =>
      have hstep : (Segment.up.component).elim (base.take (base.length - climbed) ++ names)
          (locateStep (base.take (base.length - climbed) ++ names)) =
          base.take (base.length - (reduceStep (climbed, names) .up).1) ++
            (reduceStep (climbed, names) .up).2 := by
        change (base.take (base.length - climbed) ++ names).dropLast = _
        by_cases hnames : names = []
        · subst hnames
          have hreduce : reduceStep (climbed, []) .up = (climbed + 1, []) := rfl
          rw [hreduce, List.append_nil, List.append_nil, List.dropLast_eq_take, List.take_take,
            List.length_take]
          congr 1
          omega
        · have hreduce : reduceStep (climbed, names) .up = (climbed, names.dropLast) :=
            if_neg hnames
          rw [hreduce, List.dropLast_append_of_ne_nil hnames]
      rw [hstep]
      exact ih _ _

/-- A path denotes the names it reduces to, above as many levels as it climbs. -/
theorem locate_eq (cwd : List FileName) (p : UnixPath) :
    p.locate cwd =
      (start cwd p.absolute).take ((start cwd p.absolute).length - p.climb) ++ p.names := by
  have hstart : (if p.absolute then locateStep cwd .rootDir else cwd) = start cwd p.absolute := rfl
  unfold locate
  rw [foldl_components (fun _ => rfl), hstart]
  have h := foldl_locate (start cwd p.absolute) p.segments 0 []
  rw [List.append_nil, Nat.sub_zero, List.take_length] at h
  exact h

/-- From an absolute path the working directory does not matter. -/
theorem locate_of_absolute {p : UnixPath} (h : p.absolute = true) (cwd : List FileName) :
    p.locate cwd = p.names := by
  rw [locate_eq, h]
  simp [start]

theorem locate_join (cwd : List FileName) (p q : UnixPath) (hq : q.absolute = false) :
    (p.join q).locate cwd =
      q.segments.foldl (fun place segment => (segment.component).elim place (locateStep place))
        (p.locate cwd) := by
  unfold join locate
  rw [if_neg (by simp [hq]), foldl_components (fun _ => rfl), foldl_components (fun _ => rfl),
    List.foldl_append]

/-! ## Paths without `.` -/

theorem plain_reduced (absolute : Bool) (levels : Nat) (names : List FileName) :
    (reduced absolute levels names).Plain := by
  intro h
  rcases List.mem_append.mp h with h | h
  · exact absurd (List.eq_of_mem_replicate h) (by decide)
  · obtain ⟨n, _, hn⟩ := List.mem_map.mp h
    exact absurd hn (by simp)

theorem components_plain {p : UnixPath} (hp : p.Plain) :
    p.components =
      (if p.absolute then [.rootDir] else []) ++ p.segments.filterMap Segment.component := by
  obtain ⟨absolute, segments⟩ := p
  unfold components
  cases absolute with
  | true => rfl
  | false =>
    simp only [Bool.false_eq_true, if_false, List.nil_append]
    split
    · exact absurd List.mem_cons_self hp
    · rfl

theorem component_of_ne_cur {segment : Segment} (h : segment ≠ .cur) :
    ∃ c, segment.component = some c ∧ c.segment = some segment ∧ c ≠ .rootDir := by
  cases segment with
  | cur => exact absurd rfl h
  | up => exact ⟨.parentDir, rfl, rfl, by decide⟩
  | name n => exact ⟨.normal n, rfl, rfl, by simp⟩

theorem filterMap_segment_component {segments : List Segment} (h : Segment.cur ∉ segments) :
    (segments.filterMap Segment.component).filterMap Component.segment = segments := by
  induction segments with
  | nil => rfl
  | cons segment rest ih =>
    obtain ⟨hne, hrest⟩ := not_or.mp (mt List.mem_cons.mpr h)
    obtain ⟨c, hc, hback, _⟩ := component_of_ne_cur (Ne.symm hne)
    rw [List.filterMap_cons_some hc, List.filterMap_cons_some hback, ih hrest]

theorem rootDir_not_mem (segments : List Segment) :
    Component.rootDir ∉ segments.filterMap Segment.component := by
  intro h
  obtain ⟨segment, _, hsegment⟩ := List.mem_filterMap.mp h
  cases segment with
  | cur => exact absurd hsegment (by decide)
  | up => exact absurd hsegment (by decide)
  | name n => exact absurd (Option.some.inj hsegment) (by simp)

theorem ofComponents_components {p : UnixPath} (hp : p.Plain) : ofComponents p.components = p := by
  obtain ⟨absolute, segments⟩ := p
  rw [components_plain hp]
  unfold ofComponents
  cases absolute with
  | true =>
    change UnixPath.mk true ((segments.filterMap Segment.component).filterMap Component.segment) = _
    rw [filterMap_segment_component hp]
  | false =>
    change UnixPath.mk (decide ((segments.filterMap Segment.component).head? = some .rootDir))
      ((segments.filterMap Segment.component).filterMap Component.segment) = _
    rw [filterMap_segment_component hp, decide_eq_false]
    intro h
    exact rootDir_not_mem segments (List.mem_of_mem_head? h)

theorem components_inj {p q : UnixPath} (hp : p.Plain) (hq : q.Plain)
    (h : p.components = q.components) : p = q := by
  rw [← ofComponents_components hp, h, ofComponents_components hq]

theorem filterMap_component_snoc {segments : List Segment} {last : Segment} (h : last ≠ .cur) :
    ∃ c, c ≠ Component.rootDir ∧ (segments ++ [last]).filterMap Segment.component =
      segments.filterMap Segment.component ++ [c] := by
  obtain ⟨c, hc, _, hroot⟩ := component_of_ne_cur h
  refine ⟨c, hroot, ?_⟩
  rw [List.filterMap_append, List.filterMap_cons_some hc, List.filterMap_nil]

theorem parent_snoc {absolute : Bool} {segments : List Segment} {last : Segment}
    (hp : (UnixPath.mk absolute (segments ++ [last])).Plain) :
    (UnixPath.mk absolute (segments ++ [last])).parent = some ⟨absolute, segments⟩ := by
  have hplain : (UnixPath.mk absolute segments).Plain :=
    fun h => hp (List.mem_append_left _ h)
  have hlast : last ≠ .cur := by
    rintro rfl
    exact hp (List.mem_append_right _ (List.mem_singleton.mpr rfl))
  obtain ⟨c, hroot, hc⟩ := filterMap_component_snoc hlast
  have hcomponents : (UnixPath.mk absolute (segments ++ [last])).components =
      (UnixPath.mk absolute segments).components ++ [c] := by
    rw [components_plain hp, components_plain hplain, hc, List.append_assoc]
  unfold parent
  rw [hcomponents, List.getLast?_concat, List.dropLast_concat, ofComponents_components hplain]
  cases c with
  | rootDir => exact absurd rfl hroot
  | curDir => rfl
  | parentDir => rfl
  | normal n => rfl

theorem parent_nil (absolute : Bool) : (UnixPath.mk absolute []).parent = none := by
  cases absolute with
  | true => rfl
  | false => rfl

/-- An ancestor of a path without `.` stops at one of its segments. -/
theorem mem_ancestorsFrom {fuel : Nat} {p q : UnixPath} (hp : p.Plain)
    (h : q ∈ ancestorsFrom fuel p) :
    q.absolute = p.absolute ∧ q.segments <+: p.segments := by
  induction fuel generalizing p with
  | zero =>
    obtain rfl := List.mem_singleton.mp h
    exact ⟨rfl, List.prefix_rfl⟩
  | succ fuel ih =>
    rcases List.mem_cons.mp h with rfl | h
    · exact ⟨rfl, List.prefix_rfl⟩
    · obtain ⟨absolute, segments⟩ := p
      rcases List.eq_nil_or_concat segments with rfl | ⟨front, last, rfl⟩
      · rw [parent_nil] at h
        exact absurd h List.not_mem_nil
      · rw [List.concat_eq_append] at hp h ⊢
        rw [parent_snoc hp] at h
        have hfront : (UnixPath.mk absolute front).Plain := fun hc => hp (List.mem_append_left _ hc)
        obtain ⟨habs, hsegs⟩ := ih hfront h
        exact ⟨habs, hsegs.trans (List.prefix_append _ _)⟩

theorem segments_prefix_of_components {p q : UnixPath} (hp : p.Plain) (hq : q.Plain)
    (habs : p.absolute = q.absolute) (h : q.components <+: p.components) :
    q.segments <+: p.segments := by
  rw [components_plain hp, components_plain hq, habs, List.prefix_append_right_inj] at h
  have hmap := h.filterMap Component.segment
  rwa [filterMap_segment_component hp, filterMap_segment_component hq] at hmap

/-- A front part of a reduced path has a front part of its names, and all of them only when it
is the whole path. -/
theorem names_of_prefix_reduced {absolute : Bool} {levels : Nat} {names : List FileName}
    {q : UnixPath} (h : q.segments <+: (reduced absolute levels names).segments) :
    q.names <+: names ∧
      (q.names = names → names ≠ [] → q.segments = (reduced absolute levels names).segments) := by
  have htake := List.prefix_iff_eq_take.mp h
  have hsplit : q.segments = (reduced absolute (min q.segments.length levels)
      (names.take (q.segments.length - levels))).segments := by
    conv_lhs => rw [htake]
    unfold reduced
    rw [List.take_append, List.take_replicate, List.length_replicate, List.map_take]
  have hnames : q.names = names.take (q.segments.length - levels) := by
    unfold UnixPath.names
    rw [hsplit, reduce_reduced]
    rw [← hsplit]
  refine ⟨hnames ▸ List.take_prefix _ _, ?_⟩
  intro hall hne
  have hlong : levels ≤ q.segments.length := by
    by_contra hshort
    rw [show q.segments.length - levels = 0 by omega, List.take_zero] at hnames
    exact hne (hall.symm.trans hnames)
  rw [hsplit, Nat.min_eq_right hlong, ← hnames, hall]

/-! ## Texts -/

theorem ofSegmentText_name (n : FileName) : ofSegmentText n.text = some (.name n) := by
  obtain ⟨hempty, hcur, hup, hslash⟩ := n.valid
  unfold ofSegmentText
  rw [if_neg hcur, if_neg hup, dif_pos n.valid]

theorem splitText_intercalate {texts : List String} (hne : texts ≠ [])
    (h : ∀ t ∈ texts, '/' ∉ t.toList) : splitText ("/".intercalate texts) = texts := by
  unfold splitText
  rw [String.toList_intercalate]
  have hslash : ∀ chars ∈ texts.map String.toList, '/' ∉ chars := by
    intro chars hchars
    obtain ⟨t, ht, rfl⟩ := List.mem_map.mp hchars
    exact h t ht
  have hsplit : (['/'].intercalate (texts.map String.toList)).splitOn '/' =
      texts.map String.toList :=
    List.splitOn_intercalate '/' hslash (by simpa using hne)
  change List.map String.ofList ((['/'].intercalate (texts.map String.toList)).splitOn '/') = texts
  rw [hsplit, List.map_map]
  simp [Function.comp_def]

/-- Texts joined by separators are split where each of them is. -/
theorem splitText_flatMap {texts : List String} (hne : texts ≠ []) :
    splitText ("/".intercalate texts) = texts.flatMap splitText := by
  induction texts with
  | nil => exact absurd rfl hne
  | cons t rest ih =>
    cases rest with
    | nil => simp
    | cons second rest =>
      have hsplit : splitText (t ++ "/" ++ "/".intercalate (second :: rest)) =
          splitText t ++ splitText ("/".intercalate (second :: rest)) := by
        have hlist : (t ++ "/" ++ "/".intercalate (second :: rest)).toList =
            t.toList ++ '/' :: ("/".intercalate (second :: rest)).toList := by
          rw [String.toList_append, String.toList_append, List.append_assoc]
          rfl
        unfold splitText
        rw [hlist, List.splitOn_append_cons_self, List.map_append]
      rw [String.intercalate_cons_cons, hsplit, ih (List.cons_ne_nil _ _)]
      rfl

/-- The texts between the separators hold no character that the whole does not. -/
theorem mem_of_mem_splitText {s t : String} (ht : t ∈ splitText s) {c : Char} (hc : c ∈ t.toList) :
    c ∈ s.toList := by
  obtain ⟨chars, hchars, rfl⟩ := List.mem_map.mp ht
  rw [String.toList_ofList] at hc
  have hmem : ∀ pieces : List (List Char), chars ∈ pieces → c ∈ ['/'].intercalate pieces := by
    intro pieces hpieces
    induction pieces with
    | nil => exact absurd hpieces List.not_mem_nil
    | cons first rest ih =>
      cases rest with
      | nil =>
        obtain rfl := List.mem_singleton.mp hpieces
        rw [List.intercalate_singleton]
        exact hc
      | cons second rest =>
        rw [List.intercalate_cons_cons]
        rcases List.mem_cons.mp hpieces with rfl | hrest
        · exact List.mem_append_left _ (List.mem_append_left _ hc)
        · exact List.mem_append_right _ (ih hrest)
  have hwhole := hmem _ hchars
  rw [List.intercalate_splitOn] at hwhole
  exact hwhole

theorem text_reduced (absolute : Bool) (names : List FileName) :
    (reduced absolute 0 names).text =
      (if absolute then "/" else "") ++ "/".intercalate (names.map FileName.text) := by
  unfold text reduced
  simp [Function.comp_def, Segment.text]

theorem splitText_names {names : List FileName} (h : names ≠ []) :
    splitText ("/".intercalate (names.map FileName.text)) = names.map FileName.text := by
  apply splitText_intercalate (by simpa using h)
  intro t ht
  obtain ⟨n, -, rfl⟩ := List.mem_map.mp ht
  exact n.valid.2.2.2

theorem filterMap_ofSegmentText (names : List FileName) :
    (names.map FileName.text).filterMap ofSegmentText = names.map .name := by
  induction names with
  | nil => rfl
  | cons n rest ih =>
    rw [List.map_cons, List.filterMap_cons, ofSegmentText_name, ih]
    rfl

theorem splitText_slash (s : String) : splitText ("/" ++ s) = "" :: splitText s := by
  have hlist : ("/" ++ s).toList = '/' :: s.toList := by
    rw [String.toList_append]
    rfl
  unfold splitText
  rw [hlist, List.splitOn_cons_eq_if_modifyHead, if_pos (beq_self_eq_true '/'), List.map_cons]

/-- Names joined by separators do not start with one. -/
theorem head_intercalate (names : List FileName) :
    ("/".intercalate (names.map FileName.text)).toList.head? ≠ some '/' := by
  cases names with
  | nil => simp
  | cons n rest =>
    obtain ⟨c, chars, hchars⟩ : ∃ c chars, n.text.toList = c :: chars := by
      apply List.exists_cons_of_ne_nil
      intro hnil
      exact n.valid.1 (String.toList_eq_nil_iff.mp hnil)
    have hhead : ("/".intercalate ((n :: rest).map FileName.text)).toList.head? = some c := by
      rw [String.toList_intercalate, List.map_cons, List.map_cons, hchars]
      cases rest with
      | nil => simp
      | cons m rest => simp
    rw [hhead]
    intro heq
    apply n.valid.2.2.2
    rw [hchars, Option.some.inj heq]
    exact List.mem_cons_self

/-- A path of names is read back from its text. -/
theorem ofText_text (absolute : Bool) (names : List FileName) :
    ofText (reduced absolute 0 names).text = reduced absolute 0 names := by
  have hsegments : (splitText ("/".intercalate (names.map FileName.text))).filterMap
      ofSegmentText = names.map .name := by
    by_cases hnames : names = []
    · subst hnames
      decide
    · rw [splitText_names hnames, filterMap_ofSegmentText]
  rw [text_reduced]
  unfold ofText reduced
  cases absolute with
  | true =>
    have hempty : ofSegmentText "" = none := by decide
    rw [if_pos rfl, splitText_slash, List.filterMap_cons, hempty, hsegments]
    simp
  | false =>
    have hhead := head_intercalate names
    simp only [Bool.false_eq_true, if_false, String.empty_append]
    rw [hsegments, decide_eq_false hhead]
    rfl

theorem text_injective {absolute absolute' : Bool} {names names' : List FileName}
    (h : (reduced absolute 0 names).text = (reduced absolute' 0 names').text) :
    reduced absolute 0 names = reduced absolute' 0 names' := by
  rw [← ofText_text, h, ofText_text]

end UnixPath
