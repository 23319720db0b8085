import CodeStory.Stdio.ProjectSessions
import Mathlib.Data.List.Induction

/-!
# Project sessions stay isolated

The contexts of a session are the records of the most recent projects of its history, each with the
state that its own requests left. It is assumed that a context is determined by the canonical root
of its project.
-/

set_option autoImplicit false

namespace CodeStory.Stdio

open Recency

variable {Key Path State Identity : Type} [DecidableEq Identity]

/-- Every path has an identity, and roots with one identity have one context. -/
structure DeterminedByRoot (identity : Path → Option Identity)
    (runtimeOf : Path → RuntimeContext Key Path) : Prop where
  identified : ∀ path, (identity path).isSome
  root : ∀ path, (runtimeOf path).projectRoot = path
  sameKey : ∀ path path', identity path = identity path' →
    (runtimeOf path).contextKey = (runtimeOf path').contextKey
  sameStorage : ∀ path path', identity path = identity path' →
    identity (runtimeOf path).storagePath = identity (runtimeOf path').storagePath

/-- The calls of this environment that make a context make that of the root. -/
def Environment.Genuine (runtimeOf : Path → RuntimeContext Key Path)
    (env : Environment Key Path) : Prop :=
  ∀ args candidate, env.newAgentSidecar args = .ok candidate → candidate = runtimeOf args.project

def Event.Genuine (runtimeOf : Path → RuntimeContext Key Path) : Event Key Path State → Prop
  | .select env _ => env.Genuine runtimeOf
  | .request _ => True

namespace StdioServerSession

variable {identity : Path → Option Identity} {runtimeOf : Path → RuntimeContext Key Path}
  {fresh : State}

section Eviction

theorem evict_eq (retained : List (StdioProjectSession Key Path State)) :
    evict retained = (retained.take (stdioProjectContextCapacity - 1),
      ((retained.drop (stdioProjectContextCapacity - 1)).map (·.runtime)).reverse) := by
  induction retained using List.reverseRecOn with
  | nil =>
    unfold evict
    exact dif_neg (Nat.not_succ_le_zero 3)
  | append_singleton retained last ih =>
    unfold evict
    split
    · rename_i hfull
      rw [List.length_append, List.length_singleton] at hfull
      have hroom : stdioProjectContextCapacity - 1 ≤ retained.length := by omega
      rw [List.dropLast_concat, ih, List.getLast?_concat]
      dsimp only
      rw [List.take_append_of_le_length hroom, List.drop_append_of_le_length hroom, List.map_append,
        List.reverse_append]
      rfl
    · rename_i hroom
      rw [List.take_of_length_le (by omega), List.drop_eq_nil_of_le (by omega)]
      rfl

end Eviction

/-! ## The invariant -/

/-- The identity of the root of a context. -/
def keyOf (identity : Path → Option Identity) (held : StdioProjectSession Key Path State) :
    Option Identity :=
  identity held.runtime.projectRoot

structure Represents (identity : Path → Option Identity)
    (runtimeOf : Path → RuntimeContext Key Path) (fresh : State)
    (session : StdioServerSession Key Path State)
    (history : List (Happening (Option Identity) State)) : Prop where
  keys : session.contexts.map (keyOf identity) = (recent history).take stdioProjectContextCapacity
  states : ∀ held ∈ session.contexts,
    ledger stdioProjectContextCapacity fresh history (keyOf identity held) = some held.state
  genuine : ∀ held ∈ session.contexts, held.runtime = runtimeOf held.runtime.projectRoot
  active : session.activeProject = none → session.retainedProjects = []

section Same

variable (hdet : DeterminedByRoot identity runtimeOf)

include hdet

theorem sameWorkspacePath_iff (path path' : Path) :
    sameWorkspacePath identity path path' = true ↔ identity path = identity path' := by
  obtain ⟨i, hi⟩ := Option.isSome_iff_exists.mp (hdet.identified path)
  obtain ⟨i', hi'⟩ := Option.isSome_iff_exists.mp (hdet.identified path')
  unfold sameWorkspacePath
  rw [hi, hi', Option.some.injEq]
  exact decide_eq_true_iff

theorem sameContext_iff [DecidableEq Key] (path path' : Path) :
    sameStdioProjectContext identity (runtimeOf path) (runtimeOf path') = true ↔
      identity path = identity path' := by
  unfold sameStdioProjectContext
  rw [Bool.and_eq_true, Bool.and_eq_true, sameWorkspacePath_iff hdet, sameWorkspacePath_iff hdet,
    hdet.root, hdet.root, decide_eq_true_iff]
  constructor
  · exact fun h => h.1.2
  · exact fun h => ⟨⟨hdet.sameKey path path' h, h⟩, hdet.sameStorage path path' h⟩

end Same

section Steps

variable {session : StdioServerSession Key Path State}
  {history : List (Happening (Option Identity) State)}

/-- What contexts look like that represent the history after a selection. -/
theorem represents_selected {session' : StdioServerSession Key Path State} {k : Option Identity}
    (h : Represents identity runtimeOf fresh session history)
    (hkeys : session'.contexts.map (keyOf identity) =
      (recent (.selected k :: history)).take stdioProjectContextCapacity)
    (hcontexts : ∀ held ∈ session'.contexts,
      (keyOf identity held = k ∧ held.runtime = runtimeOf held.runtime.projectRoot ∧
        held.state = (ledger stdioProjectContextCapacity fresh history k).getD fresh) ∨
      keyOf identity held ≠ k ∧ held ∈ session.contexts)
    (hactive : session'.activeProject ≠ none) :
    Represents identity runtimeOf fresh session' (.selected k :: history) where
  keys := hkeys
  states := by
    intro held hheld
    have hmem : keyOf identity held ∈
        (recent (.selected k :: history)).take stdioProjectContextCapacity := by
      rw [← hkeys]
      exact List.mem_map_of_mem hheld
    rcases hcontexts held hheld with ⟨rfl, -, hstate⟩ | ⟨hne, hold⟩
    · rw [ledger_selected, hstate]
    · rw [ledger_kept hne hmem]
      exact h.states held hold
  genuine := by
    intro held hheld
    rcases hcontexts held hheld with ⟨-, hgenuine, -⟩ | ⟨-, hold⟩
    · exact hgenuine
    · exact h.genuine held hold
  active := fun hnone => absurd hnone hactive

theorem keys_nodup (h : Represents identity runtimeOf fresh session history) :
    (session.contexts.map (keyOf identity)).Nodup := by
  rw [h.keys]
  exact (recent_nodup history).sublist (List.take_sublist _ _)

/-- A selected context stays in its place or moves to the front, and has its state already. -/
theorem represents_known {session' : StdioServerSession Key Path State}
    {held : StdioProjectSession Key Path State}
    {front back : List (StdioProjectSession Key Path State)}
    (h : Represents identity runtimeOf fresh session history)
    (hold : session.contexts = front ++ held :: back)
    (hnew : session'.contexts = held :: (front ++ back))
    (hactive : session'.activeProject ≠ none) :
    Represents identity runtimeOf fresh session' (.selected (keyOf identity held) :: history) := by
  have hmem : held ∈ session.contexts := by
    rw [hold]
    exact List.mem_append_right _ List.mem_cons_self
  have hnodup := keys_nodup h
  rw [hold, List.map_append, List.map_cons] at hnodup
  have hother : ∀ other ∈ front ++ back, keyOf identity other ≠ keyOf identity held := by
    intro other hother heq
    rw [List.nodup_append] at hnodup
    obtain ⟨-, hback, hdisjoint⟩ := hnodup
    rcases List.mem_append.mp hother with hmem | hmem
    · exact hdisjoint _ (List.mem_map_of_mem hmem) _ List.mem_cons_self heq
    · exact (List.nodup_cons.mp hback).1 (heq ▸ List.mem_map_of_mem hmem)
  apply represents_selected h _ _ hactive
  · have hknown : keyOf identity held ∈ (recent history).take (3 + 1) := by
      have hkeys := h.keys
      unfold stdioProjectContextCapacity at hkeys
      rw [← hkeys]
      exact List.mem_map_of_mem hmem
    have hkeys := h.keys
    unfold stdioProjectContextCapacity at hkeys ⊢
    rw [take_recent_known hknown, ← hkeys, hold, hnew, List.map_cons]
    have hfilter : ((front ++ held :: back).map (keyOf identity)).filter
        (· ≠ keyOf identity held) =
        ((front ++ back).map (keyOf identity)).filter (· ≠ keyOf identity held) := by
      rw [List.map_append, List.map_cons, List.filter_append, List.filter_cons_of_neg (by simp),
        ← List.filter_append, ← List.map_append]
    rw [hfilter]
    congr 1
    symm
    apply List.filter_eq_self.mpr
    intro k hk
    obtain ⟨other, hmem, rfl⟩ := List.mem_map.mp hk
    exact decide_eq_true (hother other hmem)
  · intro other hmem'
    rw [hnew] at hmem'
    rcases List.mem_cons.mp hmem' with rfl | hmem'
    · refine .inl ⟨rfl, h.genuine _ hmem, ?_⟩
      rw [h.states _ hmem]
      rfl
    · refine .inr ⟨hother other hmem', ?_⟩
      rw [hold]
      rcases List.mem_append.mp hmem' with hmem' | hmem'
      · exact List.mem_append_left _ hmem'
      · exact List.mem_append_right _ (List.mem_cons_of_mem _ hmem')

/-- A new context comes to the front, and only the most recent ones stay behind it. -/
theorem represents_new {session' : StdioServerSession Key Path State} {root : Path}
    (hdet : DeterminedByRoot identity runtimeOf)
    (h : Represents identity runtimeOf fresh session history)
    (habsent : ∀ held ∈ session.contexts, keyOf identity held ≠ identity root)
    (hnew : session'.contexts =
      ⟨runtimeOf root, fresh⟩ :: session.contexts.take (stdioProjectContextCapacity - 1))
    (hactive : session'.activeProject ≠ none) :
    Represents identity runtimeOf fresh session' (.selected (identity root) :: history) := by
  have hkey : keyOf identity (⟨runtimeOf root, fresh⟩ : StdioProjectSession Key Path State) =
      identity root := congrArg identity (hdet.root root)
  have hunknown : identity root ∉ (recent history).take (3 + 1) := by
    have hkeys := h.keys
    unfold stdioProjectContextCapacity at hkeys
    rw [← hkeys]
    intro hmem
    obtain ⟨held, hheld, heq⟩ := List.mem_map.mp hmem
    exact habsent held hheld heq
  have htake : ((recent history).take (3 + 1)).take 3 = (recent history).take 3 := by
    rw [List.take_take]
    rfl
  apply represents_selected h _ _ hactive
  · have hkeys := h.keys
    unfold stdioProjectContextCapacity at hkeys hnew ⊢
    rw [take_recent_new hunknown, hnew, List.map_cons, hkey, List.map_take, hkeys]
    exact congrArg _ htake
  · intro held hheld
    rw [hnew] at hheld
    rcases List.mem_cons.mp hheld with rfl | hheld
    · have hnone : ledger stdioProjectContextCapacity fresh history (identity root) = none :=
        ledger_eq_none hunknown
      refine .inl ⟨hkey, ?_, ?_⟩
      · dsimp only
        rw [hdet.root]
      · rw [hnone]
        rfl
    · have hmem := List.mem_of_mem_take hheld
      exact .inr ⟨habsent held hmem, hmem⟩

end Steps

/-! ## Selections -/

/-- Nothing is cancelled and all contexts stay, or the last context leaves and is cancelled. -/
def Evicts (identity : Path → Option Identity)
    (before after : List (StdioProjectSession Key Path State))
    (cancelled : List (RuntimeContext Key Path)) : Prop :=
  (cancelled = [] ∧ ∀ held ∈ before, held ∈ after) ∨
    ∃ kept last, before = kept ++ [last] ∧ cancelled = [last.runtime] ∧
      (∀ held ∈ kept, held ∈ after) ∧ ∀ held ∈ after, keyOf identity held ≠ keyOf identity last

section Adopt

variable [DecidableEq Key] {session : StdioServerSession Key Path State}
  {history : List (Happening (Option Identity) State)} {root : Path}
  (hdet : DeterminedByRoot identity runtimeOf)
  (h : Represents identity runtimeOf fresh session history)

/-- What a selection achieves that has a context for the root. -/
structure Selects (identity : Path → Option Identity)
    (runtimeOf : Path → RuntimeContext Key Path) (fresh : State)
    (session : StdioServerSession Key Path State)
    (history : List (Happening (Option Identity) State)) (root : Path)
    (selection : Selection Key Path State) : Prop where
  represents : Represents identity runtimeOf fresh selection.session
    (.selected (identity root) :: history)
  active : ∃ held, selection.session.activeProject = some held ∧
    keyOf identity held = identity root
  evicts : Evicts identity session.contexts selection.session.contexts selection.cancelled

include hdet h

theorem same_iff {held : StdioProjectSession Key Path State} (hheld : held ∈ session.contexts)
    (root : Path) : sameStdioProjectContext identity held.runtime (runtimeOf root) = true ↔
      keyOf identity held = identity root := by
  rw [h.genuine held hheld, sameContext_iff hdet]
  rfl

omit [DecidableEq Key] hdet in
theorem selects_unchanged {held : StdioProjectSession Key Path State}
    (hactive : session.activeProject = some held) (hkey : keyOf identity held = identity root) :
    Selects identity runtimeOf fresh session history root (session.unchanged (.ok ())) := by
  have hcontexts : session.contexts = held :: ([] ++ session.retainedProjects) := by
    unfold contexts
    rw [hactive]
    rfl
  have hne : session.activeProject ≠ none := by
    rw [hactive]
    exact Option.some_ne_none _
  refine ⟨?_, ⟨held, hactive, hkey⟩, .inl ⟨rfl, fun _ hmem => hmem⟩⟩
  have hold : session.contexts = [] ++ held :: session.retainedProjects := hcontexts
  have hrep := represents_known h hold hcontexts hne
  rw [hkey] at hrep
  exact hrep

omit [DecidableEq Key] hdet in
theorem selects_retained {held : StdioProjectSession Key Path State} {position : Nat}
    (hposition : session.retainedProjects[position]? = some held)
    (hkey : keyOf identity held = identity root) :
    Selects identity runtimeOf fresh session history root
      ⟨.ok (), { session with
        activeProject := session.retainedProjects[position]?
        retainedProjects :=
          session.activeProject.toList ++ session.retainedProjects.eraseIdx position }, []⟩ := by
  obtain ⟨hlt, hget⟩ := List.getElem?_eq_some_iff.mp hposition
  have hretained : session.retainedProjects =
      session.retainedProjects.take position ++
        held :: session.retainedProjects.drop (position + 1) := by
    rw [← hget, List.cons_getElem_drop_succ, List.take_append_drop]
  have hold : session.contexts =
      (session.activeProject.toList ++ session.retainedProjects.take position) ++
        held :: session.retainedProjects.drop (position + 1) := by
    unfold contexts
    rw [List.append_assoc, ← hretained]
  have hnew : contexts { session with
        activeProject := session.retainedProjects[position]?
        retainedProjects :=
          session.activeProject.toList ++ session.retainedProjects.eraseIdx position } =
      held :: ((session.activeProject.toList ++ session.retainedProjects.take position) ++
        session.retainedProjects.drop (position + 1)) := by
    unfold contexts
    dsimp only
    rw [hposition, List.eraseIdx_eq_take_drop_succ, List.append_assoc]
    rfl
  refine ⟨?_, ⟨held, hposition, hkey⟩, .inl ⟨rfl, fun other hmem => ?_⟩⟩
  · have hne : session.retainedProjects[position]? ≠ none := by
      rw [hposition]
      exact Option.some_ne_none _
    have hrep := represents_known h hold hnew hne
    rw [hkey] at hrep
    exact hrep
  · dsimp only
    rw [hnew]
    rw [hold] at hmem
    rcases List.mem_append.mp hmem with hmem | hmem
    · exact List.mem_cons_of_mem _ (List.mem_append_left _ hmem)
    · rcases List.mem_cons.mp hmem with rfl | hmem
      · exact List.mem_cons_self
      · exact List.mem_cons_of_mem _ (List.mem_append_right _ hmem)

omit [DecidableEq Key] in
theorem selects_new (habsent : ∀ held ∈ session.contexts, keyOf identity held ≠ identity root) :
    Selects identity runtimeOf fresh session history root
      ⟨.ok (), { session with
        activeProject := some ⟨runtimeOf root, fresh⟩
        retainedProjects := (evict session.contexts).1 }, (evict session.contexts).2⟩ := by
  rw [evict_eq]
  refine ⟨?_, ⟨_, rfl, congrArg identity (hdet.root root)⟩, ?_⟩
  · exact represents_new hdet h habsent rfl (Option.some_ne_none _)
  · have hlength : session.contexts.length ≤ 4 := by
      have hkeys := congrArg List.length h.keys
      rw [List.length_map, List.length_take] at hkeys
      unfold stdioProjectContextCapacity at hkeys
      omega
    unfold stdioProjectContextCapacity
    dsimp only [Nat.add_one_sub_one]
    by_cases hroom : session.contexts.length ≤ 3
    · refine .inl ⟨?_, fun held hmem => ?_⟩
      · rw [List.drop_eq_nil_of_le hroom]
        rfl
      · refine List.mem_cons_of_mem _ ?_
        rw [List.take_of_length_le hroom]
        exact hmem
    · have hfull : session.contexts.length = 3 + 1 := by omega
      have hdrop : (session.contexts.drop 3).length = 1 := by
        rw [List.length_drop]
        omega
      obtain ⟨last, hlast⟩ := List.length_eq_one_iff.mp hdrop
      have hsplit : session.contexts = session.contexts.take 3 ++ [last] := by
        rw [← hlast, List.take_append_drop]
      refine .inr ⟨session.contexts.take 3, last, hsplit, ?_, ?_, ?_⟩
      · rw [hlast]
        rfl
      · exact fun held hmem => List.mem_cons_of_mem _ hmem
      · intro held hmem
        have hlastMem : last ∈ session.contexts := by
          rw [hsplit]
          exact List.mem_append_right _ List.mem_cons_self
        rcases List.mem_cons.mp hmem with rfl | hmem
        · have hkey : keyOf identity
              (⟨runtimeOf root, fresh⟩ : StdioProjectSession Key Path State) = identity root :=
            congrArg identity (hdet.root root)
          rw [hkey]
          exact (habsent last hlastMem).symm
        · have hnodup := keys_nodup h
          rw [hsplit, List.map_append, List.nodup_append] at hnodup
          exact hnodup.2.2 _ (List.mem_map_of_mem hmem) _ List.mem_cons_self

theorem adopt_selects :
    Selects identity runtimeOf fresh session history root
      (session.adopt identity fresh (runtimeOf root)) := by
  have hactive : ∀ held, session.activeProject = some held → held ∈ session.contexts := by
    intro held hheld
    unfold contexts
    rw [hheld]
    exact List.mem_cons_self
  have hretained : ∀ held ∈ session.retainedProjects, held ∈ session.contexts := fun held hmem =>
    List.mem_append_right _ hmem
  unfold adopt
  by_cases hany : session.activeProject.any
      (sameStdioProjectContext identity ·.runtime (runtimeOf root)) = true
  · rw [if_pos hany]
    obtain ⟨held, hheld, hsame⟩ := (Option.any_eq_true _ _).mp hany
    exact selects_unchanged h hheld ((same_iff hdet h (hactive held hheld) root).mp hsame)
  · rw [if_neg hany]
    cases hfind : session.retainedProjects.findIdx?
        (sameStdioProjectContext identity ·.runtime (runtimeOf root)) with
    | some position =>
      obtain ⟨hlt, hsame, -⟩ := List.findIdx?_eq_some_iff_getElem.mp hfind
      have hmem := hretained _ (List.getElem_mem hlt)
      exact selects_retained h (List.getElem?_eq_getElem hlt)
        ((same_iff hdet h hmem root).mp hsame)
    | none =>
      refine selects_new hdet h fun held hmem hkey => ?_
      have hsame := (same_iff hdet h hmem root).mpr hkey
      rcases List.mem_append.mp hmem with hmem | hmem
      · exact hany ((Option.any_eq_true _ _).mpr ⟨held, Option.mem_toList.mp hmem, hsame⟩)
      · rw [List.findIdx?_eq_none_iff.mp hfind held hmem] at hsame
        cases hsame

end Adopt

section Select

variable [DecidableEq Key] {session : StdioServerSession Key Path State}
  {history : List (Happening (Option Identity) State)} {env : Environment Key Path}

theorem selectProject_none : (session.selectProject identity fresh env none).session = session ∧
    (session.selectProject identity fresh env none).cancelled = [] := by
  unfold selectProject
  dsimp only
  split
  · exact ⟨rfl, rfl⟩
  · exact ⟨rfl, rfl⟩

theorem adopt_result (candidate : RuntimeContext Key Path) :
    (session.adopt identity fresh candidate).result = .ok () := by
  unfold adopt
  split
  · rfl
  · split <;> rfl

/-- An absolute project whose root and runtime are found is selected. -/
theorem selectProject_succeeds {project : String} {root : Path}
    {candidate : RuntimeContext Key Path} (habsolute : project.toList.head? = some '/')
    (hroot : env.canonicalizeProjectRoot project = .ok root)
    (hcandidate : env.newAgentSidecar ⟨root, session.stdioCacheRoot.map
      (env.join · (env.workspaceIdV3ForRoot root))⟩ = .ok candidate) :
    (session.selectProject identity fresh env (some project)).result = .ok () := by
  unfold selectProject
  dsimp only
  rw [if_neg (not_not.mpr habsolute), hroot]
  dsimp only
  split
  · rfl
  · rw [hcandidate]
    exact adopt_result candidate

/-- A call fails before it touches the session. -/
theorem selectProject_error {project : Option String} {error : String}
    (h : (session.selectProject identity fresh env project).result = .error error) :
    (session.selectProject identity fresh env project).session = session ∧
      (session.selectProject identity fresh env project).cancelled = [] := by
  cases project with
  | none => exact selectProject_none
  | some project =>
    unfold selectProject at h ⊢
    dsimp only at h ⊢
    split
    · exact ⟨rfl, rfl⟩
    · rename_i habsolute
      rw [if_neg habsolute] at h
      split
      · exact ⟨rfl, rfl⟩
      · rename_i root hroot
        rw [hroot] at h
        dsimp only at h
        split
        · exact ⟨rfl, rfl⟩
        · rename_i hsame
          rw [if_neg hsame] at h
          split
          · exact ⟨rfl, rfl⟩
          · rename_i candidate hcandidate
            rw [hcandidate] at h
            cases (adopt_result candidate).symm.trans h

theorem selectProject_ok (hdet : DeterminedByRoot identity runtimeOf)
    (h : Represents identity runtimeOf fresh session history) (henv : env.Genuine runtimeOf)
    {project : String}
    (hok : (session.selectProject identity fresh env (some project)).result = .ok ()) :
    ∃ root, env.canonicalizeProjectRoot project = .ok root ∧
      Selects identity runtimeOf fresh session history root
        (session.selectProject identity fresh env (some project)) := by
  unfold selectProject at hok ⊢
  dsimp only at hok ⊢
  split
  · rename_i hrelative
    rw [if_pos hrelative] at hok
    cases hok
  · rename_i habsolute
    rw [if_neg habsolute] at hok
    cases hroot : env.canonicalizeProjectRoot project with
    | error error =>
      rw [hroot] at hok
      cases hok
    | ok root =>
      rw [hroot] at hok
      dsimp only at hok ⊢
      refine ⟨root, rfl, ?_⟩
      split
      · rename_i hsame
        obtain ⟨held, hheld, hpath⟩ := (Option.any_eq_true _ _).mp (Bool.and_eq_true_iff.mp hsame).2
        exact selects_unchanged h hheld ((sameWorkspacePath_iff hdet _ _).mp hpath)
      · rename_i hsame
        rw [if_neg hsame] at hok
        split
        · rename_i error herror
          rw [herror] at hok
          cases hok
        · rename_i candidate hcandidate
          rw [henv _ _ hcandidate]
          exact adopt_selects hdet h

end Select

/-! ## Requests -/

section Request

variable {session : StdioServerSession Key Path State}
  {history : List (Happening (Option Identity) State)} {change : State → State}

theorem contexts_request {held : StdioProjectSession Key Path State}
    (hactive : session.activeProject = some held) :
    (session.request change).contexts =
      { held with state := change held.state } :: session.retainedProjects := by
  unfold contexts request
  rw [hactive]
  rfl

theorem request_inactive (hnone : session.activeProject = none) :
    session.request change = session := by
  unfold request
  rw [hnone]
  cases session with
  | mk activeProject retainedProjects projectRequired stdioCacheRoot =>
    obtain rfl : activeProject = none := hnone
    rfl

theorem represents_request (h : Represents identity runtimeOf fresh session history) :
    Represents identity runtimeOf fresh (session.request change)
      (.requested change :: history) := by
  cases hactive : session.activeProject with
  | none =>
    have hempty : session.contexts = [] := by
      unfold contexts
      rw [hactive, h.active hactive]
      rfl
    rw [request_inactive hactive]
    refine ⟨h.keys, fun held hmem => ?_, h.genuine, h.active⟩
    rw [hempty] at hmem
    exact absurd hmem List.not_mem_nil
  | some held =>
    have hold : session.contexts = held :: session.retainedProjects := by
      unfold contexts
      rw [hactive]
      rfl
    have hcurrent : current history = some (keyOf identity held) := by
      have hhead := congrArg List.head? h.keys
      rw [hold, List.map_cons, List.head?_cons, List.head?_take, if_neg (by decide),
        head?_recent] at hhead
      exact hhead.symm
    have hnodup := keys_nodup h
    rw [hold, List.map_cons, List.nodup_cons] at hnodup
    refine ⟨?_, ?_, ?_, ?_⟩
    · have hkeys := h.keys
      rw [hold] at hkeys
      rw [contexts_request hactive]
      exact hkeys
    · intro other hmem
      rw [contexts_request hactive] at hmem
      unfold ledger
      rcases List.mem_cons.mp hmem with rfl | hmem
      · have hstate := h.states held (by rw [hold]; exact List.mem_cons_self)
        have hkey : keyOf identity { held with state := change held.state } =
            keyOf identity held := rfl
        rw [hkey, if_pos hcurrent, hstate]
        rfl
      · have hne : ¬ current history = some (keyOf identity other) := by
          rw [hcurrent, Option.some.injEq]
          intro heq
          exact hnodup.1 (heq ▸ List.mem_map_of_mem hmem)
        rw [if_neg hne]
        exact h.states other (by rw [hold]; exact List.mem_cons_of_mem _ hmem)
    · intro other hmem
      rw [contexts_request hactive] at hmem
      rcases List.mem_cons.mp hmem with rfl | hmem
      · exact h.genuine held (by rw [hold]; exact List.mem_cons_self)
      · exact h.genuine other (by rw [hold]; exact List.mem_cons_of_mem _ hmem)
    · intro hnone
      unfold request at hnone
      rw [hactive] at hnone
      cases hnone

end Request

end StdioServerSession

/-! ## Runs -/

open StdioServerSession

section Runs

variable [DecidableEq Key] {identity : Path → Option Identity}
  {runtimeOf : Path → RuntimeContext Key Path} {fresh : State}

omit [DecidableEq Key] in
theorem represents_new_session (hdet : DeterminedByRoot identity runtimeOf)
    (initial : Option Path) (stdioCacheRoot : Option Path) :
    Represents identity runtimeOf fresh
      (StdioServerSession.new fresh (initial.map runtimeOf) stdioCacheRoot)
      (initial.toList.map fun root => .selected (identity root)) := by
  cases initial with
  | none => exact ⟨rfl, fun _ h => absurd h List.not_mem_nil, fun _ h => absurd h List.not_mem_nil,
      fun _ => rfl⟩
  | some root =>
    have hempty : Represents identity runtimeOf fresh
        (StdioServerSession.new fresh none stdioCacheRoot) [] :=
      ⟨rfl, fun _ h => absurd h List.not_mem_nil, fun _ h => absurd h List.not_mem_nil,
        fun _ => rfl⟩
    exact represents_new hdet hempty (fun _ h => absurd h List.not_mem_nil) rfl
      (Option.some_ne_none _)

theorem represents_step (hdet : DeterminedByRoot identity runtimeOf)
    {session : StdioServerSession Key Path State}
    {history : List (Happening (Option Identity) State)}
    (h : Represents identity runtimeOf fresh session history) {event : Event Key Path State}
    (hevent : event.Genuine runtimeOf) :
    Represents identity runtimeOf fresh (event.step identity fresh session)
      (event.happened identity fresh session ++ history) := by
  cases event with
  | request change => exact represents_request h
  | select env project =>
    change Represents identity runtimeOf fresh
      (session.selectProject identity fresh env project).session _
    unfold Event.happened
    dsimp only
    cases hresult : (session.selectProject identity fresh env project).result with
    | error error =>
      rw [(selectProject_error hresult).1]
      exact h
    | ok done =>
      cases project with
      | none =>
        rw [selectProject_none.1]
        exact h
      | some project =>
        obtain ⟨root, hroot, hselects⟩ := selectProject_ok hdet h hevent hresult
        dsimp only
        rw [hroot]
        exact hselects.represents

theorem represents_run (hdet : DeterminedByRoot identity runtimeOf)
    {events : List (Event Key Path State)} (hevents : ∀ event ∈ events, event.Genuine runtimeOf)
    {session : StdioServerSession Key Path State}
    {history : List (Happening (Option Identity) State)}
    (h : Represents identity runtimeOf fresh session history) :
    Represents identity runtimeOf fresh (Event.run identity fresh session history events).1
      (Event.run identity fresh session history events).2 := by
  induction events generalizing session history with
  | nil => exact h
  | cons event events ih =>
    exact ih (fun later hlater => hevents later (List.mem_cons_of_mem _ hlater))
      (represents_step hdet h (hevents event List.mem_cons_self))

variable (fresh) in
/-- In every state of every run: the contexts are of different projects and at most as many as the
capacity, they are those of the most recent projects with the states their own requests left, a
selection that finds its root and its runtime succeeds, one that fails changes nothing, the last
context alone is cancelled, when it leaves, and a request changes the active context only. -/
theorem sessions_stay_isolated (hdet : DeterminedByRoot identity runtimeOf)
    (initial stdioCacheRoot : Option Path) (events : List (Event Key Path State))
    (hevents : ∀ event ∈ events, event.Genuine runtimeOf) :
    let (session, history) := Event.run identity fresh
      (StdioServerSession.new fresh (initial.map runtimeOf) stdioCacheRoot)
      (initial.toList.map fun root => .selected (identity root)) events
    session.contexts.Pairwise
        (fun left right => sameStdioProjectContext identity left.runtime right.runtime = false) ∧
      session.contexts.length ≤ stdioProjectContextCapacity ∧
      session.contexts.map (keyOf identity) =
        (recent history).take stdioProjectContextCapacity ∧
      (∀ held ∈ session.contexts,
        ledger stdioProjectContextCapacity fresh history (keyOf identity held) =
          some held.state) ∧
      (∀ (env : Environment Key Path) project, env.Genuine runtimeOf →
        let selection := session.selectProject identity fresh env project
        (∀ error, selection.result = .error error →
          selection.session = session ∧ selection.cancelled = []) ∧
        (project = none → selection.session = session) ∧
        (∀ p root candidate, project = some p → p.toList.head? = some '/' →
          env.canonicalizeProjectRoot p = .ok root →
          env.newAgentSidecar ⟨root, session.stdioCacheRoot.map
            (env.join · (env.workspaceIdV3ForRoot root))⟩ = .ok candidate →
          selection.result = .ok ()) ∧
        (∀ p, project = some p → selection.result = .ok () → ∃ root held,
          env.canonicalizeProjectRoot p = .ok root ∧
          selection.session.activeProject = some held ∧
          sameStdioProjectContext identity held.runtime (runtimeOf root) = true) ∧
        Evicts identity session.contexts selection.session.contexts selection.cancelled) ∧
      ∀ change, ∀ held ∈ session.contexts, session.activeProject ≠ some held →
        held ∈ (session.request change).contexts := by
  have hstart : Represents identity runtimeOf fresh
      (StdioServerSession.new fresh (initial.map runtimeOf) stdioCacheRoot)
      (initial.toList.map fun root => .selected (identity root)) :=
    represents_new_session hdet initial stdioCacheRoot
  have h := represents_run hdet hevents hstart
  revert h
  generalize Event.run identity fresh
    (StdioServerSession.new fresh (initial.map runtimeOf) stdioCacheRoot)
    (initial.toList.map fun root => .selected (identity root)) events = reached
  obtain ⟨session, history⟩ := reached
  intro h
  dsimp only at h ⊢
  have hnodup := keys_nodup h
  refine ⟨?_, ?_, h.keys, h.states, ?_, ?_⟩
  · rw [List.Nodup, List.pairwise_map] at hnodup
    refine hnodup.imp_of_mem ?_
    intro left right hleft hright hne
    rw [h.genuine right hright, ← Bool.not_eq_true, same_iff hdet h hleft]
    exact hne
  · have hkeys := congrArg List.length h.keys
    rw [List.length_map, List.length_take] at hkeys
    omega
  · intro env project henv
    refine ⟨fun error herror => selectProject_error herror, ?_, ?_, ?_, ?_⟩
    · rintro rfl
      exact selectProject_none.1
    · rintro p root candidate rfl habsolute hroot hcandidate
      exact selectProject_succeeds habsolute hroot hcandidate
    · rintro p rfl hok
      obtain ⟨root, hroot, hselects⟩ := selectProject_ok hdet h henv hok
      obtain ⟨held, hheld, hkey⟩ := hselects.active
      have hmem : held ∈
          (session.selectProject identity fresh env (some p)).session.contexts := by
        unfold contexts
        rw [hheld]
        exact List.mem_cons_self
      exact ⟨root, held, hroot, hheld, (same_iff hdet hselects.represents hmem root).mpr hkey⟩
    · cases hresult : (session.selectProject identity fresh env project).result with
      | error error =>
        obtain ⟨hsession, hcancelled⟩ := selectProject_error hresult
        rw [hsession, hcancelled]
        exact .inl ⟨rfl, fun _ hmem => hmem⟩
      | ok done =>
        cases project with
        | none =>
          rw [selectProject_none.1, selectProject_none.2]
          exact .inl ⟨rfl, fun _ hmem => hmem⟩
        | some p =>
          obtain ⟨root, -, hselects⟩ := selectProject_ok hdet h henv hresult
          exact hselects.evicts
  · intro change held hmem hother
    rcases List.mem_append.mp hmem with hmem | hmem
    · exact absurd (Option.mem_toList.mp hmem) hother
    · exact List.mem_append_right _ hmem

end Runs

/-- Paths that are their own identities. -/
def plainRuntime (root : String) : RuntimeContext Unit String := ⟨(), root, root⟩

def plainEnvironment : Environment Unit String where
  canonicalizeProjectRoot := .ok
  workspaceIdV3ForRoot := id
  join := fun root name => root ++ "/" ++ name
  newAgentSidecar := fun args => .ok (plainRuntime args.project)

def visits : List (Event Unit String Nat) :=
  [.select plainEnvironment (some "/a"), .request (· + 1), .select plainEnvironment (some "/b"),
    .select plainEnvironment (some "/c"), .request (· + 2), .select plainEnvironment (some "/a"),
    .select plainEnvironment none, .select plainEnvironment (some "/d"),
    .select plainEnvironment (some "/e")]

/-- A project that is selected again has its state, and the fifth one takes the place of the one
that was left first. -/
theorem visits_stay_isolated :
    let session := (Event.run some 0 (StdioServerSession.new 0 none none) [] visits).1
    session.contexts = [⟨plainRuntime "/e", 0⟩, ⟨plainRuntime "/d", 0⟩, ⟨plainRuntime "/a", 1⟩,
        ⟨plainRuntime "/c", 2⟩] ∧
      session.contexts.Pairwise
        (fun left right => sameStdioProjectContext some left.runtime right.runtime = false) ∧
      (session.selectProject some 0 plainEnvironment (some "/b")).result = .ok () := by
  have hdet : DeterminedByRoot (some : String → Option String) plainRuntime := by
    refine ⟨fun _ => rfl, fun _ => rfl, fun _ _ _ => rfl, ?_⟩
    intro path path' h
    exact h
  have hgenuine : plainEnvironment.Genuine plainRuntime := by
    intro args candidate h
    exact (Except.ok.inj h).symm
  have hevents : ∀ event ∈ visits, event.Genuine plainRuntime := by
    intro event hmem
    unfold visits at hmem
    cases event with
    | request change => trivial
    | select env project =>
      obtain rfl : env = plainEnvironment := by
        simp at hmem
        tauto
      exact hgenuine
  have h := sessions_stay_isolated 0 hdet none none visits hevents
  obtain ⟨-, -, hsucceeds, -⟩ := h.2.2.2.2.1 plainEnvironment (some "/b") hgenuine
  exact ⟨by decide +kernel, h.1, hsucceeds "/b" "/b" _ rfl (by decide) rfl rfl⟩

end CodeStory.Stdio
