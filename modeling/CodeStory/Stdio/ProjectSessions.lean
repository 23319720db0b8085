import CodeStory.Lib.Recency

/-!
# Project sessions

`StdioServerSession`: one active project context and those that are retained, most recently active
first. Paths, their identities and the keys of contexts are types of their own, since the file
system and the runtime decide about them; what one call finds there is its environment. The services
of a context are left out but for the activations that are cancelled.
-/

set_option autoImplicit false

namespace CodeStory.Stdio

open Recency

def stdioProjectContextCapacity : Nat := 4

structure RuntimeContext (Key Path : Type) where
  contextKey : Key
  projectRoot : Path
  storagePath : Path
  deriving DecidableEq

structure StdioProjectSession (Key Path State : Type) where
  runtime : RuntimeContext Key Path
  state : State
  deriving DecidableEq

structure StdioServerSession (Key Path State : Type) where
  activeProject : Option (StdioProjectSession Key Path State)
  retainedProjects : List (StdioProjectSession Key Path State)
  projectRequired : Bool
  stdioCacheRoot : Option Path
  deriving DecidableEq

structure ProjectArgs (Path : Type) where
  project : Path
  cacheDir : Option Path

/-- What one call finds outside of the session. -/
structure Environment (Key Path : Type) where
  canonicalizeProjectRoot : String → Except String Path
  workspaceIdV3ForRoot : Path → String
  join : Path → String → Path
  newAgentSidecar : ProjectArgs Path → Except String (RuntimeContext Key Path)

/-- The result of a selection, and the contexts whose activation it cancels. -/
structure Selection (Key Path State : Type) where
  result : Except String Unit
  session : StdioServerSession Key Path State
  cancelled : List (RuntimeContext Key Path)

variable {Key Path State Identity : Type} [DecidableEq Key] [DecidableEq Identity]

def sameWorkspacePath (identity : Path → Option Identity) (left right : Path) : Bool :=
  match identity left, identity right with
  | some left, some right => left = right
  | _, _ => false

def sameStdioProjectContext (identity : Path → Option Identity)
    (left right : RuntimeContext Key Path) : Bool :=
  left.contextKey = right.contextKey &&
    sameWorkspacePath identity left.projectRoot right.projectRoot &&
    sameWorkspacePath identity left.storagePath right.storagePath

namespace StdioServerSession

variable (identity : Path → Option Identity) (fresh : State)

def new (runtime : Option (RuntimeContext Key Path)) (stdioCacheRoot : Option Path) :
    StdioServerSession Key Path State where
  projectRequired := runtime.isNone
  activeProject := runtime.map fun runtime => ⟨runtime, fresh⟩
  retainedProjects := []
  stdioCacheRoot := stdioCacheRoot

/-- The loop that pops retained projects from the back until there is room. -/
def evict (retained : List (StdioProjectSession Key Path State)) :
    List (StdioProjectSession Key Path State) × List (RuntimeContext Key Path) :=
  if _ : stdioProjectContextCapacity ≤ retained.length then
    let (kept, cancelled) := evict retained.dropLast
    (kept, (retained.getLast?.map (·.runtime)).toList ++ cancelled)
  else (retained, [])
termination_by retained.length
decreasing_by
  rename_i h
  rw [List.length_dropLast]
  unfold stdioProjectContextCapacity at h
  omega

variable (session : StdioServerSession Key Path State)

def unchanged (result : Except String Unit) : Selection Key Path State := ⟨result, session, []⟩

/-- The part of `select_project` that has a context for the project. -/
def adopt (candidate : RuntimeContext Key Path) : Selection Key Path State :=
  if session.activeProject.any (sameStdioProjectContext identity ·.runtime candidate) then
    session.unchanged (.ok ())
  else
    match session.retainedProjects.findIdx?
        (sameStdioProjectContext identity ·.runtime candidate) with
    | some position =>
      ⟨.ok (), { session with
        activeProject := session.retainedProjects[position]?
        retainedProjects :=
          session.activeProject.toList ++ session.retainedProjects.eraseIdx position }, []⟩
    | none =>
      let (kept, cancelled) := evict (session.activeProject.toList ++ session.retainedProjects)
      ⟨.ok (), { session with
        activeProject := some ⟨candidate, fresh⟩
        retainedProjects := kept }, cancelled⟩

def selectProject (env : Environment Key Path) (project : Option String) :
    Selection Key Path State :=
  match project with
  | none =>
    if session.projectRequired then
      session.unchanged (.error
        "project_required: pass the caller's repository root in the `project` argument")
    else session.unchanged (.ok ())
  | some project =>
    if project.toList.head? ≠ some '/' then
      session.unchanged (.error
        "project_required: `project` must be the caller's absolute repository root")
    else
      match env.canonicalizeProjectRoot project with
      | .error error => session.unchanged (.error ("project_unavailable: " ++ error))
      | .ok projectRoot =>
        if !session.projectRequired && session.activeProject.any
            (sameWorkspacePath identity ·.runtime.projectRoot projectRoot) then
          session.unchanged (.ok ())
        else
          let cacheDir := session.stdioCacheRoot.map
            (env.join · (env.workspaceIdV3ForRoot projectRoot))
          match env.newAgentSidecar ⟨projectRoot, cacheDir⟩ with
          | .error error => session.unchanged (.error error)
          | .ok candidate => session.adopt identity fresh candidate

/-- A request that changes the state of the active project. -/
def request (change : State → State) : StdioServerSession Key Path State :=
  { session with
    activeProject := session.activeProject.map fun active =>
      { active with state := change active.state } }

/-- The contexts, most recently active first. -/
def contexts : List (StdioProjectSession Key Path State) :=
  session.activeProject.toList ++ session.retainedProjects

end StdioServerSession

/-! ## Runs -/

inductive Event (Key Path State : Type) where
  | select (env : Environment Key Path) (project : Option String)
  | request (change : State → State)

namespace Event

variable (identity : Path → Option Identity) (fresh : State)

def step (session : StdioServerSession Key Path State) : Event Key Path State →
    StdioServerSession Key Path State
  | .select env project => (session.selectProject identity fresh env project).session
  | .request change => session.request change

/-- What an event adds to the history: a selection that succeeds, or a request. -/
def happened (session : StdioServerSession Key Path State) : Event Key Path State →
    List (Happening (Option Identity) State)
  | .select env project =>
    match (session.selectProject identity fresh env project).result, project with
    | .ok (), some project =>
      match env.canonicalizeProjectRoot project with
      | .ok root => [.selected (identity root)]
      | .error _ => []
    | _, _ => []
  | .request change => [.requested change]

/-- The session after the events, and the history with what happened last at its head. -/
def run (session : StdioServerSession Key Path State)
    (history : List (Happening (Option Identity) State)) :
    List (Event Key Path State) →
      StdioServerSession Key Path State × List (Happening (Option Identity) State)
  | [] => (session, history)
  | event :: later =>
    run (event.step identity fresh session) (event.happened identity fresh session ++ history) later

end Event

end CodeStory.Stdio
