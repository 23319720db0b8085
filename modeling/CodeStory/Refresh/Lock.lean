import Mathlib.Algebra.Ring.Int.Defs
import Mathlib.Data.List.Basic

/-!
# The local refresh lock

`local_refresh_status.rs`: processes that share a cache root refresh it one at a time. The lock is a
file that names its owner, and beside it stands a status file. Whoever changes either holds a guard
meanwhile, so that an operation is one step of the system; what the clock, the disk and the probes
of processes say to it is its moment. A process that dies inside an operation leaves the files as an
operation does whose writes fail.
-/

set_option autoImplicit false

namespace CodeStory.Refresh

/-! ## Processes -/

inductive ProcessStartProbe where
  | running (startIdentity : String)
  | notRunning
  | unknown (reason : String)
  deriving DecidableEq, Repr

inductive ProcessOwnerState where
  | matching
  | goneOrReused
  | unknown
  deriving DecidableEq, Repr

def processOwnerState (probe : ProcessStartProbe) (expected : Option String) : ProcessOwnerState :=
  match probe with
  | .notRunning => .goneOrReused
  | .unknown _ => .unknown
  | .running startIdentity =>
    match expected with
    | none => .matching
    | some expected => if startIdentity = expected then .matching else .goneOrReused

def recordedProcessStartIdentity : ProcessStartProbe → Option String
  | .running startIdentity => some startIdentity
  | .notRunning | .unknown _ => none

/-! ## Files -/

def schemaVersion : Nat := 1

def statusTtlMs : Int := 30000

def lockStaleTtlMs : Int := 120000

structure LocalRefreshStatus where
  schemaVersion : Nat
  status : String
  projectRoot : String
  phase : String
  pid : Nat
  processStartIdentity : Option String
  ownerToken : Option String
  startedAtEpochMs : Int
  updatedAtEpochMs : Int
  lastFailureReason : Option String
  deriving DecidableEq, Repr

structure LocalRefreshLockFile where
  schemaVersion : Nat
  projectRoot : String
  pid : Nat
  processStartIdentity : Option String
  startedAtEpochMs : Int
  token : String
  deriving DecidableEq, Repr

/-- What a lock file holds: a lock, or text that is not read as one. -/
inductive LockText where
  | whole (lock : LocalRefreshLockFile)
  | broken
  deriving DecidableEq, Repr

structure Files where
  lock : Option LockText
  status : Option LocalRefreshStatus
  deriving DecidableEq, Repr

/-- How the creation of a lock file goes that was not there: it is not opened, what is written is
broken, or it is whole but not synced, which is an error too. -/
inductive WriteOutcome where
  | written
  | unopened
  | broken
  | unsynced
  deriving DecidableEq, Repr

/-- What an operation is told from outside. `lockModified` is the time that the metadata of the lock
file give. -/
structure Moment where
  startedAt : Int
  now : Int
  probe : Nat → ProcessStartProbe
  guarded : Bool
  readsLock : Bool
  readsStatus : Bool
  lockModified : Option Int
  removes : Bool
  firstWrite : WriteOutcome
  secondWrite : WriteOutcome
  writesStatus : Bool

/-- The subtraction of 64-bit integers, held at their bounds. -/
def saturatingSub (a b : Int) : Int := max (-(2 ^ 63)) (min (2 ^ 63 - 1) (a - b))

section Reading

variable (moment : Moment) (files : Files)

def readLocalRefreshLockFile : Option LocalRefreshLockFile :=
  if moment.readsLock then
    match files.lock with
    | some (.whole lock) => some lock
    | some .broken | none => none
  else none

def readLocalRefreshStatusFile : Option LocalRefreshStatus :=
  if moment.readsStatus then files.status else none

def fileModifiedAgeExceeds (ttl : Int) : Bool :=
  match moment.lockModified with
  | some modified => decide (saturatingSub moment.now modified > ttl)
  | none => true

def localRefreshLockFileIsStale : Bool :=
  match readLocalRefreshLockFile moment files with
  | some lock =>
    processOwnerState (moment.probe lock.pid) lock.processStartIdentity == .goneOrReused
  | none => fileModifiedAgeExceeds moment lockStaleTtlMs

end Reading

/-- The lock as the process that holds it has it. -/
structure LocalRefreshOwner where
  token : String
  pid : Nat
  processStartIdentity : Option String
  startedAtEpochMs : Int
  deriving DecidableEq, Repr

/-- What the file system says of paths: `same_workspace_path` and `clean_path_text`. -/
structure Paths where
  same : String → String → Bool
  clean : String → String

section Operations

variable (paths : Paths)

def localRefreshStatusMatchesLock (status : LocalRefreshStatus) (lock : LocalRefreshLockFile)
    (projectRoot : String) : Bool :=
  lock.schemaVersion == schemaVersion && paths.same lock.projectRoot projectRoot &&
    status.ownerToken == some lock.token && status.pid == lock.pid &&
    status.processStartIdentity == lock.processStartIdentity &&
    status.startedAtEpochMs == lock.startedAtEpochMs

/-- The status that is in force: fresh, of a process that may be there, and of the lock's owner. -/
def activeLocalRefreshStatus (moment : Moment) (files : Files) (projectRoot : String) :
    Option LocalRefreshStatus :=
  match readLocalRefreshStatusFile moment files with
  | none => none
  | some status =>
    if status.schemaVersion ≠ schemaVersion ∨ status.status ≠ "refreshing" ∨
        paths.same status.projectRoot projectRoot = false then none
    else if saturatingSub moment.now status.updatedAtEpochMs > statusTtlMs then none
    else if processOwnerState (moment.probe status.pid) status.processStartIdentity =
        .goneOrReused then none
    else if status.ownerToken.isSome ∧ ¬ (readLocalRefreshLockFile moment files).any
        (localRefreshStatusMatchesLock paths status · projectRoot) then none
    else some status

/-! ## Taking the lock -/

inductive CreateResult where
  | created
  | alreadyExists
  | failed
  deriving DecidableEq, Repr

def createLocalRefreshLockFile (files : Files) (lock : LocalRefreshLockFile)
    (write : WriteOutcome) :
    Files × CreateResult :=
  match files.lock with
  | some _ => (files, .alreadyExists)
  | none =>
    match write with
    | .written => ({ files with lock := some (.whole lock) }, .created)
    | .unopened => (files, .failed)
    | .broken => ({ files with lock := some .broken }, .failed)
    | .unsynced => ({ files with lock := some (.whole lock) }, .failed)

inductive LocalRefreshLockAttempt where
  | acquired (owner : LocalRefreshOwner)
  | busy (status : Option LocalRefreshStatus) (pid : Option Nat) (startedAtEpochMs : Option Int)
  | failed
  deriving DecidableEq, Repr

def lockFor (pid : Nat) (projectRoot : String) (moment : Moment) : LocalRefreshLockFile where
  schemaVersion := schemaVersion
  projectRoot := paths.clean projectRoot
  pid := pid
  processStartIdentity := recordedProcessStartIdentity (moment.probe pid)
  startedAtEpochMs := moment.startedAt
  token := toString pid ++ ":" ++ toString moment.startedAt

def LocalRefreshLockFile.owner (lock : LocalRefreshLockFile) : LocalRefreshOwner :=
  ⟨lock.token, lock.pid, lock.processStartIdentity, lock.startedAtEpochMs⟩

/-- The second try, after a stale lock file has been removed. -/
def reclaimLocalRefreshLock (files : Files) (projectRoot : String) (lock : LocalRefreshLockFile)
    (moment : Moment) : Files × LocalRefreshLockAttempt :=
  let files := if moment.removes then { files with lock := none } else files
  match createLocalRefreshLockFile files lock moment.secondWrite with
  | (files, .created) => (files, .acquired lock.owner)
  | (files, .alreadyExists) =>
    let existing := readLocalRefreshLockFile moment files
    (files, .busy (activeLocalRefreshStatus paths moment files projectRoot)
      (existing.map (·.pid)) (existing.map (·.startedAtEpochMs)))
  | (files, .failed) => (files, .failed)

def tryAcquireLocalRefreshLock (files : Files) (pid : Nat) (projectRoot : String)
    (moment : Moment) : Files × LocalRefreshLockAttempt :=
  if moment.guarded then
    let lock := lockFor paths pid projectRoot moment
    match createLocalRefreshLockFile files lock moment.firstWrite with
    | (files, .created) => (files, .acquired lock.owner)
    | (files, .failed) => (files, .failed)
    | (files, .alreadyExists) =>
      match activeLocalRefreshStatus paths moment files projectRoot with
      | some status => (files, .busy (some status) none none)
      | none =>
        if localRefreshLockFileIsStale moment files then
          reclaimLocalRefreshLock paths files projectRoot lock moment
        else
          let existing := readLocalRefreshLockFile moment files
          (files, .busy none (existing.map (·.pid)) (existing.map (·.startedAtEpochMs)))
  else (files, .failed)

/-! ## Holding it -/

/-- `LocalRefreshLock::drop` -/
def dropLocalRefreshLock (files : Files) (owner : LocalRefreshOwner) (moment : Moment) : Files :=
  if moment.guarded && (readLocalRefreshLockFile moment files).any (·.token == owner.token) &&
      moment.removes then
    { files with lock := none }
  else files

def localRefreshLockMatches (files : Files) (projectRoot : String) (owner : LocalRefreshOwner)
    (moment : Moment) : Bool :=
  (readLocalRefreshLockFile moment files).any fun lock =>
    lock.schemaVersion == schemaVersion && paths.same lock.projectRoot projectRoot &&
      lock.token == owner.token && lock.pid == owner.pid &&
      lock.processStartIdentity == owner.processStartIdentity &&
      lock.startedAtEpochMs == owner.startedAtEpochMs

/-- `LocalRefreshLock::write_status`; the answer is whether the lock was still held, if that much
was found out. -/
def writeLocalRefreshStatus (files : Files) (owner : LocalRefreshOwner)
    (projectRoot status phase : String) (lastFailureReason : Option String) (moment : Moment) :
    Files × Option Bool :=
  if ¬ moment.guarded then (files, none)
  else if ¬ localRefreshLockMatches paths files projectRoot owner moment then (files, some false)
  else if moment.writesStatus then
    ({ files with status := some ⟨schemaVersion, status, paths.clean projectRoot, phase, owner.pid,
        owner.processStartIdentity, some owner.token, owner.startedAtEpochMs, moment.now,
        lastFailureReason⟩ }, some true)
  else (files, none)

/-- `renew_local_refresh_status`, which the heartbeat of an owner calls. -/
def renewLocalRefreshStatus (files : Files) (owner : LocalRefreshOwner) (projectRoot phase : String)
    (moment : Moment) : Files × Option Bool :=
  if ¬ moment.guarded then (files, none)
  else if ¬ localRefreshLockMatches paths files projectRoot owner moment then (files, some false)
  else
    match readLocalRefreshStatusFile moment files with
    | none => (files, some false)
    | some status =>
      if status.schemaVersion ≠ schemaVersion ∨ status.status ≠ "refreshing" ∨
          status.phase ≠ phase ∨ paths.same status.projectRoot projectRoot = false ∨
          status.pid ≠ owner.pid ∨ status.processStartIdentity ≠ owner.processStartIdentity ∨
          status.ownerToken ≠ some owner.token ∨
          status.startedAtEpochMs ≠ owner.startedAtEpochMs then (files, some false)
      else if moment.writesStatus then
        ({ files with status := some { status with updatedAtEpochMs := moment.now } }, some true)
      else (files, none)

/-! ## The system -/

/-- The processes that run, by their start identity; the files; the locks that processes hold, and
the owners that heartbeats may still act for. -/
structure World where
  live : Nat → Option String
  files : Files
  holders : List LocalRefreshOwner
  owners : List LocalRefreshOwner

inductive Event where
  | spawn (pid : Nat) (startIdentity : String)
  | exit (pid : Nat)
  | acquire (pid : Nat) (projectRoot : String) (moment : Moment)
  | drop (owner : LocalRefreshOwner) (moment : Moment)
  | writeStatus (owner : LocalRefreshOwner) (projectRoot status phase : String)
    (lastFailureReason : Option String) (moment : Moment)
  | renew (owner : LocalRefreshOwner) (projectRoot phase : String) (moment : Moment)

def World.settle (world : World) (result : Files × LocalRefreshLockAttempt) : World :=
  match result with
  | (files, .acquired owner) =>
    { world with files, holders := owner :: world.holders, owners := owner :: world.owners }
  | (files, .busy _ _ _) | (files, .failed) => { world with files }

/-- A process can die at any time; what it held it drops without a step of its own. -/
def World.step (world : World) : Event → Option World
  | .spawn pid startIdentity =>
    if world.live pid = none then
      some { world with live := fun p => if p = pid then some startIdentity else world.live p }
    else none
  | .exit pid =>
    some { world with
      live := fun p => if p = pid then none else world.live p
      holders := world.holders.filter (·.pid ≠ pid)
      owners := world.owners.filter (·.pid ≠ pid) }
  | .acquire pid projectRoot moment =>
    if world.live pid ≠ none then
      some (world.settle (tryAcquireLocalRefreshLock paths world.files pid projectRoot moment))
    else none
  | .drop owner moment =>
    if owner ∈ world.holders then
      some { world with
        files := dropLocalRefreshLock world.files owner moment
        holders := world.holders.erase owner }
    else none
  | .writeStatus owner projectRoot status phase lastFailureReason moment =>
    if owner ∈ world.holders then
      some { world with files :=
        (writeLocalRefreshStatus paths world.files owner projectRoot status phase
          lastFailureReason moment).1 }
    else none
  | .renew owner projectRoot phase moment =>
    if owner ∈ world.owners then
      some { world with files :=
        (renewLocalRefreshStatus paths world.files owner projectRoot phase moment).1 }
    else none

end Operations

end CodeStory.Refresh
