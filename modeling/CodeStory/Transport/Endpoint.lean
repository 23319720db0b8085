import CodeStory.Lib.Transition
import Mathlib.Logic.Function.Basic

/-!
# The endpoint of the embedding server

`embedding_server_transport.rs` on Unix: servers that start, serve, stop and die, and clients that
connect, share one lock file and one socket in a private directory. Each system call that another
process can notice is a step of its own, any call of a server may be its last, and a process that
ends lets go of its lock and of its listening socket in any order. Nothing else touches the
directory.
-/

set_option autoImplicit false

namespace CodeStory.Transport

structure SocketEntry where
  inode : Nat
  mode : Nat
  deriving DecidableEq, Repr

def privateFileMode : Nat := 0o600

def SocketEntry.isPrivate (entry : SocketEntry) : Bool := entry.mode &&& 0o077 = 0

/-- The mode that `bind` gives to a new socket. -/
def freshMode (umask : Nat) : Nat := 0o777 ^^^ (0o777 &&& umask)

inductive Actor where
  | server (id : Nat)
  | client (id : Nat)
  deriving DecidableEq, Repr

/-- What the processes share: whether the lock file exists, who holds its lock, the directory entry
of the socket, and for each socket the server that listens on it. -/
structure Shared where
  authority : Bool
  lock : Option Actor
  entry : Option SocketEntry
  listening : Nat → Option Nat

/-- Where a call of `bind`, and what becomes of its listener, stands. -/
inductive ServerPhase where
  | idle
  | opened
  | alreadyOwned
  | locked
  | found (inode : Nat)
  | confirmed
  | unlinked
  | cleared
  | created (inode : Nat)
  | secured (inode : Nat)
  | named (inode listenerId : Nat)
  | bound (inode listenerId socketIdentity : Nat)
  | dropping (inode : Nat)
  | dying
  deriving DecidableEq, Repr

inductive ServerEvent where
  | openAuthority
  | tryLock
  | validate
  | identify
  | unlink
  | recheck
  | bind (inode : Nat)
  | setPermissions
  | name
  | socketIdentity
  | drop (directoriesMatch : Bool)
  | dropUnlink
  | crash
  | unlock
  | close
  deriving DecidableEq, Repr

inductive NativeConnectOutcome where
  | connected (listenerId peer : Nat)
  | noOwner
  | ownerUnresponsive
  | failed
  deriving DecidableEq, Repr

/-- Where a call of `connect` stands; `authority` says whether it could open the lock file. -/
inductive ClientPhase where
  | idle
  | opened (authority : Bool)
  | found (authority : Bool) (listenerId : Nat)
  | dialled (authority : Bool) (listenerId peer : Nat)
  | classifying (authority : Bool)
  | probing
  | answered (outcome : NativeConnectOutcome)
  deriving DecidableEq, Repr

inductive ClientEvent where
  | openAuthority
  | validate
  | dial
  | giveUp
  | tryLock
  | unlock
  | crash
  deriving DecidableEq, Repr

section Server

variable (umask id : Nat) (shared : Shared)

/-- `validate_socket_path` in `remove_stale_socket`. -/
def validateStale : ServerPhase :=
  match shared.entry with
  | none => .cleared
  | some entry => if entry.isPrivate then .found entry.inode else .dying

/-- The same entry again, through the directory that is held. -/
def identifyStale (inode : Nat) : ServerPhase :=
  match shared.entry with
  | none => .dying
  | some entry => if entry.isPrivate ∧ entry.inode = inode then .confirmed else .dying

/-- `validate_socket_path` after the socket is made private. -/
def nameListener (inode : Nat) : ServerPhase :=
  match shared.entry with
  | none => .dying
  | some entry => if entry.isPrivate then .named inode entry.inode else .dying

def identifyListener (inode listenerId : Nat) : ServerPhase :=
  match shared.entry with
  | none => .dying
  | some entry => .bound inode listenerId entry.inode

/-- `Drop for Listener` up to the decision to unlink. -/
def dropListener (directoriesMatch : Bool) (inode socketIdentity : Nat) : ServerPhase :=
  match shared.entry with
  | none => .dying
  | some entry =>
    if directoriesMatch ∧ entry.isPrivate ∧ entry.inode = socketIdentity then .dropping inode
    else .dying

def serverStep : ServerPhase → ServerEvent → Option (ServerPhase × Shared)
  | .idle, .openAuthority => some (.opened, { shared with authority := true })
  | .opened, .tryLock =>
    match shared.lock with
    | none => some (.locked, { shared with lock := some (.server id) })
    | some _ => some (.alreadyOwned, shared)
  | .locked, .validate => some (validateStale shared, shared)
  | .found inode, .identify => some (identifyStale shared inode, shared)
  | .confirmed, .unlink =>
    match shared.entry with
    | none => some (.dying, shared)
    | some _ => some (.unlinked, { shared with entry := none })
  | .unlinked, .recheck => some (if shared.entry.isNone then .cleared else .dying, shared)
  | .cleared, .bind inode =>
    if shared.entry = none ∧ shared.listening inode = none then
      some (.created inode, { shared with
        entry := some ⟨inode, freshMode umask⟩
        listening := Function.update shared.listening inode (some id) })
    else none
  | .created inode, .setPermissions =>
    match shared.entry with
    | none => some (.dying, shared)
    | some entry =>
      some (.secured inode, { shared with entry := some { entry with mode := privateFileMode } })
  | .secured inode, .name => some (nameListener shared inode, shared)
  | .named inode listenerId, .socketIdentity =>
    some (identifyListener shared inode listenerId, shared)
  | .bound inode _ socketIdentity, .drop directoriesMatch =>
    some (dropListener shared directoriesMatch inode socketIdentity, shared)
  | .dropping _, .dropUnlink => some (.dying, { shared with entry := none })
  | .idle, .crash => none
  | _, .crash => some (.dying, shared)
  | .dying, .unlock =>
    if shared.lock = some (.server id) then some (.dying, { shared with lock := none }) else none
  | .dying, .close =>
    some (.dying, { shared with
      listening := fun inode =>
        if shared.listening inode = some id then none else shared.listening inode })
  | _, _ => none

end Server

section Client

variable (id : Nat) (shared : Shared)

/-- The connection is refused where nobody listens. -/
def dialEndpoint (authority : Bool) (listenerId : Nat) : ClientPhase :=
  match shared.entry.bind fun entry => shared.listening entry.inode with
  | none => .classifying authority
  | some peer => .dialled authority listenerId peer

def validateEndpoint (authority : Bool) : ClientPhase :=
  match shared.entry with
  | none => .classifying authority
  | some entry => if entry.isPrivate then .found authority entry.inode else .answered .failed

/-- `try_lock` on the lock file, if there is one, and what its failure means. -/
def probeAuthority (authority : Bool) (owned : NativeConnectOutcome) : ClientPhase × Shared :=
  if authority then
    match shared.lock with
    | none => (.probing, { shared with lock := some (.client id) })
    | some _ => (.answered owned, shared)
  else (.answered .noOwner, shared)

def releaseProbe : Shared :=
  if shared.lock = some (.client id) then { shared with lock := none } else shared

def clientStep : ClientPhase → ClientEvent → Option (ClientPhase × Shared)
  | .idle, .openAuthority => some (.opened shared.authority, shared)
  | .opened authority, .validate => some (validateEndpoint shared authority, shared)
  | .found authority listenerId, .dial => some (dialEndpoint shared authority listenerId, shared)
  | .found authority _, .giveUp => some (.classifying authority, shared)
  | .dialled authority _ _, .giveUp => some (.classifying authority, shared)
  | .dialled authority listenerId peer, .tryLock =>
    some (probeAuthority id shared authority (.connected listenerId peer))
  | .classifying authority, .tryLock =>
    some (probeAuthority id shared authority .ownerUnresponsive)
  | .probing, .unlock => some (.answered .noOwner, releaseProbe id shared)
  | .idle, .crash => none
  | .answered _, .crash => none
  | _, .crash => some (.answered .failed, releaseProbe id shared)
  | _, _ => none

end Client

/-! ## The system -/

structure Endpoint where
  shared : Shared
  servers : Nat → ServerPhase
  clients : Nat → ClientPhase

/-- An empty directory. -/
def Endpoint.new : Endpoint where
  shared := ⟨false, none, none, fun _ => none⟩
  servers := fun _ => .idle
  clients := fun _ => .idle

inductive EndpointEvent where
  | server (id : Nat) (event : ServerEvent)
  | client (id : Nat) (event : ClientEvent)
  deriving DecidableEq, Repr

def Endpoint.step (umask : Nat) (endpoint : Endpoint) : EndpointEvent → Option Endpoint
  | .server id event =>
    (serverStep umask id endpoint.shared (endpoint.servers id) event).map fun (phase, shared) =>
      { endpoint with shared, servers := Function.update endpoint.servers id phase }
  | .client id event =>
    (clientStep id endpoint.shared (endpoint.clients id) event).map fun (phase, shared) =>
      { endpoint with shared, clients := Function.update endpoint.clients id phase }

end CodeStory.Transport
