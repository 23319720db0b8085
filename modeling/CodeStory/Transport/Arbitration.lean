import CodeStory.Transport.Endpoint

/-!
# One server at the endpoint

In every run at most one server is bound, its socket is the one clients find, and nobody else
removes or replaces it. What a dead server leaves behind never keeps the next one from binding,
unless it died with its socket bound and not yet private.
-/

set_option autoImplicit false

namespace CodeStory.Transport

open Transition

variable {umask id : Nat} {shared shared' : Shared}

theorem privateFileMode_isPrivate (inode : Nat) :
    (SocketEntry.mk inode privateFileMode).isPrivate = true := by
  change decide (privateFileMode &&& 0o077 = 0) = true
  decide

/-! ## What a server owns -/

def Shared.Held (shared : Shared) (id : Nat) : Prop := shared.lock = some (.server id)

/-- The server listens on the socket that the directory names. -/
structure Shared.Serves (shared : Shared) (id inode mode : Nat) : Prop where
  held : shared.Held id
  entry : shared.entry = some ⟨inode, mode⟩
  listening : shared.listening inode = some id

/-- What a server may rely on in each phase. -/
def Shared.Owned (umask : Nat) (shared : Shared) (id : Nat) : ServerPhase → Prop
  | .idle => True
  | .opened | .alreadyOwned | .dying => shared.authority = true
  | .locked => shared.authority = true ∧ shared.Held id
  | .found inode => shared.authority = true ∧ shared.Held id ∧
      ∃ mode, shared.entry = some ⟨inode, mode⟩ ∧ (SocketEntry.mk inode mode).isPrivate = true
  | .confirmed => shared.authority = true ∧ shared.Held id ∧ shared.entry ≠ none
  | .unlinked | .cleared => shared.authority = true ∧ shared.Held id ∧ shared.entry = none
  | .created inode => shared.authority = true ∧ shared.Serves id inode (freshMode umask)
  | .secured inode => shared.authority = true ∧ shared.Serves id inode privateFileMode
  | .named inode listenerId =>
    shared.authority = true ∧ shared.Serves id inode privateFileMode ∧ listenerId = inode
  | .bound inode listenerId socketIdentity =>
    shared.authority = true ∧ shared.Serves id inode privateFileMode ∧ listenerId = inode ∧
      socketIdentity = inode
  | .dropping inode => shared.authority = true ∧ shared.Serves id inode privateFileMode

/-- What the others leave alone while a server holds the lock. -/
structure Shared.Leaves (shared shared' : Shared) (id : Nat) : Prop where
  authority : shared.authority = true → shared'.authority = true
  lock : shared.Held id → shared'.Held id
  entry : shared.Held id → shared'.entry = shared.entry
  listening : ∀ {inode}, shared.listening inode = some id → shared'.listening inode = some id

theorem Shared.Leaves.refl (shared : Shared) (id : Nat) : shared.Leaves shared id :=
  ⟨fun h => h, fun h => h, fun _ => rfl, fun h => h⟩

theorem Shared.Serves.leaves {inode mode : Nat} (h : shared.Serves id inode mode)
    (hleaves : shared.Leaves shared' id) : shared'.Serves id inode mode :=
  ⟨hleaves.lock h.held, (hleaves.entry h.held).trans h.entry, hleaves.listening h.listening⟩

theorem Shared.Owned.leaves {phase : ServerPhase} (h : shared.Owned umask id phase)
    (hleaves : shared.Leaves shared' id) : shared'.Owned umask id phase := by
  cases phase with
  | idle => trivial
  | opened | alreadyOwned | dying => exact hleaves.authority h
  | locked => exact ⟨hleaves.authority h.1, hleaves.lock h.2⟩
  | found inode =>
    obtain ⟨hauthority, hheld, mode, hentry, hprivate⟩ := h
    exact ⟨hleaves.authority hauthority, hleaves.lock hheld, mode,
      (hleaves.entry hheld).trans hentry, hprivate⟩
  | confirmed =>
    obtain ⟨hauthority, hheld, hentry⟩ := h
    exact ⟨hleaves.authority hauthority, hleaves.lock hheld, hleaves.entry hheld ▸ hentry⟩
  | unlinked | cleared =>
    obtain ⟨hauthority, hheld, hentry⟩ := h
    exact ⟨hleaves.authority hauthority, hleaves.lock hheld, (hleaves.entry hheld).trans hentry⟩
  | created | secured | dropping => exact ⟨hleaves.authority h.1, h.2.leaves hleaves⟩
  | named => exact ⟨hleaves.authority h.1, h.2.1.leaves hleaves, h.2.2⟩
  | bound => exact ⟨hleaves.authority h.1, h.2.1.leaves hleaves, h.2.2⟩

/-! ## Steps of a server -/

variable {phase phase' : ServerPhase} {event : ServerEvent}

theorem Shared.Owned.authority (h : shared.Owned umask id phase) (hphase : phase ≠ .idle) :
    shared.authority = true := by
  cases phase with
  | idle => exact absurd rfl hphase
  | opened | alreadyOwned | dying => exact h
  | locked | found | confirmed | unlinked | cleared | created | secured | named | bound
  | dropping =>
    exact h.1

theorem owned_validateStale (h : shared.Owned umask id .locked) :
    shared.Owned umask id (validateStale shared) := by
  unfold validateStale
  split
  · rename_i hentry
    exact ⟨h.1, h.2, hentry⟩
  · rename_i entry hentry
    split
    · rename_i hprivate
      exact ⟨h.1, h.2, entry.mode, hentry, hprivate⟩
    · exact h.1

theorem owned_identifyStale {inode : Nat} (h : shared.Owned umask id (.found inode)) :
    shared.Owned umask id (identifyStale shared inode) := by
  unfold identifyStale
  split
  · exact h.1
  · rename_i entry hentry
    split
    · exact ⟨h.1, h.2.1, by rw [hentry]; exact Option.some_ne_none _⟩
    · exact h.1

theorem owned_nameListener {inode : Nat} (h : shared.Owned umask id (.secured inode)) :
    shared.Owned umask id (nameListener shared inode) := by
  unfold nameListener
  simp only [h.2.entry, privateFileMode_isPrivate, if_true]
  exact ⟨h.1, h.2, rfl⟩

theorem owned_identifyListener {inode listenerId : Nat}
    (h : shared.Owned umask id (.named inode listenerId)) :
    shared.Owned umask id (identifyListener shared inode listenerId) := by
  unfold identifyListener
  rw [h.2.1.entry]
  exact ⟨h.1, h.2.1, h.2.2, rfl⟩

theorem owned_dropListener {inode listenerId socketIdentity : Nat} {directoriesMatch : Bool}
    (h : shared.Owned umask id (.bound inode listenerId socketIdentity)) :
    shared.Owned umask id (dropListener shared directoriesMatch inode socketIdentity) := by
  unfold dropListener
  rw [h.2.1.entry]
  dsimp only
  split
  · exact ⟨h.1, h.2.1⟩
  · exact h.1

/-- What a step of a server does to what is shared. -/
inductive ServerChange (umask id : Nat) (shared : Shared) : Shared → Prop where
  | keep : ServerChange umask id shared shared
  | authority : ServerChange umask id shared { shared with authority := true }
  | lock (hlock : shared.lock = none) :
      ServerChange umask id shared { shared with lock := some (.server id) }
  | unlink (hheld : shared.Held id) : ServerChange umask id shared { shared with entry := none }
  | bind {inode : Nat} (hheld : shared.Held id) (hfree : shared.listening inode = none) :
      ServerChange umask id shared { shared with
        entry := some ⟨inode, freshMode umask⟩
        listening := Function.update shared.listening inode (some id) }
  | secure {inode : Nat} (hheld : shared.Held id) :
      ServerChange umask id shared { shared with entry := some ⟨inode, privateFileMode⟩ }
  | unlock (hheld : shared.Held id) : ServerChange umask id shared { shared with lock := none }
  | close : ServerChange umask id shared { shared with
      listening := fun inode =>
        if shared.listening inode = some id then none else shared.listening inode }

theorem of_some_pair {α β : Type} {a c : α} {b d : β} (h : some (a, b) = some (c, d)) :
    a = c ∧ b = d :=
  Prod.mk.inj (Option.some.inj h)

/-- A server that owns what its phase asks for owns what the next one does. -/
theorem serverStep_spec (h : serverStep umask id shared phase event = some (phase', shared'))
    (howned : shared.Owned umask id phase) :
    shared'.Owned umask id phase' ∧ ServerChange umask id shared shared' := by
  unfold serverStep at h
  split at h
  · obtain ⟨rfl, rfl⟩ := of_some_pair h
    exact ⟨rfl, .authority⟩
  · split at h
    · rename_i hlock
      obtain ⟨rfl, rfl⟩ := of_some_pair h
      exact ⟨⟨howned, rfl⟩, .lock hlock⟩
    · obtain ⟨rfl, rfl⟩ := of_some_pair h
      exact ⟨howned, .keep⟩
  · obtain ⟨rfl, rfl⟩ := of_some_pair h
    exact ⟨owned_validateStale howned, .keep⟩
  · obtain ⟨rfl, rfl⟩ := of_some_pair h
    exact ⟨owned_identifyStale howned, .keep⟩
  · split at h
    · obtain ⟨rfl, rfl⟩ := of_some_pair h
      exact ⟨howned.1, .keep⟩
    · obtain ⟨rfl, rfl⟩ := of_some_pair h
      exact ⟨⟨howned.1, howned.2.1, rfl⟩, .unlink howned.2.1⟩
  · obtain ⟨rfl, rfl⟩ := of_some_pair h
    rw [howned.2.2]
    exact ⟨howned, .keep⟩
  · obtain ⟨hfree, h⟩ := Option.ite_none_right_eq_some.mp h
    obtain ⟨rfl, rfl⟩ := of_some_pair h
    exact ⟨⟨howned.1, howned.2.1, rfl, Function.update_self ..⟩, .bind howned.2.1 hfree.2⟩
  · rw [howned.2.entry] at h
    obtain ⟨rfl, rfl⟩ := of_some_pair h
    exact ⟨⟨howned.1, howned.2.held, rfl, howned.2.listening⟩, .secure howned.2.held⟩
  · obtain ⟨rfl, rfl⟩ := of_some_pair h
    exact ⟨owned_nameListener howned, .keep⟩
  · obtain ⟨rfl, rfl⟩ := of_some_pair h
    exact ⟨owned_identifyListener howned, .keep⟩
  · obtain ⟨rfl, rfl⟩ := of_some_pair h
    exact ⟨owned_dropListener howned, .keep⟩
  · obtain ⟨rfl, rfl⟩ := of_some_pair h
    exact ⟨howned.1, .unlink howned.2.held⟩
  · cases h
  · rename_i hphase
    obtain ⟨rfl, rfl⟩ := of_some_pair h
    exact ⟨howned.authority hphase, .keep⟩
  · obtain ⟨hheld, h⟩ := Option.ite_none_right_eq_some.mp h
    obtain ⟨rfl, rfl⟩ := of_some_pair h
    exact ⟨howned, .unlock hheld⟩
  · obtain ⟨rfl, rfl⟩ := of_some_pair h
    exact ⟨howned, .close⟩
  · cases h

theorem Shared.Held.unique {other : Nat} (h : shared.Held id) (hother : shared.Held other) :
    other = id :=
  Actor.server.inj (Option.some.inj (hother.symm.trans h))

theorem ServerChange.leaves {other : Nat} (h : ServerChange umask id shared shared')
    (hne : other ≠ id) : shared.Leaves shared' other := by
  have hnot : shared.Held id → ¬ shared.Held other := fun hheld hother =>
    hne (hheld.unique hother)
  cases h with
  | keep => exact .refl shared other
  | authority => exact ⟨fun _ => rfl, fun h => h, fun _ => rfl, fun h => h⟩
  | lock hlock =>
    refine ⟨fun h => h, fun h => ?_, fun _ => rfl, fun h => h⟩
    cases hlock.symm.trans h
  | unlink hheld | secure hheld =>
    exact ⟨fun h => h, fun h => h, fun h => absurd h (hnot hheld), fun h => h⟩
  | bind hheld hfree =>
    refine ⟨fun h => h, fun h => h, fun h => absurd h (hnot hheld), fun {i} hi => ?_⟩
    rw [← hi]
    apply Function.update_of_ne
    rintro rfl
    cases hfree.symm.trans hi
  | unlock hheld =>
    exact ⟨fun h => h, fun h => absurd h (hnot hheld), fun _ => rfl, fun h => h⟩
  | close =>
    refine ⟨fun h => h, fun h => h, fun _ => rfl, fun {i} hi => ?_⟩
    dsimp only
    rw [hi, if_neg]
    exact fun h => hne (Option.some.inj h)

/-! ## Steps of a client -/

theorem leaves_releaseProbe (id other : Nat) (shared : Shared) :
    shared.Leaves (releaseProbe id shared) other := by
  unfold releaseProbe
  split
  · rename_i hlock
    refine ⟨fun h => h, fun h => ?_, fun _ => rfl, fun h => h⟩
    cases hlock.symm.trans h
  · exact .refl shared other

theorem leaves_probeAuthority (id other : Nat) (shared : Shared) (authority : Bool)
    (owned : NativeConnectOutcome) :
    shared.Leaves (probeAuthority id shared authority owned).2 other := by
  unfold probeAuthority
  split
  · split
    · rename_i hlock
      refine ⟨fun h => h, fun h => ?_, fun _ => rfl, fun h => h⟩
      cases hlock.symm.trans h
    · exact .refl shared other
  · exact .refl shared other

theorem clientStep_shared {phase phase' : ClientPhase} {event : ClientEvent}
    (h : clientStep id shared phase event = some (phase', shared')) :
    shared' = shared ∨ shared' = releaseProbe id shared ∨
      ∃ authority owned, shared' = (probeAuthority id shared authority owned).2 := by
  unfold clientStep at h
  split at h
  · exact .inl (Prod.mk.inj (Option.some.inj h)).2.symm
  · exact .inl (Prod.mk.inj (Option.some.inj h)).2.symm
  · exact .inl (Prod.mk.inj (Option.some.inj h)).2.symm
  · exact .inl (Prod.mk.inj (Option.some.inj h)).2.symm
  · exact .inl (Prod.mk.inj (Option.some.inj h)).2.symm
  · exact .inr (.inr ⟨_, _, congrArg Prod.snd (Option.some.inj h).symm⟩)
  · exact .inr (.inr ⟨_, _, congrArg Prod.snd (Option.some.inj h).symm⟩)
  · exact .inr (.inl (Prod.mk.inj (Option.some.inj h)).2.symm)
  · cases h
  · cases h
  · exact .inr (.inl (Prod.mk.inj (Option.some.inj h)).2.symm)
  · cases h

theorem clientStep_leaves {phase phase' : ClientPhase} {event : ClientEvent}
    (h : clientStep id shared phase event = some (phase', shared')) (other : Nat) :
    shared.Leaves shared' other := by
  rcases clientStep_shared h with rfl | rfl | ⟨authority, owned, rfl⟩
  · exact .refl _ other
  · exact leaves_releaseProbe id other shared
  · exact leaves_probeAuthority id other shared authority owned

theorem clientStep_files {phase phase' : ClientPhase} {event : ClientEvent}
    (h : clientStep id shared phase event = some (phase', shared')) :
    shared'.entry = shared.entry ∧ shared'.listening = shared.listening := by
  rcases clientStep_shared h with rfl | rfl | ⟨authority, owned, rfl⟩
  · exact ⟨rfl, rfl⟩
  · unfold releaseProbe
    split <;> exact ⟨rfl, rfl⟩
  · unfold probeAuthority
    split
    · split <;> exact ⟨rfl, rfl⟩
    · exact ⟨rfl, rfl⟩

/-! ## Runs -/

structure Arbitrated (umask : Nat) (endpoint : Endpoint) : Prop where
  owned : ∀ id, endpoint.shared.Owned umask id (endpoint.servers id)
  modes : ∀ entry, endpoint.shared.entry = some entry →
    entry.mode = privateFileMode ∨ entry.mode = freshMode umask
  sockets : ∃ n, ∀ inode, n ≤ inode → endpoint.shared.listening inode = none

variable {endpoint endpoint' : Endpoint}

theorem arbitrated_new (umask : Nat) : Arbitrated umask .new where
  owned _ := trivial
  modes _ h := by cases h
  sockets := ⟨0, fun _ _ => rfl⟩

theorem ServerChange.modes (h : ServerChange umask id shared shared')
    (hmodes : ∀ entry, shared.entry = some entry →
      entry.mode = privateFileMode ∨ entry.mode = freshMode umask) (entry : SocketEntry)
    (hentry : shared'.entry = some entry) :
    entry.mode = privateFileMode ∨ entry.mode = freshMode umask := by
  cases h with
  | keep | authority | lock | unlock | close => exact hmodes entry hentry
  | unlink => cases hentry
  | bind =>
    obtain rfl := Option.some.inj hentry
    exact .inr rfl
  | secure =>
    obtain rfl := Option.some.inj hentry
    exact .inl rfl

theorem ServerChange.sockets (h : ServerChange umask id shared shared')
    (hsockets : ∃ n, ∀ inode, n ≤ inode → shared.listening inode = none) :
    ∃ n, ∀ inode, n ≤ inode → shared'.listening inode = none := by
  obtain ⟨n, hn⟩ := hsockets
  cases h with
  | keep | authority | lock | unlink | secure | unlock => exact ⟨n, hn⟩
  | @bind inode =>
    refine ⟨max n (inode + 1), fun i hi => ?_⟩
    have hne : i ≠ inode := by omega
    exact (Function.update_of_ne hne ..).trans (hn i (by omega))
  | close =>
    refine ⟨n, fun i hi => ?_⟩
    dsimp only
    rw [hn i hi]
    rfl

theorem Arbitrated.step {event : EndpointEvent} (h : Arbitrated umask endpoint)
    (hstep : endpoint.step umask event = some endpoint') : Arbitrated umask endpoint' := by
  cases event with
  | server id event =>
    obtain ⟨⟨phase, shared⟩, hserver, rfl⟩ := Option.map_eq_some_iff.mp hstep
    obtain ⟨howned, hchange⟩ := serverStep_spec hserver (h.owned id)
    refine ⟨fun other => ?_, hchange.modes h.modes, hchange.sockets h.sockets⟩
    dsimp only
    by_cases hid : other = id
    · subst hid
      rw [Function.update_self]
      exact howned
    · rw [Function.update_of_ne hid]
      exact (h.owned other).leaves (hchange.leaves hid)
  | client id event =>
    obtain ⟨⟨phase, shared⟩, hclient, rfl⟩ := Option.map_eq_some_iff.mp hstep
    obtain ⟨hentry, hlistening⟩ := clientStep_files hclient
    refine ⟨fun other => (h.owned other).leaves (clientStep_leaves hclient other), ?_, ?_⟩
    · intro entry hsome
      exact h.modes entry (hentry ▸ hsome)
    · obtain ⟨n, hn⟩ := h.sockets
      exact ⟨n, fun inode hi => (congrFun hlistening inode).trans (hn inode hi)⟩

theorem arbitrated_of_reach (h : Reach (Endpoint.step umask) .new endpoint) :
    Arbitrated umask endpoint :=
  h.invariant (fun _ _ _ harbitrated hstep => harbitrated.step hstep) (arbitrated_new umask)

/-- In every run, while a server is bound it holds the lock, the directory names its socket, that
socket is private and its own, and no other server is bound. -/
theorem bound_server_is_alone (h : Reach (Endpoint.step umask) .new endpoint)
    {inode listenerId socketIdentity : Nat}
    (hbound : endpoint.servers id = .bound inode listenerId socketIdentity) :
    endpoint.shared.lock = some (.server id) ∧
      endpoint.shared.entry = some ⟨inode, privateFileMode⟩ ∧
      endpoint.shared.listening inode = some id ∧ listenerId = inode ∧ socketIdentity = inode ∧
      ∀ other, other ≠ id → ∀ i l s, endpoint.servers other ≠ .bound i l s := by
  have harbitrated := arbitrated_of_reach h
  have howned := harbitrated.owned id
  rw [hbound] at howned
  obtain ⟨-, hserves, hlistener, hidentity⟩ := howned
  refine ⟨hserves.held, hserves.entry, hserves.listening, hlistener, hidentity, ?_⟩
  intro other hne i l s hother
  have howned' := harbitrated.owned other
  rw [hother] at howned'
  exact hne (hserves.held.unique howned'.2.1.held)

/-- A start that cleans up the entry it finds, if there is one. -/
def startEvents (entry : Option SocketEntry) (inode : Nat) : List ServerEvent :=
  [.openAuthority, .tryLock, .validate] ++
    (if entry.isSome then [.identify, .unlink, .recheck] else []) ++
    [.bind inode, .setPermissions, .name, .socketIdentity]

/-- A server that runs in place of one that died with its socket bound, while a second one tries to
start and a client probes the lock. -/
def contended : Endpoint :=
  after (Endpoint.step 0o022) .new
    ((startEvents none 4 ++ [ServerEvent.crash, .unlock, .close]).map (.server 3) ++
      (startEvents (some ⟨4, privateFileMode⟩) 5).map (.server 1) ++
      [.client 1 .openAuthority, .server 2 .openAuthority, .client 1 .validate, .client 1 .dial,
        .server 2 .tryLock, .client 1 .tryLock])

theorem contended_server_is_alone :
    contended.servers 2 = .alreadyOwned ∧ contended.clients 1 = .answered (.connected 5 1) ∧
      contended.shared.lock = some (.server 1) ∧
      contended.shared.entry = some ⟨5, privateFileMode⟩ ∧
      contended.shared.listening 5 = some 1 ∧
      ∀ other, other ≠ 1 → ∀ i l s, contended.servers other ≠ .bound i l s := by
  have hbound : contended.servers 1 = .bound 5 5 5 := rfl
  obtain ⟨hlock, hentry, hlistening, -, -, halone⟩ :=
    bound_server_is_alone (reach_after (Endpoint.step 0o022) _ _) hbound
  exact ⟨rfl, rfl, hlock, hentry, hlistening, halone⟩

/-! ## Starting again -/

section Restart

/-- A server that is alone with what is shared. -/
def aloneStep (umask id : Nat) (state : ServerPhase × Shared) (event : ServerEvent) :
    Option (ServerPhase × Shared) :=
  serverStep umask id state.2 state.1 event

theorem run_alone (endpoint : Endpoint) (events : List ServerEvent) :
    run (Endpoint.step umask) endpoint (events.map (.server id)) =
      (run (aloneStep umask id) (endpoint.servers id, endpoint.shared) events).map
        fun next =>
          { endpoint with
            shared := next.2, servers := Function.update endpoint.servers id next.1 } := by
  induction events generalizing endpoint with
  | nil =>
    simp only [run, List.map_nil, Option.map_some, Function.update_eq_self]
  | cons event events ih =>
    rw [List.map_cons]
    unfold run
    dsimp only [Endpoint.step, aloneStep]
    cases serverStep umask id endpoint.shared (endpoint.servers id) event with
    | none => rfl
    | some next =>
      obtain ⟨phase, shared⟩ := next
      dsimp only [Option.map_some]
      rw [ih]
      dsimp only
      rw [Function.update_self]
      apply congrArg (fun f => Option.map f _)
      funext next
      rw [Function.update_idem]

/-- The first phases of a start, until the entry that was left is found not to be private. -/
def ServerPhase.early : ServerPhase → Bool
  | .idle | .opened | .alreadyOwned | .locked | .dying => true
  | _ => false

theorem aloneStep_early {entry : SocketEntry} (hopen : entry.isPrivate = false)
    {state state' : ServerPhase × Shared} {event : ServerEvent}
    (hstate : state.1.early = true ∧ state.2.entry = some entry)
    (hstep : aloneStep umask id state event = some state') :
    state'.1.early = true ∧ state'.2.entry = some entry := by
  obtain ⟨phase, shared⟩ := state
  obtain ⟨hearly, hentry⟩ := hstate
  dsimp only at hearly hentry
  unfold aloneStep serverStep at hstep
  dsimp only at hstep
  split at hstep
  · obtain rfl := Option.some.inj hstep
    exact ⟨rfl, hentry⟩
  · split at hstep
    · obtain rfl := Option.some.inj hstep
      exact ⟨rfl, hentry⟩
    · obtain rfl := Option.some.inj hstep
      exact ⟨rfl, hentry⟩
  · obtain rfl := Option.some.inj hstep
    unfold validateStale
    rw [hentry]
    dsimp only
    rw [hopen]
    exact ⟨rfl, rfl⟩
  · cases hearly
  · cases hearly
  · cases hearly
  · cases hearly
  · cases hearly
  · cases hearly
  · cases hearly
  · cases hearly
  · cases hearly
  · cases hstep
  · obtain rfl := Option.some.inj hstep
    exact ⟨rfl, hentry⟩
  · obtain ⟨-, hstep⟩ := Option.ite_none_right_eq_some.mp hstep
    obtain rfl := Option.some.inj hstep
    exact ⟨rfl, hentry⟩
  · obtain rfl := Option.some.inj hstep
    exact ⟨rfl, hentry⟩
  · cases hstep

theorem run_startEvents {inode : Nat} (hlock : shared.lock = none)
    (hfree : shared.listening inode = none)
    (hprivate : ∀ entry, shared.entry = some entry → entry.isPrivate = true) :
    ∃ shared', run (aloneStep umask id) (.idle, shared) (startEvents shared.entry inode) =
      some (.bound inode inode inode, shared') := by
  cases hentry : shared.entry with
  | none =>
    simp only [startEvents, Option.isSome_none, Bool.false_eq_true, if_false, List.append_nil,
      List.cons_append, List.nil_append, run, aloneStep, serverStep, hlock, validateStale, hentry,
      hfree, and_self, if_true, nameListener, privateFileMode_isPrivate, identifyListener]
    exact ⟨_, rfl⟩
  | some entry =>
    have hkept := hprivate entry hentry
    simp only [startEvents, Option.isSome_some, if_true, List.cons_append, List.nil_append, run,
      aloneStep, serverStep, hlock, validateStale, identifyStale, hentry, hkept, Option.isNone_none,
      hfree, and_self, nameListener, privateFileMode_isPrivate, identifyListener]
    exact ⟨_, rfl⟩

/-- Whatever happened before, a server that starts while nobody holds the lock can get bound by
itself if and only if the umask makes new sockets private, or no socket was left behind as it was
created. -/
theorem restart_iff (h : Reach (Endpoint.step umask) .new endpoint)
    (hlock : endpoint.shared.lock = none) (hidle : endpoint.servers id = .idle) :
    (∃ (events : List ServerEvent) (endpoint' : Endpoint) (inode : Nat),
      run (Endpoint.step umask) endpoint (events.map (.server id)) = some endpoint' ∧
        endpoint'.servers id = .bound inode inode inode) ↔
      freshMode umask &&& 0o077 = 0 ∨
        ∀ entry, endpoint.shared.entry = some entry → entry.mode ≠ freshMode umask := by
  have harbitrated := arbitrated_of_reach h
  constructor
  · rintro ⟨events, endpoint', inode, hrun, hbound⟩
    by_contra hneither
    rw [not_or] at hneither
    obtain ⟨hmask, hleft⟩ := hneither
    rw [not_forall] at hleft
    obtain ⟨entry, hleft⟩ := hleft
    rw [Classical.not_imp, not_not] at hleft
    obtain ⟨hentry, hmode⟩ := hleft
    have hopen : entry.isPrivate = false := by
      unfold SocketEntry.isPrivate
      rw [hmode]
      exact decide_eq_false hmask
    rw [run_alone, hidle] at hrun
    obtain ⟨⟨phase, shared⟩, halone, rfl⟩ := Option.map_eq_some_iff.mp hrun
    have hearly := run_invariant
      (I := fun state : ServerPhase × Shared => state.1.early = true ∧ state.2.entry = some entry)
      (fun _ _ _ _ hstate hstep => aloneStep_early hopen hstate hstep) halone ⟨rfl, hentry⟩
    dsimp only at hbound hearly
    rw [Function.update_self] at hbound
    rw [hbound] at hearly
    cases hearly.1
  · intro hleft
    obtain ⟨n, hn⟩ := harbitrated.sockets
    have hprivate : ∀ entry, endpoint.shared.entry = some entry → entry.isPrivate = true := by
      intro entry hentry
      rcases harbitrated.modes entry hentry with hmode | hmode
      · have hkept := privateFileMode_isPrivate entry.inode
        rwa [← hmode] at hkept
      · rcases hleft with hmask | hleft
        · unfold SocketEntry.isPrivate
          rw [hmode]
          exact decide_eq_true hmask
        · exact absurd hmode (hleft entry hentry)
    obtain ⟨shared', hrun⟩ := @run_startEvents umask id endpoint.shared n hlock
      (hn n (Nat.le_refl n)) hprivate
    refine ⟨startEvents endpoint.shared.entry n,
      { endpoint with
        shared := shared'
        servers := Function.update endpoint.servers id (.bound n n n) }, n, ?_, ?_⟩
    · rw [run_alone, hidle, hrun]
      rfl
    · exact Function.update_self ..

/-- What a server leaves that dies before its socket is private. -/
def abandoned : Endpoint :=
  after (Endpoint.step 0o022) .new
    ([ServerEvent.openAuthority, .tryLock, .validate, .bind 5, .crash, .unlock, .close].map
      (.server 1))

theorem abandoned_socket_blocks :
    ¬ ∃ (events : List ServerEvent) (endpoint' : Endpoint) (inode : Nat),
      run (Endpoint.step 0o022) abandoned (events.map (.server 2)) = some endpoint' ∧
        endpoint'.servers 2 = .bound inode inode inode := by
  have hreach : Reach (Endpoint.step 0o022) .new abandoned := reach_after _ _ _
  rw [restart_iff hreach rfl rfl]
  rintro (hmask | hleft)
  · exact absurd hmask (by decide)
  · exact hleft ⟨5, 0o755⟩ rfl rfl

end Restart

/-! ## Clients -/

/-- The phases of a client that has seen no server to be bound. -/
def ClientPhase.clear : ClientPhase → Bool
  | .opened authority | .found authority _ | .dialled authority _ _ | .classifying authority =>
    !authority
  | .probing | .answered .noOwner => true
  | .idle | .answered _ => false

theorem probeAuthority_clear {authority : Bool} {owned : NativeConnectOutcome}
    {phase' : ClientPhase} (h : probeAuthority id shared authority owned = (phase', shared'))
    (howned : owned ≠ .noOwner) (hclear : phase'.clear = true) :
    authority = false ∨ shared'.lock = some (.client id) := by
  unfold probeAuthority at h
  cases authority with
  | false => exact .inl rfl
  | true =>
    rw [if_pos rfl] at h
    split at h
    · obtain ⟨-, rfl⟩ := Prod.mk.inj h
      exact .inr rfl
    · obtain ⟨rfl, -⟩ := Prod.mk.inj h
      cases owned with
      | noOwner => exact absurd rfl howned
      | connected | ownerUnresponsive | failed => cases hclear

/-- A client becomes clear when there is no lock file, or by taking the lock. -/
theorem clientStep_clear {phase phase' : ClientPhase} {event : ClientEvent}
    (h : clientStep id shared phase event = some (phase', shared')) (hclear : phase'.clear = true) :
    phase.clear = true ∨ shared'.authority = false ∨ shared'.lock = some (.client id) := by
  unfold clientStep at h
  split at h
  · obtain ⟨rfl, rfl⟩ := of_some_pair h
    exact .inr (.inl (Bool.not_eq_true' _ ▸ hclear))
  · obtain ⟨rfl, rfl⟩ := of_some_pair h
    refine .inl ?_
    unfold validateEndpoint at hclear
    split at hclear
    · exact hclear
    · split at hclear
      · exact hclear
      · cases hclear
  · obtain ⟨rfl, rfl⟩ := of_some_pair h
    refine .inl ?_
    unfold dialEndpoint at hclear
    split at hclear <;> exact hclear
  · obtain ⟨rfl, rfl⟩ := of_some_pair h
    exact .inl hclear
  · obtain ⟨rfl, rfl⟩ := of_some_pair h
    exact .inl hclear
  · rcases probeAuthority_clear (Option.some.inj h) (by rintro ⟨⟩) hclear with rfl | hlock
    · exact .inl rfl
    · exact .inr (.inr hlock)
  · rcases probeAuthority_clear (Option.some.inj h) (by rintro ⟨⟩) hclear with rfl | hlock
    · exact .inl rfl
    · exact .inr (.inr hlock)
  · exact .inl rfl
  · cases h
  · cases h
  · obtain ⟨rfl, rfl⟩ := of_some_pair h
    cases hclear
  · cases h

def Endpoint.Unowned (endpoint : Endpoint) : Prop :=
  ∀ server inode listenerId socketIdentity,
    endpoint.servers server ≠ .bound inode listenerId socketIdentity

theorem Arbitrated.unowned (h : Arbitrated umask endpoint)
    (hclear : endpoint.shared.authority = false ∨ endpoint.shared.lock = some (.client id)) :
    endpoint.Unowned := by
  intro server inode listenerId socketIdentity hbound
  have howned := h.owned server
  rw [hbound] at howned
  rcases hclear with hauthority | hlock
  · cases hauthority.symm.trans howned.1
  · cases hlock.symm.trans howned.2.1.held

theorem seen_unowned {start : Endpoint} (h : Reach (Endpoint.step umask) .new start)
    (hidle : start.clients id = .idle) (hrun : Reach (Endpoint.step umask) start endpoint)
    (hclear : (endpoint.clients id).clear = true) :
    ∃ between, Reach (Endpoint.step umask) start between ∧
      Reach (Endpoint.step umask) between endpoint ∧ between.clients id ≠ .idle ∧
      between.Unowned := by
  induction hrun with
  | refl =>
    rw [hidle] at hclear
    cases hclear
  | @tail before after event hbefore hstep ih =>
    have hlater : (before.clients id).clear = true → ∃ between,
        Reach (Endpoint.step umask) start between ∧ Reach (Endpoint.step umask) between after ∧
          between.clients id ≠ .idle ∧ between.Unowned := by
      intro hold
      obtain ⟨between, hstart, hreach, hbetween⟩ := ih hold
      exact ⟨between, hstart, hreach.tail hstep, hbetween⟩
    cases event with
    | server server event =>
      obtain ⟨⟨phase, shared⟩, -, rfl⟩ := Option.map_eq_some_iff.mp hstep
      exact hlater hclear
    | client client event =>
      have harbitrated := arbitrated_of_reach (h.trans (hbefore.tail hstep))
      obtain ⟨⟨phase, shared⟩, hclient, rfl⟩ := Option.map_eq_some_iff.mp hstep
      dsimp only at hclear
      by_cases hid : id = client
      · subst hid
        have hphase : Function.update before.clients id phase id = phase := Function.update_self ..
        rw [hphase] at hclear
        rcases clientStep_clear hclient hclear with hold | hnow
        · exact hlater hold
        · refine ⟨_, hbefore.tail hstep, .refl _, ?_, harbitrated.unowned hnow⟩
          dsimp only
          rw [hphase]
          rintro rfl
          cases hclear
      · rw [Function.update_of_ne hid] at hclear
        exact hlater hclear

/-- A client that is told that there is no owner was told the truth: at some moment between its
first step and its answer no server was bound. -/
theorem noOwner_is_linearizable {start : Endpoint} (h : Reach (Endpoint.step umask) .new start)
    (hidle : start.clients id = .idle) (hrun : Reach (Endpoint.step umask) start endpoint)
    (hanswer : endpoint.clients id = .answered .noOwner) :
    ∃ between, Reach (Endpoint.step umask) start between ∧
      Reach (Endpoint.step umask) between endpoint ∧ between.clients id ≠ .idle ∧
      between.Unowned :=
  seen_unowned h hidle hrun (by rw [hanswer]; rfl)

/-- A client that looks before the first server and is answered when the server is bound. -/
def overtaken : Endpoint :=
  after (Endpoint.step 0o022) .new
    (.client 1 .openAuthority :: (startEvents none 5).map (.server 1) ++
      [.client 1 .validate, .client 1 .giveUp, .client 1 .tryLock])

theorem overtaken_answer_is_linearizable :
    ∃ between, Reach (Endpoint.step 0o022) .new between ∧
      Reach (Endpoint.step 0o022) between overtaken ∧ between.clients 1 ≠ .idle ∧
      between.Unowned :=
  noOwner_is_linearizable (.refl _) rfl (reach_after (Endpoint.step 0o022) _ _) rfl

end CodeStory.Transport
