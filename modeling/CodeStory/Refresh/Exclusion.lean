import CodeStory.Refresh.Lock

/-!
# One refresh at a time

In every run whose probes are truthful at most one process holds the lock, the lock file names it,
and only it changes the status. A lock whose owner is gone is taken at the next try.
-/

set_option autoImplicit false

namespace CodeStory.Refresh

/-- Probes never report a running process as gone, nor a process that is not there as running. They
may fail. -/
structure World.Truthful (world : World) (moment : Moment) : Prop where
  running : ∀ {pid startIdentity}, world.live pid = some startIdentity →
    moment.probe pid = .running startIdentity ∨ ∃ reason, moment.probe pid = .unknown reason
  gone : ∀ {pid}, world.live pid = none →
    moment.probe pid = .notRunning ∨ ∃ reason, moment.probe pid = .unknown reason

/-- What is asked of the moment in which a lock is tried for: a lock file that is there is read. -/
def World.Honest (world : World) : Event → Prop
  | .acquire _ _ moment => world.Truthful moment ∧ moment.readsLock = true
  | .spawn _ _ | .exit _ | .drop _ _ | .writeStatus _ _ _ _ _ _ | .renew _ _ _ _ => True

section Runs

variable (paths : Paths)

inductive Run (start : World) : World → Prop where
  | refl : Run start start
  | tail {world world' : World} {event : Event} : Run start world → world.Honest event →
      world.step paths event = some world' → Run start world'

end Runs

/-! ## The lock file -/

section LockFile

variable {paths : Paths} {files : Files} {lock : LocalRefreshLockFile} {moment : Moment}
  {owner : LocalRefreshOwner} {pid : Nat} {projectRoot : String}

theorem readLock_of_whole (hreads : moment.readsLock = true)
    (hlock : files.lock = some (.whole lock)) :
      readLocalRefreshLockFile moment files = some lock := by
  unfold readLocalRefreshLockFile
  rw [if_pos hreads, hlock]

theorem whole_of_readLock (h : readLocalRefreshLockFile moment files = some lock) :
    files.lock = some (.whole lock) := by
  unfold readLocalRefreshLockFile at h
  split at h
  · split at h
    · rename_i hlock
      obtain rfl := Option.some.inj h
      exact hlock
    · cases h
    · cases h
  · cases h

theorem create_of_some {text : LockText} (write : WriteOutcome) (h : files.lock = some text) :
    createLocalRefreshLockFile files lock write = (files, .alreadyExists) := by
  unfold createLocalRefreshLockFile
  rw [h]

theorem create_of_none {write : WriteOutcome} (h : files.lock = none) :
    (createLocalRefreshLockFile files lock write).2 ≠ .alreadyExists ∧
      ((createLocalRefreshLockFile files lock write).2 = .created →
        (createLocalRefreshLockFile files lock write).1.lock = some (.whole lock)) := by
  unfold createLocalRefreshLockFile
  rw [h]
  cases write with
  | written => exact ⟨(fun h => nomatch h), fun _ => rfl⟩
  | unopened | broken | unsynced => exact ⟨(fun h => nomatch h), fun h => nomatch h⟩

theorem create_status (write : WriteOutcome) :
    (createLocalRefreshLockFile files lock write).1.status = files.status := by
  unfold createLocalRefreshLockFile
  cases files.lock with
  | some text => rfl
  | none => cases write <;> rfl

/-- What a second try brings is acquired only by a lock file of its own. -/
theorem reclaim_spec :
    (reclaimLocalRefreshLock paths files projectRoot lock moment).1.status = files.status ∧
      ((reclaimLocalRefreshLock paths files projectRoot lock moment).2 = .acquired owner →
        (reclaimLocalRefreshLock paths files projectRoot lock moment).1.lock =
          some (.whole lock) ∧ lock.owner = owner) := by
  unfold reclaimLocalRefreshLock
  dsimp only
  have hkept : (if moment.removes = true then { files with lock := none } else files).status =
      files.status := by
    split <;> rfl
  generalize (if moment.removes = true then { files with lock := none } else files) =
    files' at hkept
  have hstatus := @create_status files' lock moment.secondWrite
  cases hlock : files'.lock with
  | some text =>
    rw [create_of_some _ hlock]
    exact ⟨hkept, fun h => nomatch h⟩
  | none =>
    obtain ⟨hnot, hcreated⟩ := @create_of_none files' lock moment.secondWrite hlock
    generalize createLocalRefreshLockFile files' lock moment.secondWrite = result
      at hstatus hnot hcreated
    obtain ⟨files'', outcome⟩ := result
    cases outcome with
    | created =>
      refine ⟨hstatus.trans hkept, fun h => ⟨hcreated rfl, ?_⟩⟩
      exact LocalRefreshLockAttempt.acquired.inj h
    | alreadyExists => exact absurd rfl hnot
    | failed => exact ⟨hstatus.trans hkept, fun h => nomatch h⟩

/-- Trying for the lock leaves the status alone, and what is acquired is a lock
file of one's own. -/
theorem tryAcquire_spec :
    (tryAcquireLocalRefreshLock paths files pid projectRoot moment).1.status = files.status ∧
      ((tryAcquireLocalRefreshLock paths files pid projectRoot moment).2 = .acquired owner →
        (tryAcquireLocalRefreshLock paths files pid projectRoot moment).1.lock =
            some (.whole (lockFor paths pid projectRoot moment)) ∧
          (lockFor paths pid projectRoot moment).owner = owner) := by
  unfold tryAcquireLocalRefreshLock
  by_cases hguarded : moment.guarded = true
  · rw [if_pos hguarded]
    dsimp only
    have hstatus := @create_status files (lockFor paths pid projectRoot moment) moment.firstWrite
    cases hlock : files.lock with
    | some text =>
      rw [create_of_some _ hlock]
      dsimp only
      cases activeLocalRefreshStatus paths moment files projectRoot with
      | some status => exact ⟨rfl, fun h => nomatch h⟩
      | none =>
        dsimp only
        split
        · exact reclaim_spec
        · exact ⟨rfl, fun h => nomatch h⟩
    | none =>
      obtain ⟨hnot, hcreated⟩ :=
        @create_of_none files (lockFor paths pid projectRoot moment) moment.firstWrite hlock
      generalize createLocalRefreshLockFile files (lockFor paths pid projectRoot moment)
        moment.firstWrite = result at hstatus hnot hcreated
      obtain ⟨files', outcome⟩ := result
      cases outcome with
      | created =>
        exact ⟨hstatus, fun h => ⟨hcreated rfl, LocalRefreshLockAttempt.acquired.inj h⟩⟩
      | alreadyExists => exact absurd rfl hnot
      | failed => exact ⟨hstatus, fun h => nomatch h⟩
  · rw [if_neg hguarded]
    exact ⟨rfl, fun h => nomatch h⟩

/-- A lock file that is there and not stale is left alone. -/
theorem tryAcquire_of_claimed {text : LockText} (hlock : files.lock = some text)
    (hstale : localRefreshLockFileIsStale moment files = false) :
    (tryAcquireLocalRefreshLock paths files pid projectRoot moment).1 = files ∧
      ∀ owner, (tryAcquireLocalRefreshLock paths files pid projectRoot moment).2 ≠
        .acquired owner := by
  unfold tryAcquireLocalRefreshLock
  by_cases hguarded : moment.guarded = true
  · rw [if_pos hguarded]
    dsimp only
    rw [create_of_some _ hlock]
    dsimp only
    cases activeLocalRefreshStatus paths moment files projectRoot with
    | some status => exact ⟨rfl, fun _ h => nomatch h⟩
    | none =>
      dsimp only
      rw [hstale]
      exact ⟨rfl, fun _ h => nomatch h⟩
  · rw [if_neg hguarded]
    exact ⟨rfl, fun _ h => nomatch h⟩

end LockFile

/-! ## The status file -/

section StatusFile

variable {paths : Paths} {files : Files} {moment : Moment} {owner : LocalRefreshOwner}
  {projectRoot : String}

structure LocalRefreshStatus.By (status : LocalRefreshStatus) (owner : LocalRefreshOwner) :
    Prop where
  token : status.ownerToken = some owner.token
  pid : status.pid = owner.pid
  identity : status.processStartIdentity = owner.processStartIdentity
  started : status.startedAtEpochMs = owner.startedAtEpochMs

/-- The lock file names an owner. -/
def Files.Name (files : Files) (owner : LocalRefreshOwner) : Prop :=
  ∃ lock, files.lock = some (.whole lock) ∧ lock.owner = owner

theorem named_of_matches (h : localRefreshLockMatches paths files projectRoot owner moment = true) :
    files.Name owner := by
  unfold localRefreshLockMatches at h
  obtain ⟨lock, hread, hmatches⟩ := (Option.any_eq_true _ _).mp h
  refine ⟨lock, whole_of_readLock hread, ?_⟩
  simp only [Bool.and_eq_true, beq_iff_eq] at hmatches
  obtain ⟨⟨⟨⟨-, htoken⟩, hpid⟩, hidentity⟩, hstarted⟩ := hmatches
  unfold LocalRefreshLockFile.owner
  rw [htoken, hpid, hidentity, hstarted]

/-- The files after an operation on the status: the lock file is as it was, and so is the status
unless the owner is named by the lock file and has written. -/
structure Files.WrittenBy (files files' : Files) (owner : LocalRefreshOwner) : Prop where
  lock : files'.lock = files.lock
  status : files'.status = files.status ∨
    files.Name owner ∧ ∃ status, files'.status = some status ∧ status.By owner

theorem writeStatus_spec (status phase : String) (lastFailureReason : Option String) :
    files.WrittenBy (writeLocalRefreshStatus paths files owner projectRoot status phase
      lastFailureReason moment).1 owner := by
  unfold writeLocalRefreshStatus
  by_cases hguarded : moment.guarded = true
  · rw [if_neg (not_not_intro hguarded)]
    by_cases hmatches : localRefreshLockMatches paths files projectRoot owner moment = true
    · rw [if_neg (not_not_intro hmatches)]
      by_cases hwrites : moment.writesStatus = true
      · rw [if_pos hwrites]
        exact ⟨rfl, .inr ⟨named_of_matches hmatches, _, rfl, ⟨rfl, rfl, rfl, rfl⟩⟩⟩
      · rw [if_neg hwrites]
        exact ⟨rfl, .inl rfl⟩
    · rw [if_pos hmatches]
      exact ⟨rfl, .inl rfl⟩
  · rw [if_pos hguarded]
    exact ⟨rfl, .inl rfl⟩

theorem renewStatus_spec (phase : String) :
    files.WrittenBy (renewLocalRefreshStatus paths files owner projectRoot phase moment).1
      owner := by
  unfold renewLocalRefreshStatus
  by_cases hguarded : moment.guarded = true
  · rw [if_neg (not_not_intro hguarded)]
    by_cases hmatches : localRefreshLockMatches paths files projectRoot owner moment = true
    · rw [if_neg (not_not_intro hmatches)]
      cases readLocalRefreshStatusFile moment files with
      | none => exact ⟨rfl, .inl rfl⟩
      | some status =>
        dsimp only
        split
        · exact ⟨rfl, .inl rfl⟩
        · rename_i hsame
          simp only [not_or, ne_eq, not_not] at hsame
          obtain ⟨-, -, -, -, hpid, hidentity, htoken, hstarted⟩ := hsame
          split
          · exact ⟨rfl, .inr ⟨named_of_matches hmatches, _, rfl,
              ⟨htoken, hpid, hidentity, hstarted⟩⟩⟩
          · exact ⟨rfl, .inl rfl⟩
    · rw [if_pos hmatches]
      exact ⟨rfl, .inl rfl⟩
  · rw [if_pos hguarded]
    exact ⟨rfl, .inl rfl⟩

end StatusFile

/-! ## Runs -/

section System

variable {paths : Paths} {start world world' : World} {event : Event} {owner : LocalRefreshOwner}
  {moment : Moment}

/-- A lock that is held: the lock file names its owner, who runs under the identity it recorded. -/
structure World.Holds (world : World) (owner : LocalRefreshOwner) : Prop where
  named : world.files.Name owner
  alive : ∃ startIdentity, world.live owner.pid = some startIdentity ∧
    (owner.processStartIdentity = none ∨ owner.processStartIdentity = some startIdentity)

structure World.Exclusive (world : World) : Prop where
  single : world.holders.length ≤ 1
  holds : ∀ owner ∈ world.holders, world.Holds owner

theorem World.Exclusive.eq_singleton (h : world.Exclusive) (hmem : owner ∈ world.holders) :
    world.holders = [owner] := by
  have hlength := h.single
  cases hlist : world.holders with
  | nil =>
    rw [hlist] at hmem
    exact absurd hmem List.not_mem_nil
  | cons first later =>
    rw [hlist] at hmem hlength
    rw [List.length_cons] at hlength
    obtain rfl := List.eq_nil_of_length_eq_zero (by omega : later.length = 0)
    rw [List.mem_singleton.mp hmem]

/-- To a truthful probe the owner of a lock that is held is never gone. -/
theorem World.Holds.not_stale (h : world.Holds owner) (htruthful : world.Truthful moment)
    (hreads : moment.readsLock = true) :
    localRefreshLockFileIsStale moment world.files = false := by
  obtain ⟨lock, hlock, rfl⟩ := h.named
  obtain ⟨startIdentity, hlive, hrecorded⟩ := h.alive
  change world.live lock.pid = some startIdentity at hlive
  change lock.processStartIdentity = none ∨ lock.processStartIdentity = some startIdentity
    at hrecorded
  unfold localRefreshLockFileIsStale
  rw [readLock_of_whole hreads hlock]
  dsimp only
  unfold processOwnerState
  rcases htruthful.running hlive with hprobe | ⟨reason, hprobe⟩
  · rw [hprobe]
    rcases hrecorded with hnone | hsome
    · rw [hnone]
      rfl
    · rw [hsome]
      dsimp only
      rw [if_pos rfl]
      rfl
  · rw [hprobe]
    rfl

/-- One try for the lock. -/
theorem World.Exclusive.acquire (h : world.Exclusive) {pid : Nat} {projectRoot : String}
    (hlive : world.live pid ≠ none) (htruthful : world.Truthful moment)
    (hreads : moment.readsLock = true) :
    (world.settle (tryAcquireLocalRefreshLock paths world.files pid projectRoot
      moment)).Exclusive := by
  cases hholders : world.holders with
  | cons holder later =>
    have hmem : holder ∈ world.holders := by
      rw [hholders]
      exact List.mem_cons_self
    have hholds := h.holds holder hmem
    obtain ⟨lock, hlock, -⟩ := hholds.named
    obtain ⟨hfiles, hnot⟩ := @tryAcquire_of_claimed paths world.files moment pid projectRoot
      (.whole lock) hlock (hholds.not_stale htruthful hreads)
    generalize tryAcquireLocalRefreshLock paths world.files pid projectRoot moment = result
      at hfiles hnot
    obtain ⟨files, attempt⟩ := result
    dsimp only at hfiles hnot
    cases attempt with
    | acquired owner => exact absurd rfl (hnot owner)
    | busy status pid startedAt =>
      rw [hfiles]
      exact h
    | failed =>
      rw [hfiles]
      exact h
  | nil =>
    have hspec := fun owner => @tryAcquire_spec paths world.files moment owner pid projectRoot
    generalize tryAcquireLocalRefreshLock paths world.files pid projectRoot moment = result at hspec
    obtain ⟨files, attempt⟩ := result
    have hempty : ∀ owner ∈ world.holders, ({ world with files } : World).Holds owner := by
      intro owner hmem
      rw [hholders] at hmem
      exact absurd hmem List.not_mem_nil
    cases attempt with
    | acquired owner =>
      obtain ⟨hlock, howner⟩ := (hspec owner).2 rfl
      obtain ⟨startIdentity, hidentity⟩ := Option.ne_none_iff_exists'.mp hlive
      have hholds : (world.settle (files, .acquired owner)).Holds owner := by
        refine ⟨⟨_, hlock, howner⟩, startIdentity, ?_⟩
        rw [← howner]
        refine ⟨hidentity, ?_⟩
        change recordedProcessStartIdentity (moment.probe pid) = none ∨
          recordedProcessStartIdentity (moment.probe pid) = some startIdentity
        rcases htruthful.running hidentity with hprobe | ⟨reason, hprobe⟩
        · rw [hprobe]
          exact .inr rfl
        · rw [hprobe]
          exact .inl rfl
      constructor
      · change (owner :: world.holders).length ≤ 1
        rw [hholders]
        exact Nat.le_refl 1
      · intro other hmem
        have hone : other ∈ owner :: world.holders := hmem
        rw [hholders, List.mem_singleton] at hone
        rw [hone]
        exact hholds
    | busy status pid startedAt => exact ⟨h.single, hempty⟩
    | failed => exact ⟨h.single, hempty⟩

/-- Files in which the lock file is as it was name who they named. -/
theorem World.Exclusive.of_lock {files : Files} (h : world.Exclusive)
    (hlock : files.lock = world.files.lock) : ({ world with files } : World).Exclusive := by
  refine ⟨h.single, fun owner hmem => ?_⟩
  have hholds := h.holds owner hmem
  obtain ⟨lock, hwhole, howner⟩ := hholds.named
  exact ⟨⟨lock, hlock.trans hwhole, howner⟩, hholds.alive⟩

/-- What each step preserves. -/
theorem World.Exclusive.step (h : world.Exclusive) (hhonest : world.Honest event)
    (hstep : world.step paths event = some world') : world'.Exclusive := by
  cases event with
  | spawn pid startIdentity =>
    obtain ⟨hnone, hworld⟩ := Option.ite_none_right_eq_some.mp hstep
    obtain rfl := Option.some.inj hworld
    refine ⟨h.single, fun owner hmem => ?_⟩
    have hholds := h.holds owner hmem
    obtain ⟨recorded, hlive, hrecorded⟩ := hholds.alive
    refine ⟨hholds.named, recorded, ?_, hrecorded⟩
    have hne : owner.pid ≠ pid := by
      rintro rfl
      rw [hnone] at hlive
      cases hlive
    exact (if_neg hne).trans hlive
  | exit pid =>
    obtain rfl := Option.some.inj hstep
    refine ⟨Nat.le_trans (List.length_filter_le _ _) h.single, fun owner hmem => ?_⟩
    obtain ⟨hmem, hpid⟩ := List.mem_filter.mp hmem
    have hholds := h.holds owner hmem
    obtain ⟨recorded, hlive, hrecorded⟩ := hholds.alive
    refine ⟨hholds.named, recorded, ?_, hrecorded⟩
    exact (if_neg (of_decide_eq_true hpid)).trans hlive
  | acquire pid projectRoot moment =>
    obtain ⟨hlive, hworld⟩ := Option.ite_none_right_eq_some.mp hstep
    obtain rfl := Option.some.inj hworld
    exact h.acquire hlive hhonest.1 hhonest.2
  | drop owner moment =>
    obtain ⟨hmem, hworld⟩ := Option.ite_none_right_eq_some.mp hstep
    obtain rfl := Option.some.inj hworld
    have hnone : world.holders.erase owner = [] := by
      rw [h.eq_singleton hmem]
      exact List.erase_cons_head owner []
    constructor
    · dsimp only
      rw [hnone]
      exact Nat.zero_le 1
    · dsimp only
      intro other hother
      rw [hnone] at hother
      exact absurd hother List.not_mem_nil
  | writeStatus owner projectRoot status phase lastFailureReason moment =>
    obtain ⟨-, hworld⟩ := Option.ite_none_right_eq_some.mp hstep
    obtain rfl := Option.some.inj hworld
    exact h.of_lock (writeStatus_spec status phase lastFailureReason).lock
  | renew owner projectRoot phase moment =>
    obtain ⟨-, hworld⟩ := Option.ite_none_right_eq_some.mp hstep
    obtain rfl := Option.some.inj hworld
    exact h.of_lock (renewStatus_spec phase).lock

theorem Run.exclusive (h : Run paths start world) (hstart : start.holders = []) :
    world.Exclusive := by
  induction h with
  | refl =>
    refine ⟨?_, fun owner hmem => ?_⟩
    · rw [hstart]
      exact Nat.zero_le 1
    · rw [hstart] at hmem
      exact absurd hmem List.not_mem_nil
  | tail _ hhonest hstep ih => exact ih.step hhonest hstep

/-! ### Two processes -/

def plainPaths : Paths := ⟨fun left right => left == right, id⟩

/-- A moment at which nothing fails, and every probe tells who runs. -/
def World.calmMoment (world : World) (now : Int) : Moment where
  startedAt := now
  now := now
  probe := fun pid => (world.live pid).elim .notRunning .running
  guarded := true
  readsLock := true
  readsStatus := true
  lockModified := some 0
  removes := true
  firstWrite := .written
  secondWrite := .written
  writesStatus := true

theorem World.truthful_calmMoment (world : World) (now : Int) :
    world.Truthful (world.calmMoment now) := by
  constructor
  · intro pid startIdentity hlive
    exact .inl (by simp [World.calmMoment, hlive])
  · intro pid hlive
    exact .inl (by simp [World.calmMoment, hlive])

def World.tries (world : World) (pid : Nat) (now : Int) : World :=
  world.settle (tryAcquireLocalRefreshLock plainPaths world.files pid "/project"
    (world.calmMoment now))

theorem Run.tries {pid : Nat} (h : Run plainPaths start world) (hlive : world.live pid ≠ none)
    (now : Int) : Run plainPaths start (world.tries pid now) := by
  refine @Run.tail plainPaths start world _ (.acquire pid "/project" (world.calmMoment now)) h
    ⟨world.truthful_calmMoment now, rfl⟩ ?_
  exact if_pos hlive

def idleWorld : World := ⟨fun _ => none, ⟨none, none⟩, [], []⟩

def startedWorld : World :=
  { idleWorld with
    live := fun pid => if pid = 8 then some "boot-8" else if pid = 7 then some "boot-7" else none }

def heldWorld : World := startedWorld.tries 7 5

def firstOwner : LocalRefreshOwner := ⟨"7:5", 7, some "boot-7", 5⟩

theorem run_to_heldWorld : Run plainPaths idleWorld heldWorld := by
  have hfirst := @Run.tail plainPaths idleWorld idleWorld _ (.spawn 7 "boot-7") .refl trivial rfl
  have hsecond : Run plainPaths idleWorld startedWorld :=
    @Run.tail plainPaths idleWorld _ startedWorld (.spawn 8 "boot-8") hfirst trivial rfl
  exact hsecond.tries (by decide) 5

theorem firstOwner_mem : firstOwner ∈ heldWorld.holders := List.mem_singleton.mpr rfl

def writtenWorld : World :=
  { heldWorld with files :=
    (writeLocalRefreshStatus plainPaths heldWorld.files firstOwner "/project"
      "refreshing" "incremental_index" none (heldWorld.calmMoment 5)).1 }

theorem step_to_writtenWorld :
    heldWorld.step plainPaths (.writeStatus firstOwner "/project" "refreshing" "incremental_index"
      none (heldWorld.calmMoment 5)) = some writtenWorld := by
  unfold World.step
  exact if_pos firstOwner_mem

/-- Process 8 finds the lock busy, and process 7 dies. -/
def leftWorld : World :=
  { writtenWorld.tries 8 6 with
    live := fun pid => if pid = 7 then none else writtenWorld.live pid
    holders := []
    owners := [] }

theorem run_to_leftWorld : Run plainPaths idleWorld leftWorld := by
  have hwritten : Run plainPaths idleWorld writtenWorld :=
    Run.tail run_to_heldWorld (by exact trivial) step_to_writtenWorld
  exact @Run.tail plainPaths idleWorld (writtenWorld.tries 8 6) leftWorld (.exit 7)
    (hwritten.tries (by decide) 6) trivial rfl

/-! ### One holder -/

/-- In every run at most one process holds the lock; it is alive, and the lock file names it. -/
theorem at_most_one_holder (h : Run paths start world) (hstart : start.holders = []) :
    world.holders.length ≤ 1 ∧ ∀ owner ∈ world.holders, world.files.Name owner ∧
      ∃ startIdentity, world.live owner.pid = some startIdentity ∧
        (owner.processStartIdentity = none ∨ owner.processStartIdentity = some startIdentity) := by
  have hexclusive := h.exclusive hstart
  refine ⟨hexclusive.single, fun owner hmem => ?_⟩
  have hholds := hexclusive.holds owner hmem
  exact ⟨hholds.named, hholds.alive⟩

/-- Process 8 takes the lock once process 7 is gone. -/
theorem second_process_takes_over :
    (leftWorld.tries 8 9).holders = [⟨"8:9", 8, some "boot-8", 9⟩] ∧
      (leftWorld.tries 8 9).holders.length ≤ 1 ∧
      ∀ owner ∈ (leftWorld.tries 8 9).holders, (leftWorld.tries 8 9).files.Name owner ∧
        ∃ startIdentity, (leftWorld.tries 8 9).live owner.pid = some startIdentity ∧
          (owner.processStartIdentity = none ∨
            owner.processStartIdentity = some startIdentity) :=
  ⟨rfl, at_most_one_holder (run_to_leftWorld.tries (by decide) 9) rfl⟩

/-- A lock file that cannot be read counts by its age: a second process takes a
lock that is held. -/
example : ((tryAcquireLocalRefreshLock plainPaths heldWorld.files 8 "/project"
    { heldWorld.calmMoment 120001 with readsLock := false }).2 =
      .acquired ⟨"8:120001", 8, some "boot-8", 120001⟩) := rfl

theorem Files.Name.unique {files : Files} {owner owner' : LocalRefreshOwner} (h : files.Name owner)
    (h' : files.Name owner') : owner = owner' := by
  obtain ⟨lock, hlock, rfl⟩ := h
  obtain ⟨lock', hlock', rfl⟩ := h'
  rw [hlock] at hlock'
  obtain rfl := LockText.whole.inj (Option.some.inj hlock')
  rfl

/-- A step changes the status only for an owner that the lock file names. -/
theorem World.step_status (hstep : world.step paths event = some world') :
    world'.files.status = world.files.status ∨ ∃ owner, world.files.Name owner ∧
      ∃ status, world'.files.status = some status ∧ status.By owner := by
  cases event with
  | spawn pid startIdentity =>
    obtain ⟨-, hworld⟩ := Option.ite_none_right_eq_some.mp hstep
    obtain rfl := Option.some.inj hworld
    exact .inl rfl
  | exit pid =>
    obtain rfl := Option.some.inj hstep
    exact .inl rfl
  | acquire pid projectRoot moment =>
    obtain ⟨-, hworld⟩ := Option.ite_none_right_eq_some.mp hstep
    obtain rfl := Option.some.inj hworld
    have hspec := fun owner =>
      (@tryAcquire_spec paths world.files moment owner pid projectRoot).1
    generalize tryAcquireLocalRefreshLock paths world.files pid projectRoot moment = result at hspec
    obtain ⟨files, attempt⟩ := result
    cases attempt with
    | acquired owner => exact .inl (hspec owner)
    | busy status pid startedAt => exact .inl (hspec ⟨"", 0, none, 0⟩)
    | failed => exact .inl (hspec ⟨"", 0, none, 0⟩)
  | drop owner moment =>
    obtain ⟨-, hworld⟩ := Option.ite_none_right_eq_some.mp hstep
    obtain rfl := Option.some.inj hworld
    left
    change (dropLocalRefreshLock world.files owner moment).status = world.files.status
    unfold dropLocalRefreshLock
    split <;> rfl
  | writeStatus owner projectRoot status phase lastFailureReason moment =>
    obtain ⟨-, hworld⟩ := Option.ite_none_right_eq_some.mp hstep
    obtain rfl := Option.some.inj hworld
    exact (writeStatus_spec status phase lastFailureReason).status.imp id fun h => ⟨owner, h⟩
  | renew owner projectRoot phase moment =>
    obtain ⟨-, hworld⟩ := Option.ite_none_right_eq_some.mp hstep
    obtain rfl := Option.some.inj hworld
    exact (renewStatus_spec phase).status.imp id fun h => ⟨owner, h⟩

/-- While a process holds the lock nobody else changes the status: neither a former owner whose
heartbeat goes on, nor one that tries for the lock. -/
theorem only_the_holder_changes_the_status (h : Run paths start world)
    (hstart : start.holders = []) (hmem : owner ∈ world.holders)
    (hstep : world.step paths event = some world') :
    world'.files.status = world.files.status ∨
      ∃ status, world'.files.status = some status ∧ status.By owner := by
  rcases World.step_status hstep with hsame | ⟨other, hnamed, hwritten⟩
  · exact .inl hsame
  · obtain rfl := hnamed.unique ((h.exclusive hstart).holds owner hmem).named
    exact .inr hwritten

theorem first_process_writes :
    writtenWorld.files.status = heldWorld.files.status ∨
      ∃ status, writtenWorld.files.status = some status ∧ status.By firstOwner :=
  only_the_holder_changes_the_status run_to_heldWorld rfl firstOwner_mem step_to_writtenWorld

/-! ## Nothing that is left behind blocks the lock -/

/-- The status, if there is one, names its owner. -/
def World.Signed (world : World) : Prop :=
  ∀ status, world.files.status = some status → status.ownerToken.isSome = true

theorem World.Signed.step (h : world.Signed) (hstep : world.step paths event = some world') :
    world'.Signed := by
  intro status hstatus
  rcases World.step_status hstep with hsame | ⟨owner, -, written, hwritten, hby⟩
  · exact h status (hsame.symm.trans hstatus)
  · rw [hwritten] at hstatus
    obtain rfl := Option.some.inj hstatus
    rw [hby.token]
    rfl

theorem Run.signed (h : Run paths start world) (hstart : start.Signed) : world.Signed := by
  induction h with
  | refl => exact hstart
  | tail _ _ hstep ih => exact ih.step hstep

/-- A status is in force only as long as the lock file of its owner is not stale. -/
theorem World.Signed.inactive_of_stale (h : world.Signed) (projectRoot : String)
    (hstale : localRefreshLockFileIsStale moment world.files = true) :
    activeLocalRefreshStatus paths moment world.files projectRoot = none := by
  unfold activeLocalRefreshStatus
  cases hread : readLocalRefreshStatusFile moment world.files with
  | none => rfl
  | some status =>
    have hstatus : world.files.status = some status := by
      unfold readLocalRefreshStatusFile at hread
      exact (Option.ite_none_right_eq_some.mp hread).2
    dsimp only
    split
    · rfl
    split
    · rfl
    split
    · rfl
    rename_i howner
    apply if_pos
    refine ⟨h status hstatus, fun hany => howner ?_⟩
    obtain ⟨lock, hlock, hmatches⟩ := (Option.any_eq_true _ _).mp hany
    unfold localRefreshLockFileIsStale at hstale
    rw [hlock] at hstale
    unfold localRefreshStatusMatchesLock at hmatches
    simp only [Bool.and_eq_true, beq_iff_eq] at hmatches
    obtain ⟨⟨⟨-, hpid⟩, hidentity⟩, -⟩ := hmatches
    rw [hpid, hidentity]
    exact beq_iff_eq.mp hstale

/-- Guard and disk do as they are asked. -/
structure Moment.Healthy (moment : Moment) : Prop where
  guarded : moment.guarded = true
  removes : moment.removes = true
  firstWrite : moment.firstWrite = .written
  secondWrite : moment.secondWrite = .written

/-- With a healthy disk a try takes the lock exactly if there is no lock file or it is stale. No
status that any owner has left behind stands in the way. -/
theorem acquires_iff_unclaimed (h : Run paths start world) (hstart : start.Signed)
    (hhealthy : moment.Healthy) (pid : Nat) (projectRoot : String) :
    (tryAcquireLocalRefreshLock paths world.files pid projectRoot moment).2 =
        .acquired (lockFor paths pid projectRoot moment).owner ↔
      world.files.lock = none ∨ localRefreshLockFileIsStale moment world.files = true := by
  cases hlock : world.files.lock with
  | none =>
    refine iff_of_true ?_ (.inl rfl)
    unfold tryAcquireLocalRefreshLock
    rw [if_pos hhealthy.guarded]
    unfold createLocalRefreshLockFile
    rw [hlock, hhealthy.firstWrite]
  | some text =>
    cases hstale : localRefreshLockFileIsStale moment world.files with
    | false =>
      refine iff_of_false ?_ (fun h => h.elim (fun h => nomatch h) (fun h => nomatch h))
      exact (tryAcquire_of_claimed hlock hstale).2 _
    | true =>
      refine iff_of_true ?_ (.inr rfl)
      have hinactive :=
        @World.Signed.inactive_of_stale paths world moment (h.signed hstart) projectRoot hstale
      unfold tryAcquireLocalRefreshLock
      rw [if_pos hhealthy.guarded]
      dsimp only
      rw [create_of_some _ hlock]
      dsimp only
      rw [hinactive]
      dsimp only
      rw [if_pos hstale]
      unfold reclaimLocalRefreshLock
      dsimp only
      rw [if_pos hhealthy.removes]
      unfold createLocalRefreshLockFile
      rw [hhealthy.secondWrite]

theorem idleWorld_signed : idleWorld.Signed := by
  intro status hstatus
  cases hstatus

/-- The status that process 7 has left behind does not keep process 8 from the lock. -/
theorem left_status_does_not_block :
    leftWorld.files.status.isSome = true ∧
      ((tryAcquireLocalRefreshLock plainPaths leftWorld.files 8 "/project"
          (leftWorld.calmMoment 9)).2 =
          .acquired (lockFor plainPaths 8 "/project" (leftWorld.calmMoment 9)).owner ↔
        leftWorld.files.lock = none ∨
          localRefreshLockFileIsStale (leftWorld.calmMoment 9) leftWorld.files = true) :=
  ⟨rfl, acquires_iff_unclaimed run_to_leftWorld idleWorld_signed ⟨rfl, rfl, rfl, rfl⟩ 8 "/project"⟩

end System

end CodeStory.Refresh
