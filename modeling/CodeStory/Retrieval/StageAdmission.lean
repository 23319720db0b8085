import CodeStory.Retrieval.StagePool
import Mathlib.Data.List.Perm.Basic

/-!
# Permits of the stage workers

The counter of the jobs in flight is the number of jobs between a call's admission and the drop of
its job, so it never exceeds the capacity, and a job that waits for room in the channel has a worker
free to make it.
-/

set_option autoImplicit false

namespace CodeStory.Retrieval

open Transition

variable {Hits : Type}

/-! ## What a step can do -/

namespace StagePool

/-- What a call can do that changes nothing but its own record. -/
inductive Answer (pool : StagePool Hits) (id deadline : Nat) : Call Hits → Call Hits → Prop where
  | refuse {startedAt returnedAt : Nat} {cancelled stageCancelled : Bool} :
      Answer pool id deadline ⟨deadline, .acquiring startedAt, stageCancelled⟩
        ⟨deadline, .returned (.ok (refusedStageRun cancelled startedAt returnedAt)), true⟩
  | expire {admissionWaitMs : Nat} {cancelled stageCancelled : Bool} :
      Answer pool id deadline ⟨deadline, .waiting admissionWaitMs, stageCancelled⟩
        ⟨deadline, .reporting (cancellationReason cancelled) admissionWaitMs
          (pool.states id).started, true⟩
  | report {reason : String} {admissionWaitMs : Nat} {started stageCancelled : Bool} :
      Answer pool id deadline ⟨deadline, .reporting reason admissionWaitMs started, stageCancelled⟩
        ⟨deadline, .returned (.ok (cancelledStageRun reason admissionWaitMs started
          (pool.states id).queueWaitMs)), stageCancelled⟩
  | late {admissionWaitMs : Nat} {cancelled stageCancelled : Bool}
      {completion : StageCompletion Hits} (hmail : pool.mail id = some completion) :
      Answer pool id deadline ⟨deadline, .waiting admissionWaitMs, stageCancelled⟩
        ⟨deadline, .returned (.ok (lateStageRun completion cancelled admissionWaitMs)), true⟩
  | inTime {admissionWaitMs : Nat} {stageCancelled : Bool} {completion : StageCompletion Hits}
      (hmail : pool.mail id = some completion) (htime : completion.finishedAt < deadline) :
      Answer pool id deadline ⟨deadline, .waiting admissionWaitMs, stageCancelled⟩
        ⟨deadline, .returned (completion.stageRun admissionWaitMs), stageCancelled⟩
  | disconnect {admissionWaitMs : Nat} {stageCancelled : Bool} (hmail : pool.mail id = none)
      (hconnected : pool.connected id = false) :
      Answer pool id deadline ⟨deadline, .waiting admissionWaitMs, stageCancelled⟩
        ⟨deadline, .returned (.error .disconnected), stageCancelled⟩

inductive Moved (config : PoolConfig) (pool : StagePool Hits) : StagePool Hits → Prop where
  | call {id deadline startedAt : Nat} (hcall : pool.calls id = none) :
      Moved config pool (pool.setCall id ⟨deadline, .acquiring startedAt, false⟩)
  | answer {id deadline : Nat} {before after : Call Hits} (hcall : pool.calls id = some before)
      (hanswer : pool.Answer id deadline before after) : Moved config pool (pool.setCall id after)
  | acquire {id deadline startedAt admissionWaitMs queuedAt : Nat} {stageCancelled : Bool}
      (hcall : pool.calls id = some ⟨deadline, .acquiring startedAt, stageCancelled⟩)
      (hroom : pool.inFlight < config.capacity) :
      Moved config pool
        { pool.setCall id ⟨deadline, .sending admissionWaitMs, stageCancelled⟩ with
          inFlight := pool.inFlight + 1
          senders := ⟨id, queuedAt⟩ :: pool.senders }
  | send {deadline admissionWaitMs : Nat} {stageCancelled : Bool} {job : StageJob}
      (hcall : pool.calls job.call = some ⟨deadline, .sending admissionWaitMs, stageCancelled⟩)
      (hjob : job ∈ pool.senders) (hroom : pool.queue.length < config.queueCapacity) :
      Moved config pool
        { pool.setCall job.call ⟨deadline, .waiting admissionWaitMs, stageCancelled⟩ with
          senders := pool.senders.erase job
          queue := pool.queue ++ [job] }
  | recv {worker : Nat} {job : StageJob} {rest : List StageJob}
      (hworker : pool.workers[worker]? = some .idle) (hqueue : pool.queue = job :: rest) :
      Moved config pool { pool.setWorker worker (.taken job) with queue := rest }
  | storeQueueWait {worker queueWaitMs : Nat} {job : StageJob}
      (hworker : pool.workers[worker]? = some (.taken job)) :
      Moved config pool ((pool.setWorker worker (.timed job queueWaitMs)).setState job.call
        { pool.states job.call with queueWaitMs })
  | storeStarted {worker queueWaitMs now : Nat} {job : StageJob}
      (hworker : pool.workers[worker]? = some (.timed job queueWaitMs)) :
      Moved config pool ((pool.setWorker worker (.running job queueWaitMs now)).setState job.call
        { pool.states job.call with started := true })
  | finish {worker queueWaitMs startedAt executionMs finishedAt : Nat} {job : StageJob}
      {outcome : TaskOutcome Hits}
      (hworker : pool.workers[worker]? = some (.running job queueWaitMs startedAt)) :
      Moved config pool ((pool.setWorker worker (.sent job)).deliver job.call
        ⟨outcome.caught, queueWaitMs, executionMs, finishedAt⟩)
  | release {worker : Nat} {job : StageJob} (hworker : pool.workers[worker]? = some (.sent job)) :
      Moved config pool { pool.setWorker worker .idle with inFlight := pool.inFlight - 1 }

variable {config : PoolConfig} {pool pool' : StagePool Hits} {event : PoolEvent Hits}

theorem step_moved (h : pool.step config event = some pool') : pool.Moved config pool' := by
  cases event with
  | call id requestDeadline budgetMs now startedAt =>
    simp only [step] at h
    split at h
    · obtain rfl := Option.some.inj h
      exact .call ‹_›
    · cases h
  | refuse id cancelled now cancelledAfter returnedAt =>
    simp only [step] at h
    split at h
    · obtain ⟨-, h⟩ := Option.ite_none_right_eq_some.mp h
      obtain rfl := Option.some.inj h
      exact .answer ‹_› .refuse
    · cases h
  | acquire id cancelled now acquiredAt queuedAt =>
    simp only [step] at h
    split at h
    · obtain ⟨-, h⟩ := Option.ite_none_left_eq_some.mp h
      obtain ⟨hroom, h⟩ := Option.ite_none_right_eq_some.mp h
      obtain rfl := Option.some.inj h
      exact .acquire ‹_› hroom
    · cases h
  | send id =>
    simp only [step] at h
    split at h
    · rename_i job hcall hfind
      obtain ⟨hroom, h⟩ := Option.ite_none_right_eq_some.mp h
      obtain rfl := Option.some.inj h
      have hid : job.call = id := by simpa using List.find?_some hfind
      subst hid
      exact .send hcall (List.mem_of_find?_eq_some hfind) hroom
    · cases h
  | recv worker =>
    simp only [step] at h
    split at h
    · obtain rfl := Option.some.inj h
      exact .recv ‹_› ‹_›
    · cases h
  | storeQueueWait worker now =>
    simp only [step] at h
    split at h
    · obtain rfl := Option.some.inj h
      exact .storeQueueWait ‹_›
    · cases h
  | storeStarted worker now =>
    simp only [step] at h
    split at h
    · obtain rfl := Option.some.inj h
      exact .storeStarted ‹_›
    · cases h
  | finish worker outcome endedAt finishedAt =>
    simp only [step] at h
    split at h
    · obtain rfl := Option.some.inj h
      exact .finish ‹_›
    · cases h
  | release worker =>
    simp only [step] at h
    split at h
    · obtain rfl := Option.some.inj h
      exact .release ‹_›
    · cases h
  | expire id cancelled now cancelledAfter =>
    simp only [step] at h
    split at h
    · obtain ⟨-, h⟩ := Option.ite_none_right_eq_some.mp h
      obtain rfl := Option.some.inj h
      exact .answer ‹_› .expire
    · cases h
  | report id =>
    simp only [step] at h
    split at h
    · obtain rfl := Option.some.inj h
      exact .answer ‹_› .report
    · cases h
  | receive id cancelled cancelledAfter =>
    simp only [step] at h
    split at h
    · rename_i completion hcall hmail
      split at h
      · obtain rfl := Option.some.inj h
        exact .answer hcall (.late hmail)
      · rename_i hlate
        obtain rfl := Option.some.inj h
        refine .answer hcall (.inTime hmail ?_)
        unfold StageCompletion.late at hlate
        rw [Bool.or_eq_true, decide_eq_true_iff, not_or] at hlate
        omega
    · cases h
  | disconnect id =>
    simp only [step] at h
    split at h
    · rename_i hcall hmail
      obtain ⟨hconnected, h⟩ := Option.ite_none_left_eq_some.mp h
      obtain rfl := Option.some.inj h
      exact .answer hcall (.disconnect hmail (Bool.eq_false_iff.mpr hconnected))
    · cases h

/-! ## Counting jobs -/

/-- The jobs that satisfy `p`, waiting to enter the channel, in it, or with a worker. -/
def tally (f : Worker → Option StageJob) (p : StageJob → Bool) (pool : StagePool Hits) : Nat :=
  pool.senders.countP p + pool.queue.countP p + pool.workers.countP (fun worker => (f worker).any p)

def permits (pool : StagePool Hits) : Nat := pool.tally Worker.job fun _ => true

variable {f : Worker → Option StageJob} {p : StageJob → Bool} {worker : Nat}

theorem countP_setWorker (next : Worker) {current : Worker}
    (hworker : pool.workers[worker]? = some current) :
    (pool.workers.set worker next).countP (fun w => (f w).any p) +
        (if (f current).any p then 1 else 0) =
      pool.workers.countP (fun w => (f w).any p) + (if (f next).any p then 1 else 0) := by
  obtain ⟨hlt, hget⟩ := List.getElem?_eq_some_iff.mp hworker
  have hpos : (f current).any p = true → 0 < pool.workers.countP (fun w => (f w).any p) := by
    intro hp
    exact List.countP_pos_iff.mpr ⟨current, List.mem_of_getElem? hworker, hp⟩
  rw [List.countP_set hlt, hget]
  by_cases hp : (f current).any p = true
  · have := hpos hp
    rw [if_pos hp]
    omega
  · rw [if_neg hp]
    omega

theorem countP_concat (jobs : List StageJob) (job : StageJob) :
    (jobs ++ [job]).countP p = jobs.countP p + (if p job then 1 else 0) := by
  rw [List.countP_append, List.countP_singleton]

theorem countP_erase {jobs : List StageJob} {job : StageJob} (hjob : job ∈ jobs) :
    (jobs.erase job).countP p + (if p job then 1 else 0) = jobs.countP p := by
  rw [(List.perm_cons_erase hjob).countP_eq, List.countP_cons]

/-- A worker that goes on with the same job, or with none, leaves the tally as it is. -/
theorem tally_setWorker (next : Worker) {current : Worker}
    (hworker : pool.workers[worker]? = some current) (hsame : f next = f current) :
    (pool.setWorker worker next).tally f p = pool.tally f p := by
  have hcount := countP_setWorker (f := f) (p := p) next hworker
  rw [hsame] at hcount
  simp only [tally, setWorker]
  omega

theorem tally_recv {job : StageJob} {rest : List StageJob}
    (hworker : pool.workers[worker]? = some .idle) (hqueue : pool.queue = job :: rest)
    (hidle : f .idle = none) (htaken : f (.taken job) = some job) :
    tally f p { pool.setWorker worker (.taken job) with queue := rest } = pool.tally f p := by
  have hcount := countP_setWorker (f := f) (p := p) (.taken job) hworker
  rw [hidle, htaken, Option.any_none, Option.any_some] at hcount
  simp only [tally, setWorker, hqueue, List.countP_cons]
  simp only [Bool.false_eq_true, if_false] at hcount
  omega

theorem tally_drop (next : Worker) {current : Worker} {job : StageJob}
    (hworker : pool.workers[worker]? = some current) (hbefore : f current = some job)
    (hafter : f next = none) :
    (pool.setWorker worker next).tally f p + (if p job then 1 else 0) = pool.tally f p := by
  have hcount := countP_setWorker (f := f) (p := p) next hworker
  rw [hbefore, hafter, Option.any_none, Option.any_some] at hcount
  simp only [tally, setWorker]
  simp only [Bool.false_eq_true, if_false] at hcount
  omega

/-! ## Admission -/

structure Sound (config : PoolConfig) (pool : StagePool Hits) : Prop where
  counted : pool.inFlight = pool.permits
  bounded : pool.inFlight ≤ config.capacity
  threads : pool.workers.length = config.workerLimit
  room : pool.queue.length ≤ config.queueCapacity

theorem sound_new (config : PoolConfig) : (StagePool.new Hits config).Sound config where
  counted := by
    have hidle : ∀ worker ∈ List.replicate config.workerLimit Worker.idle,
        ¬ (worker.job.any fun _ => true) = true := by
      intro worker hworker
      rw [List.eq_of_mem_replicate hworker]
      exact Bool.false_ne_true
    simp only [permits, tally, StagePool.new, List.countP_nil, List.countP_eq_zero.mpr hidle]
  bounded := Nat.zero_le _
  threads := List.length_replicate
  room := Nat.zero_le _

/-- Only an acquisition and a drop change the number of permits that are out, and with it the
counter. -/
theorem Moved.counted (h : pool.Moved config pool') (hcounted : pool.inFlight = pool.permits) :
    pool'.inFlight = pool'.permits := by
  cases h with
  | call => exact hcounted
  | answer => exact hcounted
  | acquire =>
    simp only [permits, tally, setCall, List.countP_cons, if_true] at hcounted ⊢
    omega
  | send _ hjob =>
    have herase := countP_erase (p := fun _ => true) hjob
    simp only [permits, tally, setCall, countP_concat, if_true] at hcounted herase ⊢
    omega
  | recv hworker hqueue => exact hcounted.trans (tally_recv hworker hqueue rfl rfl).symm
  | storeQueueWait hworker =>
    change pool.inFlight = (pool.setWorker _ (.timed _ _)).permits
    refine hcounted.trans (Eq.symm (tally_setWorker _ hworker ?_))
    rfl
  | storeStarted hworker =>
    change pool.inFlight = (pool.setWorker _ (.running _ _ _)).permits
    refine hcounted.trans (Eq.symm (tally_setWorker _ hworker ?_))
    rfl
  | finish hworker =>
    change pool.inFlight = (pool.setWorker _ (.sent _)).permits
    refine hcounted.trans (Eq.symm (tally_setWorker _ hworker ?_))
    rfl
  | release hworker =>
    have hdrop := tally_drop (f := Worker.job) (p := fun _ => true) .idle hworker rfl rfl
    change pool.inFlight - 1 = (pool.setWorker _ .idle).permits
    simp only [permits, if_true] at hcounted hdrop ⊢
    omega

theorem Moved.sound (h : pool.Moved config pool') (hsound : pool.Sound config) :
    pool'.Sound config := by
  refine ⟨h.counted hsound.counted, ?_, ?_, ?_⟩
  · have hbounded := hsound.bounded
    cases h with
    | acquire _ hroom => exact hroom
    | release => exact Nat.le_trans (Nat.sub_le _ _) hbounded
    | _ => exact hbounded
  · have hthreads := hsound.threads
    cases h with
    | recv | storeQueueWait | storeStarted | finish | release =>
      exact (List.length_set).trans hthreads
    | _ => exact hthreads
  · have hqueued := hsound.room
    cases h with
    | send _ _ hroom =>
      rw [List.length_append, List.length_singleton]
      exact hroom
    | recv _ hqueue =>
      rw [hqueue, List.length_cons] at hqueued
      exact Nat.le_trans (Nat.le_succ _) hqueued
    | _ => exact hqueued

theorem sound_of_reach (h : Reach (step config) (StagePool.new Hits config) pool) :
    pool.Sound config :=
  h.invariant (fun _ _ _ hsound hstep => (step_moved hstep).sound hsound) (sound_new config)

/-- A job that cannot enter the channel finds a worker that holds no permit. -/
theorem Sound.idle_worker (hsound : pool.Sound config) {job : StageJob} (hjob : job ∈ pool.senders)
    (hfull : config.queueCapacity ≤ pool.queue.length) : Worker.idle ∈ pool.workers := by
  have hsome : ∀ (jobs : List StageJob), jobs.countP (fun _ => true) = jobs.length :=
    fun jobs => congrFun List.countP_true jobs
  have hcounted := hsound.counted
  have hbounded := hsound.bounded
  have hthreads := hsound.threads
  have hsenders := List.length_pos_of_mem hjob
  simp only [permits, tally, hsome] at hcounted
  unfold PoolConfig.capacity at hbounded
  have hbusy : pool.workers.countP (fun worker => worker.job.any fun _ => true) <
      pool.workers.length := by omega
  by_contra hnone
  refine absurd (List.countP_eq_length.mpr ?_) (Nat.ne_of_lt hbusy)
  intro worker hworker
  cases worker with
  | idle => exact absurd hworker hnone
  | taken | timed | running | sent => rfl

/-- In every run the counter is the number of permits that are out and within the capacity, a permit
that is dropped was counted, and no job waits for a task to end before it enters the channel. -/
theorem admission_is_exact (h : Reach (step config) (StagePool.new Hits config) pool) :
    pool.inFlight = pool.permits ∧ pool.inFlight ≤ config.workerLimit + config.queueCapacity ∧
      (∀ worker ∈ pool.workers, worker.job ≠ none → 0 < pool.inFlight) ∧
      ∀ job ∈ pool.senders, config.queueCapacity ≤ pool.queue.length →
        Worker.idle ∈ pool.workers := by
  have hsound := sound_of_reach h
  refine ⟨hsound.counted, Nat.le_trans hsound.bounded (Nat.min_le_left _ _), ?_,
    fun job hjob => hsound.idle_worker hjob⟩
  intro worker hworker hjob
  obtain ⟨job, hjob⟩ := Option.ne_none_iff_exists'.mp hjob
  have hpos : 0 < pool.workers.countP (fun w => w.job.any fun _ => true) := by
    refine List.countP_pos_iff.mpr ⟨worker, hworker, ?_⟩
    rw [hjob]
    rfl
  rw [hsound.counted]
  unfold permits tally
  omega

def oneWorker : PoolConfig := ⟨1, 1⟩

/-- Two calls with one worker that has not taken a job yet. -/
def crowded : StagePool Nat :=
  after (step oneWorker) (.new Nat oneWorker)
    [.call 1 9 1 0 0, .acquire 1 false 0 0 0, .send 1, .call 2 9 1 0 0, .acquire 2 false 0 0 0]

theorem crowded_admission :
    crowded.inFlight = crowded.permits ∧ crowded.inFlight ≤ 1 + 1 ∧
      (∀ worker ∈ crowded.workers, worker.job ≠ none → 0 < crowded.inFlight) ∧
      ∀ job ∈ crowded.senders, 1 ≤ crowded.queue.length → Worker.idle ∈ crowded.workers :=
  admission_is_exact (reach_after (step oneWorker) _ _)

example : crowded.senders.length = 1 ∧ crowded.queue.length = 1 ∧ crowded.inFlight = 2 := by decide

end StagePool

end CodeStory.Retrieval
