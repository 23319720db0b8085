import CodeStory.Lib.Countdown
import CodeStory.Retrieval.StageOutcomes

/-!
# No permit is lost

What the workers and the channel have left to do is at most six steps for each permit that is out.
As long as a permit is out one of these steps can be taken, so whatever the calls do, and also when
they have all given up, the permits come back.
-/

set_option autoImplicit false

namespace CodeStory.Retrieval

open Transition

variable {Hits : Type}

def Worker.stepsLeft : Worker → Nat
  | .idle => 0
  | .taken _ => 4
  | .timed _ _ => 3
  | .running _ _ _ => 2
  | .sent _ => 1

namespace StagePool

def work (pool : StagePool Hits) : Nat :=
  6 * pool.senders.length + 5 * pool.queue.length + (pool.workers.map Worker.stepsLeft).sum

variable {config : PoolConfig} {pool pool' : StagePool Hits} {event : PoolEvent Hits} {worker : Nat}

/-! ## Permits and steps -/

theorem stepsLeft_bounds (current : Worker) :
    (if (current.job.any fun _ => true) = true then 1 else 0) ≤ current.stepsLeft ∧
      current.stepsLeft ≤ 6 * (if (current.job.any fun _ => true) = true then 1 else 0) := by
  cases current <;> simp [Worker.job, Worker.stepsLeft]

theorem sum_bounds (workers : List Worker) :
    workers.countP (fun w => w.job.any fun _ => true) ≤ (workers.map Worker.stepsLeft).sum ∧
      (workers.map Worker.stepsLeft).sum ≤
        6 * workers.countP (fun w => w.job.any fun _ => true) := by
  induction workers with
  | nil => exact ⟨Nat.le_refl _, Nat.le_refl _⟩
  | cons first rest ih =>
    have hfirst := stepsLeft_bounds first
    rw [List.countP_cons, List.map_cons, List.sum_cons]
    omega

theorem permits_bounds (pool : StagePool Hits) :
    pool.permits ≤ pool.work ∧ pool.work ≤ 6 * pool.permits := by
  have hsum := sum_bounds pool.workers
  unfold permits tally work
  rw [List.countP_true]
  omega

/-! ## One step less -/

theorem sum_set {workers : List Worker} (next : Worker) {current : Worker}
    (hworker : workers[worker]? = some current) :
    ((workers.set worker next).map Worker.stepsLeft).sum + current.stepsLeft =
      (workers.map Worker.stepsLeft).sum + next.stepsLeft := by
  induction workers generalizing worker with
  | nil => cases hworker
  | cons first rest ih =>
    cases worker with
    | zero =>
      obtain rfl : first = current := Option.some.inj hworker
      simp only [List.set_cons_zero, List.map_cons, List.sum_cons]
      omega
    | succ worker =>
      have hrest := @ih worker hworker
      simp only [List.set_cons_succ, List.map_cons, List.sum_cons]
      omega

theorem work_step (hinternal : event.internal = true) (h : pool.step config event = some pool') :
    pool'.work + 1 = pool.work := by
  cases event with
  | call | refuse | acquire | expire | report | receive | disconnect => cases hinternal
  | send id =>
    simp only [step] at h
    split at h
    · rename_i job hcall hfind
      obtain ⟨-, h⟩ := Option.ite_none_right_eq_some.mp h
      obtain rfl := Option.some.inj h
      have hjob := List.mem_of_find?_eq_some hfind
      have hlength := List.length_erase_of_mem hjob
      have hpos := List.length_pos_of_mem hjob
      simp only [work, setCall, List.length_append, List.length_singleton]
      omega
    · cases h
  | recv worker =>
    simp only [step] at h
    split at h
    · rename_i job rest hworker hqueue
      obtain rfl := Option.some.inj h
      have hsum := sum_set (.taken job) hworker
      simp only [work, setWorker, hqueue, List.length_cons, Worker.stepsLeft] at hsum ⊢
      omega
    · cases h
  | storeQueueWait worker now =>
    simp only [step] at h
    split at h
    · rename_i job hworker
      obtain rfl := Option.some.inj h
      have hsum := sum_set (.timed job (elapsedMs job.queuedAt now)) hworker
      simp only [work, setWorker, setState, Worker.stepsLeft] at hsum ⊢
      omega
    · cases h
  | storeStarted worker now =>
    simp only [step] at h
    split at h
    · rename_i job queueWaitMs hworker
      obtain rfl := Option.some.inj h
      have hsum := sum_set (.running job queueWaitMs now) hworker
      simp only [work, setWorker, setState, Worker.stepsLeft] at hsum ⊢
      omega
    · cases h
  | finish worker outcome endedAt finishedAt =>
    simp only [step] at h
    split at h
    · rename_i job queueWaitMs startedAt hworker
      obtain rfl := Option.some.inj h
      have hsum := sum_set (.sent job) hworker
      simp only [work, setWorker, deliver, Worker.stepsLeft] at hsum ⊢
      omega
    · cases h
  | release worker =>
    simp only [step] at h
    split at h
    · rename_i job hworker
      obtain rfl := Option.some.inj h
      have hsum := sum_set .idle hworker
      simp only [work, setWorker, Worker.stepsLeft] at hsum ⊢
      omega
    · cases h

/-! ## One step more -/

theorem worker_can_step {current : Worker} (hworker : pool.workers[worker]? = some current)
    (hbusy : current ≠ .idle) :
    ∃ (event : PoolEvent Hits) (pool' : StagePool Hits),
      event.internal = true ∧ pool.step config event = some pool' := by
  cases current with
  | idle => exact absurd rfl hbusy
  | taken => exact ⟨.storeQueueWait worker 0, _, rfl, by simp only [step, hworker]; rfl⟩
  | timed => exact ⟨.storeStarted worker 0, _, rfl, by simp only [step, hworker]; rfl⟩
  | running => exact ⟨.finish worker .panicked 0 0, _, rfl, by simp only [step, hworker]; rfl⟩
  | sent => exact ⟨.release worker, _, rfl, by simp only [step, hworker]; rfl⟩

theorem can_step (hqueue : 0 < config.queueCapacity) (hlimit : 0 < config.workerLimit)
    (hsound : pool.Sound config) (hconsistent : pool.Consistent) (hwork : 0 < pool.work) :
    ∃ (event : PoolEvent Hits) (pool' : StagePool Hits),
      event.internal = true ∧ pool.step config event = some pool' := by
  by_cases hbusy : ∃ current ∈ pool.workers, current ≠ Worker.idle
  · obtain ⟨current, hmem, hbusy⟩ := hbusy
    obtain ⟨worker, hworker⟩ := List.mem_iff_getElem?.mp hmem
    exact worker_can_step hworker hbusy
  · have hidle : ∀ current ∈ pool.workers, current = Worker.idle := by
      intro current hmem
      by_contra hne
      exact hbusy ⟨current, hmem, hne⟩
    cases hjobs : pool.queue with
    | cons job rest =>
      have hfirst : pool.workers[0]? = some .idle := by
        have hlt : 0 < pool.workers.length := by
          rw [hsound.threads]
          exact hlimit
        rw [List.getElem?_eq_getElem hlt, hidle _ (List.getElem_mem hlt)]
      exact ⟨.recv 0, _, rfl, by simp only [step, hfirst, hjobs]; rfl⟩
    | nil =>
      have hnothing : (pool.workers.map Worker.stepsLeft).sum = 0 := by
        have hbounds := (sum_bounds pool.workers).2
        rw [List.countP_eq_zero.mpr fun current hmem => by
          rw [hidle current hmem]; exact Bool.false_ne_true] at hbounds
        exact Nat.le_zero.mp hbounds
      have hsenders : 0 < pool.senders.length := by
        unfold work at hwork
        rw [hjobs, hnothing, List.length_nil] at hwork
        omega
      obtain ⟨job, hjob⟩ := List.exists_mem_of_length_pos hsenders
      obtain ⟨deadline, admissionWaitMs, stageCancelled, hcall⟩ := hconsistent.sending job hjob
      obtain ⟨found, hfound⟩ : ∃ found, pool.senders.find? (·.call = job.call) = some found := by
        refine Option.isSome_iff_exists.mp (List.find?_isSome.mpr ⟨job, hjob, decide_eq_true rfl⟩)
      refine ⟨.send job.call, ?_⟩
      simp only [step, hcall, hfound, hjobs, List.length_nil, if_pos hqueue]
      exact ⟨_, rfl, rfl⟩

/-! ## Runs -/

theorem countdown (hqueue : 0 < config.queueCapacity) (hlimit : 0 < config.workerLimit) :
    Countdown (step config) (fun pool : StagePool Hits => pool.Sound config ∧ pool.Consistent)
      (·.internal = true) work where
  keep h hstep := ⟨(step_moved hstep).sound h.1, (step_moved hstep).consistent h.2⟩
  down _ hinternal hstep := work_step hinternal hstep
  enabled h hwork := can_step hqueue hlimit h.1 h.2 hwork

/-- From every state that a run reaches, the workers and the channel alone take at most six steps
for each job in flight; where they can take no more none is in flight, and some run gets there. -/
theorem permits_come_back (hqueue : 0 < config.queueCapacity) (hlimit : 0 < config.workerLimit)
    (h : Reach (step config) (StagePool.new Hits config) pool) :
    (∀ {events : List (PoolEvent Hits)} {pool' : StagePool Hits},
      (∀ event ∈ events, event.internal = true) → run (step config) pool events = some pool' →
        events.length ≤ 6 * pool.inFlight ∧
          ((∀ event : PoolEvent Hits, event.internal = true → pool'.step config event = none) →
            pool'.inFlight = 0)) ∧
      ∃ (events : List (PoolEvent Hits)) (pool' : StagePool Hits),
        (∀ event ∈ events, event.internal = true) ∧ run (step config) pool events = some pool' ∧
          pool'.inFlight = 0 := by
  have hcountdown := @countdown Hits config hqueue hlimit
  have hsound := sound_of_reach h
  have hconsistent := consistent_of_reach h
  constructor
  · intro events pool' hinternal hrun
    obtain ⟨⟨hsound', hconsistent'⟩, hlength⟩ :=
      hcountdown.length_add hinternal ⟨hsound, hconsistent⟩ hrun
    have hbounds := permits_bounds pool
    have hbounds' := permits_bounds pool'
    rw [← hsound.counted] at hbounds
    rw [← hsound'.counted] at hbounds'
    refine ⟨by omega, fun hstuck => ?_⟩
    have hzero := hcountdown.eq_zero_of_stuck ⟨hsound', hconsistent'⟩ hstuck
    omega
  · obtain ⟨events, pool', hinternal, hrun, ⟨hsound', -⟩, hzero⟩ :=
      hcountdown.exists_run ⟨hsound, hconsistent⟩
    refine ⟨events, pool', hinternal, hrun, ?_⟩
    have hbounds' := permits_bounds pool'
    rw [← hsound'.counted] at hbounds'
    omega

theorem overdue_permit_comes_back :
    (∀ {events : List (PoolEvent Nat)} {pool' : StagePool Nat},
      (∀ event ∈ events, event.internal = true) → run (step oneWorker) overdue events = some pool' →
        events.length ≤ 6 * overdue.inFlight ∧
          ((∀ event : PoolEvent Nat, event.internal = true → pool'.step oneWorker event = none) →
            pool'.inFlight = 0)) ∧
      ∃ (events : List (PoolEvent Nat)) (pool' : StagePool Nat),
        (∀ event ∈ events, event.internal = true) ∧
          run (step oneWorker) overdue events = some pool' ∧
          pool'.inFlight = 0 :=
  permits_come_back (by decide) (by decide) (reach_after (step oneWorker) _ _)

end StagePool

end CodeStory.Retrieval
