import CodeStory.Retrieval.StageAdmission

/-!
# What a stage call reports

Every job stands in one place at a time and its task runs at most once. Whatever calls, workers and
deadlines do to each other, a call reports hits only of its own task and in time, reports a queue
wait only if the task was started, and then the wait that the worker measured; no worker is lost.
-/

set_option autoImplicit false

namespace CodeStory.Retrieval

open Transition

variable {Hits : Type}

/-- The flag that tells a task to stop is raised when its call gives up, not before. -/
def Call.Flagged : Call Hits → Prop
  | ⟨_, .acquiring _, stageCancelled⟩ => stageCancelled = false
  | ⟨_, .sending _, stageCancelled⟩ => stageCancelled = false
  | ⟨_, .waiting _, stageCancelled⟩ => stageCancelled = false
  | ⟨_, .reporting _ _ _, stageCancelled⟩ => stageCancelled = true
  | ⟨_, .returned _, _⟩ => True

namespace StagePool

/-! ## Where a job is -/

/-- The number of places that hold the job of a call, the record of what has run among them. -/
def load (pool : StagePool Hits) (id : Nat) : Nat :=
  pool.tally Worker.task (·.call = id) + pool.executed.countP (·.1 = id)

/-- How many places a job can have in each phase of its call. -/
def Carries : Option (Call Hits) → Nat → Prop
  | none, places => places = 0
  | some ⟨_, .acquiring _, _⟩, places => places = 0
  | some ⟨_, .sending _, _⟩, places => places = 1
  | some ⟨_, .waiting _, _⟩, places => places = 1
  | some ⟨_, .reporting _ _ _, _⟩, places => places = 1
  | some ⟨_, .returned _, _⟩, places => places ≤ 1

theorem Carries.le_one {call : Option (Call Hits)} {places : Nat} (h : Carries call places) :
    places ≤ 1 := by
  rcases call with _ | ⟨deadline, phase, stageCancelled⟩
  · exact Nat.le_trans (Nat.le_of_eq h) (Nat.zero_le 1)
  · cases phase with
    | acquiring => exact Nat.le_trans (Nat.le_of_eq h) (Nat.zero_le 1)
    | sending | waiting | reporting => exact Nat.le_of_eq h
    | returned => exact h

variable {config : PoolConfig} {pool pool' : StagePool Hits} {id worker : Nat} {job : StageJob}

theorem Answer.carries {deadline places : Nat} {before after : Call Hits}
    (h : pool.Answer id deadline before after) (hbefore : Carries (some before) places) :
    Carries (some after) places := by
  cases h with
  | refuse | report | late | inTime | disconnect => exact hbefore.le_one
  | expire => exact hbefore

theorem load_finish {next current : Worker} {completion : StageCompletion Hits}
    (hworker : pool.workers[worker]? = some current) (hbefore : current.task = some job)
    (hafter : next.task = none) (other : Nat) :
    ((pool.setWorker worker next).deliver job.call completion).load other = pool.load other := by
  have hdrop := tally_drop (p := (·.call = other)) next hworker hbefore hafter
  simp only [load, deliver, setWorker, tally, List.countP_cons] at hdrop ⊢
  omega

/-- Every step but an acquisition leaves each job in as many places as before. -/
theorem Moved.carries (h : pool.Moved config pool')
    (hcarries : ∀ id, Carries (pool.calls id) (pool.load id)) (id : Nat) :
    Carries (pool'.calls id) (pool'.load id) := by
  cases h with
  | @call other _ _ hcall =>
    have hother := hcarries other
    change Carries (Function.update pool.calls other _ id) (pool.load id)
    by_cases hid : id = other
    · subst hid
      rw [Function.update_self]
      rw [hcall] at hother
      exact hother
    · rw [Function.update_of_ne hid]
      exact hcarries id
  | @answer other _ _ _ hcall hanswer =>
    have hother := hcarries other
    change Carries (Function.update pool.calls other _ id) (pool.load id)
    by_cases hid : id = other
    · subst hid
      rw [Function.update_self]
      rw [hcall] at hother
      exact hanswer.carries hother
    · rw [Function.update_of_ne hid]
      exact hcarries id
  | @acquire other deadline startedAt admissionWaitMs queuedAt stageCancelled hcall hroom =>
    have hother := hcarries other
    by_cases hid : id = other
    · subst hid
      rw [hcall] at hother
      change pool.load id = 0 at hother
      have hcall' : ({ pool.setCall id ⟨deadline, .sending admissionWaitMs, stageCancelled⟩ with
          inFlight := pool.inFlight + 1
          senders := ⟨id, queuedAt⟩ :: pool.senders } : StagePool Hits).calls id =
          some ⟨deadline, .sending admissionWaitMs, stageCancelled⟩ := Function.update_self ..
      rw [hcall']
      change _ = 1
      simp only [load, tally, setCall, List.countP_cons, decide_true, if_true] at hother ⊢
      omega
    · have hsame := hcarries id
      have hne : ¬ other = id := fun h => hid h.symm
      simp only [load, tally, setCall, List.countP_cons, hne, decide_false, Bool.false_eq_true,
        if_false, Function.update_of_ne hid] at hsame ⊢
      exact hsame
  | @send deadline admissionWaitMs stageCancelled job hcall hjob hroom =>
    have herase := countP_erase (p := (·.call = id)) hjob
    have hload : ({ pool.setCall job.call ⟨deadline, .waiting admissionWaitMs, stageCancelled⟩ with
        senders := pool.senders.erase job
        queue := pool.queue ++ [job] } : StagePool Hits).load id = pool.load id := by
      simp only [load, tally, setCall, countP_concat] at herase ⊢
      omega
    rw [hload]
    have hother := hcarries job.call
    change Carries (Function.update pool.calls job.call _ id) (pool.load id)
    by_cases hid : id = job.call
    · subst hid
      rw [Function.update_self]
      rw [hcall] at hother
      exact hother
    · rw [Function.update_of_ne hid]
      exact hcarries id
  | recv hworker hqueue =>
    have hload := tally_recv (f := Worker.task) (p := (·.call = id)) hworker hqueue rfl rfl
    have hsame := hcarries id
    simp only [load] at hsame ⊢
    rw [hload]
    exact hsame
  | @storeQueueWait _ queueWaitMs job hworker =>
    have hload := tally_setWorker (f := Worker.task) (p := (·.call = id))
      (.timed job queueWaitMs) hworker rfl
    have hsame := hcarries id
    unfold load at hsame
    rw [← hload] at hsame
    exact hsame
  | @storeStarted _ queueWaitMs now job hworker =>
    have hload := tally_setWorker (f := Worker.task) (p := (·.call = id))
      (.running job queueWaitMs now) hworker rfl
    have hsame := hcarries id
    unfold load at hsame
    rw [← hload] at hsame
    exact hsame
  | finish hworker =>
    rw [load_finish hworker rfl rfl]
    exact hcarries id
  | release hworker =>
    have hload := tally_setWorker (f := Worker.task) (p := (·.call = id)) .idle hworker rfl
    have hsame := hcarries id
    unfold load at hsame
    rw [← hload] at hsame
    exact hsame

/-- While a worker has a job to run, no other worker has it and it has not run. -/
theorem alone (hload : pool.load job.call ≤ 1) {current : Worker}
    (hworker : pool.workers[worker]? = some current) (htask : current.task = some job) :
    (∀ other ∈ pool.workers, other ≠ current → ∀ job' ∈ other.task, job'.call ≠ job.call) ∧
      ∀ completion, (job.call, completion) ∉ pool.executed := by
  have hdrop := tally_drop (p := (·.call = job.call)) .idle hworker htask rfl
  simp only [decide_true, if_true] at hdrop
  unfold load at hload
  have hrest : (pool.setWorker worker .idle).tally Worker.task (·.call = job.call) = 0 := by omega
  have hexecuted : pool.executed.countP (·.1 = job.call) = 0 := by omega
  simp only [tally, setWorker] at hrest
  constructor
  · intro other hother hne job' hjob' hcall
    have hworkers : (pool.workers.set worker .idle).countP
        (fun w => w.task.any (·.call = job.call)) = 0 := by omega
    obtain ⟨i, hi⟩ := List.mem_iff_getElem?.mp hother
    have hiw : worker ≠ i := by
      rintro rfl
      exact hne (Option.some.inj (hi.symm.trans hworker))
    have hkept : (pool.workers.set worker .idle)[i]? = some other := by
      rw [List.getElem?_set_ne hiw]
      exact hi
    refine List.countP_eq_zero.mp hworkers other (List.mem_of_getElem? hkept) ?_
    rw [Option.mem_def.mp hjob']
    exact decide_eq_true hcall
  · intro completion hmem
    exact List.countP_eq_zero.mp hexecuted _ hmem (decide_eq_true rfl)

/-! ## What the workers have measured -/

/-- The task of a call runs, or has run, after this wait in the queue. -/
def Measured (pool : StagePool Hits) (id queueWaitMs : Nat) : Prop :=
  (∃ job startedAt, .running job queueWaitMs startedAt ∈ pool.workers ∧ job.call = id) ∨
    ∃ completion, (id, completion) ∈ pool.executed ∧ completion.queueWaitMs = queueWaitMs

theorem mem_set_of_ne {workers : List Worker} {current other next : Worker}
    (hworker : workers[worker]? = some current) (hother : other ∈ workers) (hne : other ≠ current) :
    other ∈ workers.set worker next := by
  obtain ⟨i, hi⟩ := List.mem_iff_getElem?.mp hother
  have hiw : worker ≠ i := by
    rintro rfl
    exact hne (Option.some.inj (hi.symm.trans hworker))
  have hkept : (workers.set worker next)[i]? = some other := by
    rw [List.getElem?_set_ne hiw]
    exact hi
  exact List.mem_of_getElem? hkept

theorem mem_set_self {workers : List Worker} {current next : Worker}
    (hworker : workers[worker]? = some current) : next ∈ workers.set worker next := by
  obtain ⟨hlt, -⟩ := List.getElem?_eq_some_iff.mp hworker
  exact List.mem_of_getElem? (List.getElem?_set_self hlt)

theorem Measured.setWorker {queueWaitMs : Nat} {current next : Worker}
    (h : pool.Measured id queueWaitMs) (hworker : pool.workers[worker]? = some current)
    (hne : ∀ job startedAt, current ≠ .running job queueWaitMs startedAt) :
    (pool.setWorker worker next).Measured id queueWaitMs := by
  rcases h with ⟨job, startedAt, hmem, hcall⟩ | hdone
  · exact .inl ⟨job, startedAt, mem_set_of_ne hworker hmem (Ne.symm (hne job startedAt)), hcall⟩
  · exact .inr hdone

/-- A task that was started stays so, and its wait stays as it was. -/
theorem Moved.measured (h : pool.Moved config pool') {queueWaitMs : Nat}
    (hmeasured : pool.Measured id queueWaitMs) : pool'.Measured id queueWaitMs := by
  cases h with
  | call | answer | acquire | send => exact hmeasured
  | recv hworker | storeQueueWait hworker | storeStarted hworker | release hworker =>
    exact hmeasured.setWorker hworker (fun _ _ h => nomatch h)
  | @finish _ wait startedAt _ _ job outcome hworker =>
    rcases hmeasured with ⟨job', startedAt', hmem, hcall⟩ | ⟨completion, hdone, hwait⟩
    · by_cases heq : Worker.running job' queueWaitMs startedAt' = .running job wait startedAt
      · obtain ⟨rfl, rfl, -⟩ := Worker.running.inj heq
        exact .inr ⟨_, by rw [hcall]; exact List.mem_cons_self, rfl⟩
      · exact .inl ⟨job', startedAt', mem_set_of_ne hworker hmem heq, hcall⟩
    · exact .inr ⟨completion, List.mem_cons_of_mem _ hdone, hwait⟩

theorem Moved.executed_subset (h : pool.Moved config pool') : pool.executed ⊆ pool'.executed := by
  cases h with
  | finish => exact List.subset_cons_self _ _
  | _ => exact List.Subset.refl _

/-! ## What a call reports -/

/-- What stands behind the answer of a call with this deadline. -/
def Justified (pool : StagePool Hits) (id deadline : Nat) (stageCancelled : Bool) :
    Except StageError (StageRun Hits) → Prop
  | .error error =>
    error ≠ .disconnected ∧ stageCancelled = false ∧
      ∃ completion, (id, completion) ∈ pool.executed ∧
      completion.result = .error error ∧ completion.finishedAt < deadline
  | .ok (.completed hits _ queueWaitMs executionMs) =>
    stageCancelled = false ∧ ∃ completion, (id, completion) ∈ pool.executed ∧
      completion.result = .ok hits ∧ completion.finishedAt < deadline ∧
        queueWaitMs = some completion.queueWaitMs ∧ executionMs = some completion.executionMs
  | .ok (.cancelled _ _ queueWaitMs executionMs .completedLate) =>
    stageCancelled = true ∧ ∃ completion, (id, completion) ∈ pool.executed ∧
      queueWaitMs = some completion.queueWaitMs ∧ executionMs = some completion.executionMs
  | .ok (.cancelled _ _ queueWaitMs executionMs .pendingAfterDeadline) =>
    stageCancelled = true ∧ executionMs = none ∧
      ∃ wait, queueWaitMs = some wait ∧ pool.Measured id wait
  | .ok (.cancelled _ _ queueWaitMs executionMs .cancelledBeforeStart) =>
    stageCancelled = true ∧ queueWaitMs = none ∧ executionMs = none
  | .ok (.cancelled _ _ _ _ .completed) | .ok (.cancelled _ _ _ _ .skipped) => False

theorem Moved.justified (h : pool.Moved config pool') {deadline : Nat} {stageCancelled : Bool}
    {result : Except StageError (StageRun Hits)}
    (hjustified : pool.Justified id deadline stageCancelled result) :
    pool'.Justified id deadline stageCancelled result := by
  have hsubset := h.executed_subset
  cases result with
  | error error =>
    obtain ⟨hlost, hflag, completion, hmem, hresult⟩ := hjustified
    exact ⟨hlost, hflag, completion, hsubset hmem, hresult⟩
  | ok run =>
    cases run with
    | completed =>
      obtain ⟨hflag, completion, hmem, hresult⟩ := hjustified
      exact ⟨hflag, completion, hsubset hmem, hresult⟩
    | cancelled reason admissionWaitMs queueWaitMs executionMs status =>
      cases status with
      | completed | skipped => exact hjustified.elim
      | completedLate =>
        obtain ⟨hstop, completion, hmem, hwaits⟩ := hjustified
        exact ⟨hstop, completion, hsubset hmem, hwaits⟩
      | pendingAfterDeadline =>
        obtain ⟨hstop, hnone, wait, hwait, hmeasured⟩ := hjustified
        exact ⟨hstop, hnone, wait, hwait, h.measured hmeasured⟩
      | cancelledBeforeStart => exact hjustified

structure Consistent (pool : StagePool Hits) : Prop where
  carries : ∀ id, Carries (pool.calls id) (pool.load id)
  flagged : ∀ {id call}, pool.calls id = some call → call.Flagged
  sending : ∀ job ∈ pool.senders, ∃ deadline admissionWaitMs stageCancelled,
    pool.calls job.call = some ⟨deadline, .sending admissionWaitMs, stageCancelled⟩
  timed : ∀ {job queueWaitMs}, .timed job queueWaitMs ∈ pool.workers →
    (pool.states job.call).queueWaitMs = queueWaitMs
  started : ∀ {id}, (pool.states id).started = true →
    pool.Measured id (pool.states id).queueWaitMs
  results : ∀ entry ∈ pool.executed, entry.2.result ≠ .error .disconnected
  letters : ∀ {id completion}, pool.mail id = some completion → (id, completion) ∈ pool.executed
  answered : ∀ {id deadline admissionWaitMs stageCancelled completion},
    pool.calls id = some ⟨deadline, .waiting admissionWaitMs, stageCancelled⟩ →
      (id, completion) ∈ pool.executed → pool.mail id ≠ none
  reporting : ∀ {id deadline reason admissionWaitMs stageCancelled},
    pool.calls id = some ⟨deadline, .reporting reason admissionWaitMs true, stageCancelled⟩ →
      (pool.states id).started = true
  returned : ∀ {id deadline result stageCancelled},
    pool.calls id = some ⟨deadline, .returned result, stageCancelled⟩ →
      pool.Justified id deadline stageCancelled result

/-- What a step does to the record of one call. -/
theorem Moved.calls_cases (h : pool.Moved config pool') (id : Nat) :
    pool'.calls id = pool.calls id ∨
    (pool.calls id = none ∧
      ∃ deadline startedAt, pool'.calls id = some ⟨deadline, .acquiring startedAt, false⟩) ∨
    (∃ deadline before after, pool.calls id = some before ∧ pool.Answer id deadline before after ∧
      pool'.calls id = some after) ∨
    (∃ deadline startedAt admissionWaitMs stageCancelled,
      pool.calls id = some ⟨deadline, .acquiring startedAt, stageCancelled⟩ ∧
      pool'.calls id = some ⟨deadline, .sending admissionWaitMs, stageCancelled⟩) ∨
    (∃ job deadline admissionWaitMs stageCancelled, job ∈ pool.senders ∧ job.call = id ∧
      pool.calls id = some ⟨deadline, .sending admissionWaitMs, stageCancelled⟩ ∧
      pool'.calls id = some ⟨deadline, .waiting admissionWaitMs, stageCancelled⟩) := by
  cases h with
  | recv | storeQueueWait | storeStarted | finish | release => exact .inl rfl
  | @call other _ _ hcall =>
    by_cases hid : id = other
    · subst hid
      exact .inr (.inl ⟨hcall, _, _, Function.update_self ..⟩)
    · exact .inl (Function.update_of_ne hid ..)
  | @answer other _ _ _ hcall hanswer =>
    by_cases hid : id = other
    · subst hid
      exact .inr (.inr (.inl ⟨_, _, _, hcall, hanswer, Function.update_self ..⟩))
    · exact .inl (Function.update_of_ne hid ..)
  | @acquire other _ _ _ _ _ hcall =>
    by_cases hid : id = other
    · subst hid
      exact .inr (.inr (.inr (.inl ⟨_, _, _, _, hcall, Function.update_self ..⟩)))
    · exact .inl (Function.update_of_ne hid ..)
  | @send _ _ _ job hcall hjob =>
    by_cases hid : id = job.call
    · subst hid
      exact .inr (.inr (.inr (.inr ⟨job, _, _, _, hjob, rfl, hcall, Function.update_self ..⟩)))
    · exact .inl (Function.update_of_ne hid ..)

theorem Answer.flagged {deadline : Nat} {before after : Call Hits}
    (h : pool.Answer id deadline before after) (hbefore : before.Flagged) : after.Flagged := by
  cases h with
  | expire => exact rfl
  | _ => trivial

theorem Moved.flagged (h : pool.Moved config pool')
    (hflagged : ∀ {id call}, pool.calls id = some call → call.Flagged) {call : Call Hits}
    (hcall : pool'.calls id = some call) : call.Flagged := by
  rcases h.calls_cases id with hsame | ⟨-, _, _, hnew⟩ | ⟨_, before, after, hold, hanswer, hnew⟩ |
    ⟨_, _, _, _, hold, hnew⟩ | ⟨_, _, _, _, -, -, hold, hnew⟩
  · exact hflagged (hsame ▸ hcall)
  · obtain rfl := Option.some.inj (hnew.symm.trans hcall)
    exact rfl
  · obtain rfl := Option.some.inj (hnew.symm.trans hcall)
    exact hanswer.flagged (hflagged hold)
  · obtain rfl := Option.some.inj (hnew.symm.trans hcall)
    have hunraised := hflagged hold
    exact hunraised
  · obtain rfl := Option.some.inj (hnew.symm.trans hcall)
    have hunraised := hflagged hold
    exact hunraised

theorem two_le_countP {p : StageJob → Bool} {jobs : List StageJob} {a b : StageJob}
    (ha : a ∈ jobs) (hb : b ∈ jobs.erase a) (hpa : p a = true) (hpb : p b = true) :
    2 ≤ jobs.countP p := by
  have herase := countP_erase (p := p) ha
  rw [if_pos hpa] at herase
  have hpos : 0 < (jobs.erase a).countP p := List.countP_pos_iff.mpr ⟨b, hb, hpb⟩
  omega

theorem Moved.sending (h : pool.Moved config pool') (hconsistent : pool.Consistent) :
    ∀ job ∈ pool'.senders, ∃ deadline admissionWaitMs stageCancelled,
      pool'.calls job.call = some ⟨deadline, .sending admissionWaitMs, stageCancelled⟩ := by
  have hsending := hconsistent.sending
  cases h with
  | recv | storeQueueWait | storeStarted | finish | release => exact hsending
  | @call id _ _ hcall =>
    intro job hjob
    obtain ⟨deadline, admissionWaitMs, stageCancelled, hold⟩ := hsending job hjob
    have hid : job.call ≠ id := by
      rintro rfl
      exact absurd (hcall.symm.trans hold) (Option.some_ne_none _).symm
    exact ⟨deadline, admissionWaitMs, stageCancelled, (Function.update_of_ne hid ..).trans hold⟩
  | @answer id _ _ _ hcall hanswer =>
    intro job hjob
    obtain ⟨deadline, admissionWaitMs, stageCancelled, hold⟩ := hsending job hjob
    have hid : job.call ≠ id := by
      rintro rfl
      obtain rfl := Option.some.inj (hcall.symm.trans hold)
      cases hanswer
    exact ⟨deadline, admissionWaitMs, stageCancelled, (Function.update_of_ne hid ..).trans hold⟩
  | @acquire id _ _ _ _ _ hcall =>
    intro job hjob
    rcases List.mem_cons.mp hjob with rfl | hjob
    · exact ⟨_, _, _, Function.update_self ..⟩
    · obtain ⟨deadline, admissionWaitMs, stageCancelled, hold⟩ := hsending job hjob
      have hid : job.call ≠ id := by
        rintro rfl
        cases Option.some.inj (hcall.symm.trans hold)
      exact ⟨deadline, admissionWaitMs, stageCancelled, (Function.update_of_ne hid ..).trans hold⟩
  | @send _ _ _ sent hcall hsent =>
    intro job hjob
    obtain ⟨deadline, admissionWaitMs, stageCancelled, hold⟩ :=
      hsending job (List.mem_of_mem_erase hjob)
    have hid : job.call ≠ sent.call := by
      intro hid
      have htwo := two_le_countP (p := (·.call = sent.call)) hsent hjob (decide_eq_true rfl)
        (decide_eq_true hid)
      have hone := (hconsistent.carries sent.call).le_one
      unfold load tally at hone
      omega
    exact ⟨deadline, admissionWaitMs, stageCancelled, (Function.update_of_ne hid ..).trans hold⟩

theorem Moved.timed (h : pool.Moved config pool') (hconsistent : pool.Consistent)
    {job : StageJob} {queueWaitMs : Nat} (hmem : .timed job queueWaitMs ∈ pool'.workers) :
    (pool'.states job.call).queueWaitMs = queueWaitMs := by
  have hset : ∀ {worker : Nat} {next : Worker},
      .timed job queueWaitMs ∈ pool.workers.set worker next → next ≠ .timed job queueWaitMs →
      .timed job queueWaitMs ∈ pool.workers := by
    intro worker next hmem hne
    rcases List.mem_or_eq_of_mem_set hmem with hold | hnew
    · exact hold
    · exact absurd hnew.symm hne
  cases h with
  | call | answer | acquire | send => exact hconsistent.timed hmem
  | recv | finish | release => exact hconsistent.timed (hset hmem (fun h => nomatch h))
  | @storeQueueWait _ _ other hworker =>
    change (Function.update pool.states other.call _ job.call).queueWaitMs = queueWaitMs
    rcases List.mem_or_eq_of_mem_set hmem with hold | hnew
    · have hne := (alone (hconsistent.carries other.call).le_one hworker rfl).1 _ hold
        (fun h => nomatch h) job rfl
      rw [Function.update_of_ne hne]
      exact hconsistent.timed hold
    · obtain ⟨rfl, rfl⟩ := Worker.timed.inj hnew
      rw [Function.update_self]
  | @storeStarted _ _ _ other hworker =>
    have hold := hconsistent.timed (hset hmem (fun h => nomatch h))
    change (Function.update pool.states other.call _ job.call).queueWaitMs = queueWaitMs
    by_cases hid : job.call = other.call
    · rw [hid, Function.update_self, ← hold, hid]
    · rw [Function.update_of_ne hid]
      exact hold

theorem Moved.started (h : pool.Moved config pool') (hconsistent : pool.Consistent)
    (hstarted : (pool'.states id).started = true) :
    pool'.Measured id (pool'.states id).queueWaitMs := by
  have hkeep : pool'.states id = pool.states id →
      pool'.Measured id (pool'.states id).queueWaitMs := by
    intro hsame
    rw [hsame] at hstarted ⊢
    exact h.measured (hconsistent.started hstarted)
  cases h with
  | call | answer | acquire | send | recv | finish | release => exact hkeep rfl
  | @storeQueueWait _ queueWaitMs job hworker =>
    by_cases hid : id = job.call
    · subst hid
      -- a task that a worker is about to start was not started before
      have hbefore : (pool.states job.call).started = true := by
        change (Function.update pool.states job.call _ job.call).started = true at hstarted
        rwa [Function.update_self] at hstarted
      obtain ⟨hworkers, hexecuted⟩ := alone (hconsistent.carries job.call).le_one hworker rfl
      rcases hconsistent.started hbefore with ⟨other, startedAt, hmem, hcall⟩ |
        ⟨completion, hmem, -⟩
      · exact absurd hcall (hworkers _ hmem (fun h => nomatch h) other rfl)
      · exact absurd hmem (hexecuted completion)
    · exact hkeep (Function.update_of_ne hid ..)
  | @storeStarted _ queueWaitMs now job hworker =>
    by_cases hid : id = job.call
    · subst hid
      have hwait := hconsistent.timed (List.mem_of_getElem? hworker)
      refine .inl ⟨job, now, ?_, rfl⟩
      change .running job (Function.update pool.states job.call _ job.call).queueWaitMs now ∈
        pool.workers.set _ _
      rw [Function.update_self, hwait]
      exact mem_set_self hworker
    · exact hkeep (Function.update_of_ne hid ..)

theorem Moved.started_mono (h : pool.Moved config pool')
    (hstarted : (pool.states id).started = true) : (pool'.states id).started = true := by
  cases h with
  | call | answer | acquire | send | recv | finish | release => exact hstarted
  | @storeQueueWait _ _ job =>
    change (Function.update pool.states job.call _ id).started = true
    by_cases hid : id = job.call
    · subst hid
      rw [Function.update_self]
      exact hstarted
    · rwa [Function.update_of_ne hid]
  | @storeStarted _ _ _ job =>
    change (Function.update pool.states job.call _ id).started = true
    by_cases hid : id = job.call
    · subst hid
      rw [Function.update_self]
    · rwa [Function.update_of_ne hid]

theorem Moved.reporting (h : pool.Moved config pool') (hconsistent : pool.Consistent)
    {deadline admissionWaitMs : Nat} {reason : String} {stageCancelled : Bool}
    (hcall : pool'.calls id =
      some ⟨deadline, .reporting reason admissionWaitMs true, stageCancelled⟩) :
    (pool'.states id).started = true := by
  apply h.started_mono
  rcases h.calls_cases id with hsame | ⟨-, _, _, hnew⟩ | ⟨_, before, after, hold, hanswer, hnew⟩ |
    ⟨_, _, _, _, hold, hnew⟩ | ⟨_, _, _, _, -, -, hold, hnew⟩
  · exact hconsistent.reporting (hsame ▸ hcall)
  · cases hnew.symm.trans hcall
  · have hafter := Option.some.inj (hnew.symm.trans hcall)
    cases hanswer with
    | expire =>
      obtain ⟨-, hphase, -⟩ := Call.mk.inj hafter
      exact (Phase.reporting.inj hphase).2.2
    | _ => cases hafter
  · cases hnew.symm.trans hcall
  · cases hnew.symm.trans hcall

theorem caught_ne_disconnected (outcome : TaskOutcome Hits) :
    outcome.caught ≠ .error .disconnected := by
  cases outcome with
  | returned | failed | panicked => exact fun h => nomatch h

theorem Moved.results (h : pool.Moved config pool')
    (hresults : ∀ entry ∈ pool.executed, entry.2.result ≠ .error .disconnected) :
    ∀ entry ∈ pool'.executed, entry.2.result ≠ .error .disconnected := by
  cases h with
  | finish =>
    intro entry hentry
    rcases List.mem_cons.mp hentry with rfl | hold
    · exact caught_ne_disconnected _
    · exact hresults entry hold
  | _ => exact hresults

theorem Moved.letters (h : pool.Moved config pool')
    (hletters : ∀ {id completion}, pool.mail id = some completion →
      (id, completion) ∈ pool.executed)
    {completion : StageCompletion Hits} (hmail : pool'.mail id = some completion) :
    (id, completion) ∈ pool'.executed := by
  cases h with
  | @finish _ _ _ _ _ job _ _ =>
    change (if pool.listening job.call then _ else _ : Nat → Option (StageCompletion Hits)) id =
      some completion at hmail
    split at hmail
    · by_cases hid : id = job.call
      · subst hid
        rw [Function.update_self] at hmail
        obtain rfl := Option.some.inj hmail
        exact List.mem_cons_self
      · rw [Function.update_of_ne hid] at hmail
        exact List.mem_cons_of_mem _ (hletters hmail)
    · exact List.mem_cons_of_mem _ (hletters hmail)
  | _ => exact hletters hmail

/-- A job that is still to be sent has not run. -/
theorem not_executed_of_sender (hload : pool.load job.call ≤ 1) (hjob : job ∈ pool.senders)
    (completion : StageCompletion Hits) : (job.call, completion) ∉ pool.executed := by
  intro hmem
  have hsender : 0 < pool.senders.countP (·.call = job.call) :=
    List.countP_pos_iff.mpr ⟨job, hjob, decide_eq_true rfl⟩
  have hexecuted : 0 < pool.executed.countP (·.1 = job.call) :=
    List.countP_pos_iff.mpr ⟨_, hmem, decide_eq_true rfl⟩
  unfold load tally at hload
  omega

theorem Moved.answered (h : pool.Moved config pool') (hconsistent : pool.Consistent)
    {deadline admissionWaitMs : Nat} {stageCancelled : Bool} {completion : StageCompletion Hits}
    (hcall : pool'.calls id = some ⟨deadline, .waiting admissionWaitMs, stageCancelled⟩)
    (hmem : (id, completion) ∈ pool'.executed) : pool'.mail id ≠ none := by
  have hanswered := @hconsistent.answered
  cases h with
  | recv | storeQueueWait | storeStarted | release => exact hanswered hcall hmem
  | @call other | @acquire other =>
    by_cases hid : id = other
    · subst hid
      cases (Function.update_self ..).symm.trans hcall
    · exact hanswered ((Function.update_of_ne hid ..).symm.trans hcall) hmem
  | @answer other _ _ _ _ hanswer =>
    by_cases hid : id = other
    · subst hid
      change Function.update pool.calls id (some _) id = _ at hcall
      rw [Function.update_self] at hcall
      cases hanswer <;> cases Option.some.inj hcall
    · exact hanswered ((Function.update_of_ne hid ..).symm.trans hcall) hmem
  | @send _ _ _ job _ hjob =>
    by_cases hid : id = job.call
    · subst hid
      exact absurd hmem (not_executed_of_sender (hconsistent.carries job.call).le_one hjob
        completion)
    · exact hanswered ((Function.update_of_ne hid ..).symm.trans hcall) hmem
  | @finish _ _ _ _ _ job =>
    change (if pool.listening job.call then _ else _ : Nat → Option (StageCompletion Hits))
      id ≠ none
    by_cases hid : id = job.call
    · subst hid
      have hlistening : pool.listening job.call = true := by
        unfold listening
        rw [show pool.calls job.call = _ from hcall]
      rw [if_pos hlistening, Function.update_self]
      exact Option.some_ne_none _
    · have hold : (id, completion) ∈ pool.executed := by
        rcases List.mem_cons.mp hmem with hnew | hold
        · exact absurd (Prod.mk.inj hnew).1 hid
        · exact hold
      have hmail := hanswered hcall hold
      split
      · rwa [Function.update_of_ne hid]
      · exact hmail

/-- The channel of a call that waits closes only after its completion is in it. -/
theorem Consistent.connected (hconsistent : pool.Consistent) {deadline admissionWaitMs : Nat}
    {stageCancelled : Bool}
    (hcall : pool.calls id = some ⟨deadline, .waiting admissionWaitMs, stageCancelled⟩)
    (hmail : pool.mail id = none) : pool.connected id = true := by
  have hload := hconsistent.carries id
  rw [hcall] at hload
  change pool.load id = 1 at hload
  have hexecuted : pool.executed.countP (·.1 = id) = 0 := by
    refine List.countP_eq_zero.mpr fun entry hentry hid => ?_
    obtain rfl : entry.1 = id := of_decide_eq_true hid
    exact hconsistent.answered hcall hentry hmail
  unfold load tally at hload
  rw [hexecuted] at hload
  unfold StagePool.connected
  rw [Bool.or_eq_true, Bool.or_eq_true, List.any_eq_true, List.any_eq_true, List.any_eq_true]
  by_cases hsender : 0 < pool.senders.countP (·.call = id)
  · exact .inl (.inl (List.countP_pos_iff.mp hsender))
  · by_cases hqueued : 0 < pool.queue.countP (·.call = id)
    · exact .inl (.inr (List.countP_pos_iff.mp hqueued))
    · have hworking : 0 < pool.workers.countP (fun w => w.task.any (·.call = id)) := by omega
      obtain ⟨w, hw, hid⟩ := List.countP_pos_iff.mp hworking
      refine .inr ⟨w, hw, ?_⟩
      cases w with
      | idle | sent => cases hid
      | taken | timed | running => exact hid

theorem Answer.justified (hconsistent : pool.Consistent) {deadline : Nat}
    {before after : Call Hits} (h : pool.Answer id deadline before after)
    (hbefore : pool.calls id = some before) {result : Except StageError (StageRun Hits)}
    (hresult : after.phase = .returned result) :
    pool.Justified id after.deadline after.stageCancelled result := by
  cases h with
  | refuse =>
    obtain rfl := Phase.returned.inj hresult
    exact ⟨rfl, rfl, rfl⟩
  | expire => cases hresult
  | @report reason admissionWaitMs started stageCancelled =>
    obtain rfl := Phase.returned.inj hresult
    have hraised : stageCancelled = true := hconsistent.flagged hbefore
    cases started with
    | false => exact ⟨hraised, rfl, rfl⟩
    | true => exact ⟨hraised, rfl, _, rfl, hconsistent.started (hconsistent.reporting hbefore)⟩
  | @late admissionWaitMs cancelled stageCancelled completion hmail =>
    obtain rfl := Phase.returned.inj hresult
    exact ⟨rfl, completion, hconsistent.letters hmail, rfl, rfl⟩
  | @inTime admissionWaitMs stageCancelled completion hmail htime =>
    obtain rfl := Phase.returned.inj hresult
    have hmem := hconsistent.letters hmail
    have hraised : stageCancelled = false := hconsistent.flagged hbefore
    unfold StageCompletion.stageRun
    cases hcompletion : completion.result with
    | ok hits => exact ⟨hraised, completion, hmem, hcompletion, htime, rfl, rfl⟩
    | error error =>
      refine ⟨?_, hraised, completion, hmem, hcompletion, htime⟩
      rintro rfl
      exact hconsistent.results _ hmem hcompletion
  | disconnect hmail hconnected =>
    exact absurd (hconsistent.connected hbefore hmail) (Bool.eq_false_iff.mp hconnected)

theorem Moved.returned (h : pool.Moved config pool') (hconsistent : pool.Consistent)
    {deadline : Nat} {result : Except StageError (StageRun Hits)} {stageCancelled : Bool}
    (hcall : pool'.calls id = some ⟨deadline, .returned result, stageCancelled⟩) :
    pool'.Justified id deadline stageCancelled result := by
  apply h.justified
  rcases h.calls_cases id with hsame | ⟨-, _, _, hnew⟩ | ⟨_, before, after, hold, hanswer, hnew⟩ |
    ⟨_, _, _, _, hold, hnew⟩ | ⟨_, _, _, _, -, -, hold, hnew⟩
  · exact hconsistent.returned (hsame ▸ hcall)
  · cases hnew.symm.trans hcall
  · obtain rfl := Option.some.inj (hnew.symm.trans hcall)
    exact hanswer.justified hconsistent hold rfl
  · cases hnew.symm.trans hcall
  · cases hnew.symm.trans hcall

theorem Moved.consistent (h : pool.Moved config pool') (hconsistent : pool.Consistent) :
    pool'.Consistent where
  carries := h.carries hconsistent.carries
  flagged := h.flagged hconsistent.flagged
  sending := h.sending hconsistent
  timed := h.timed hconsistent
  started := h.started hconsistent
  results := h.results hconsistent.results
  letters := h.letters hconsistent.letters
  answered := h.answered hconsistent
  reporting := h.reporting hconsistent
  returned := h.returned hconsistent

theorem consistent_new (config : PoolConfig) : (StagePool.new Hits config).Consistent where
  carries id := by
    have hidle : ∀ worker ∈ List.replicate config.workerLimit Worker.idle,
        ¬ (worker.task.any (·.call = id)) = true := by
      intro worker hworker
      rw [List.eq_of_mem_replicate hworker]
      exact Bool.false_ne_true
    change (StagePool.new Hits config).load id = 0
    simp only [load, tally, StagePool.new, List.countP_nil, List.countP_eq_zero.mpr hidle]
  flagged h := nomatch h
  sending job h := nomatch h
  timed h := nomatch List.eq_of_mem_replicate h
  started h := nomatch h
  results entry h := nomatch h
  letters h := nomatch h
  answered h := nomatch h
  reporting h := nomatch h
  returned h := nomatch h

theorem consistent_of_reach (h : Reach (step config) (StagePool.new Hits config) pool) :
    pool.Consistent :=
  h.invariant (fun _ _ _ hconsistent hstep => (step_moved hstep).consistent hconsistent)
    (consistent_new config)

/-! ## Runs -/

/-- In every run a task runs at most once, and each answer of a call has its ground. -/
theorem stage_answers_are_justified (h : Reach (step config) (StagePool.new Hits config) pool)
    (id : Nat) :
    pool.executed.countP (·.1 = id) ≤ 1 ∧
      ∀ {deadline stageCancelled result},
        pool.calls id = some ⟨deadline, .returned result, stageCancelled⟩ →
          pool.Justified id deadline stageCancelled result := by
  have hconsistent := consistent_of_reach h
  refine ⟨?_, hconsistent.returned⟩
  have hload := (hconsistent.carries id).le_one
  unfold load at hload
  omega

/-- A task that runs when its call gives up, after four milliseconds in the channel. -/
def overdue : StagePool Nat :=
  after (step oneWorker) (.new Nat oneWorker)
    [.call 7 5000000 5 0 0, .acquire 7 false 0 0 0, .send 7, .recv 0, .storeQueueWait 0 4000000,
      .storeStarted 0 4000000, .expire 7 false 5000000 false, .report 7]

theorem overdue_answer_is_justified :
    overdue.executed.countP (·.1 = 7) ≤ 1 ∧
      overdue.Justified 7 5000000 true
        (.ok (.cancelled "stage_deadline" 0 (some 4) none .pendingAfterDeadline)) :=
  ⟨(stage_answers_are_justified (reach_after (step oneWorker) _ _) 7).1,
    (stage_answers_are_justified (reach_after (step oneWorker) _ _) 7).2 rfl⟩

end StagePool

end CodeStory.Retrieval
