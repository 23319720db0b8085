import CodeStory.Stdio.Transport

/-!
# What becomes of each frame

Work is numbered by the frame it came from. The numbers of what has been disposed of, of the
active request and of the queue are at every moment the numbers of the frames that are work,
in order; so nothing is lost, handled twice or overtaken. A flag of cancellation is set
exactly when a cancellation of that id came after the frame.
-/

set_option autoImplicit false

namespace CodeStory.Stdio

open Transition

def Incoming.isWork : Incoming → Bool
  | .blank => false
  | .cancellation _ => false
  | _ => true

/-- The frame with this number, as `queue_stdio_frame` saw it. -/
def arrival (json : JsonReader) (frames : List StdioFrame) (number : Nat) : Option Incoming :=
  frames[number]?.map (classify json)

/-- The numbers of the frames that ask for something to be done. -/
def workNumbers (json : JsonReader) (frames : List StdioFrame) : List Nat :=
  (List.range frames.length).filter fun k => (arrival json frames k).any Incoming.isWork

/-- A cancellation of `key` came after frame `number` and before `after` frames were there. -/
def CancelledBetween (json : JsonReader) (frames : List StdioFrame) (key : Option String)
    (number after : Nat) : Prop :=
  ∃ k target, number < k ∧ k < after ∧
    arrival json frames k = some (.cancellation target) ∧ key = some target

section Arrivals
variable {json : JsonReader} {frames : List StdioFrame} {frame : StdioFrame} {k n : Nat}
  {key : Option String}

theorem arrival_append (hk : k < frames.length) :
    arrival json (frames ++ [frame]) k = arrival json frames k := by
  unfold arrival
  rw [List.getElem?_append_left hk]

theorem arrival_last :
    arrival json (frames ++ [frame]) frames.length = some (classify json frame) := by
  unfold arrival
  rw [List.getElem?_append_right le_rfl, Nat.sub_self]
  rfl

theorem arrival_lt {incoming : Incoming} (h : arrival json frames k = some incoming) :
    k < frames.length := by
  unfold arrival at h
  obtain ⟨frame, hframe, -⟩ := Option.map_eq_some_iff.mp h
  exact (List.getElem?_eq_some_iff.mp hframe).1

theorem arrival_kept {incoming : Incoming} (h : arrival json frames k = some incoming) :
    arrival json (frames ++ [frame]) k = some incoming := by
  rw [arrival_append (arrival_lt h)]
  exact h

theorem workNumbers_append :
    workNumbers json (frames ++ [frame]) = workNumbers json frames ++
      if (classify json frame).isWork then [frames.length] else [] := by
  have hlength : (frames ++ [frame]).length = frames.length + 1 := by simp
  have hsame : (List.range frames.length).filter
        (fun k => (arrival json (frames ++ [frame]) k).any Incoming.isWork) =
      workNumbers json frames := by
    apply List.filter_congr
    intro k hk
    rw [arrival_append (List.mem_range.mp hk)]
  unfold workNumbers at hsame ⊢
  rw [hlength, List.range_succ, List.filter_append, hsame]
  congr 1
  rw [List.filter_singleton, arrival_last, Bool.cond_eq_ite]
  rfl

/-- What came before is not changed by what comes now. -/
theorem cancelledBetween_append (hn : n ≤ frames.length) :
    CancelledBetween json (frames ++ [frame]) key k n ↔ CancelledBetween json frames key k n := by
  constructor
  · rintro ⟨j, target, hkj, hjn, hj, hkey⟩
    rw [arrival_append (by omega)] at hj
    exact ⟨j, target, hkj, hjn, hj, hkey⟩
  · rintro ⟨j, target, hkj, hjn, hj, hkey⟩
    exact ⟨j, target, hkj, hjn, arrival_kept hj, hkey⟩

/-- One more frame cancels what it names, among the frames before it. -/
theorem cancelledBetween_succ (hk : k < frames.length) :
    CancelledBetween json (frames ++ [frame]) key k (frames.length + 1) ↔
      CancelledBetween json frames key k frames.length ∨
        ∃ target, classify json frame = .cancellation target ∧ key = some target := by
  constructor
  · rintro ⟨j, target, hkj, hjn, hj, hkey⟩
    by_cases hlast : j = frames.length
    · subst hlast
      rw [arrival_last] at hj
      exact .inr ⟨target, Option.some.inj hj, hkey⟩
    · rw [arrival_append (by omega)] at hj
      exact .inl ⟨j, target, hkj, by omega, hj, hkey⟩
  · rintro (⟨j, target, hkj, hjn, hj, hkey⟩ | ⟨target, hframe, hkey⟩)
    · exact ⟨j, target, hkj, by omega, arrival_kept hj, hkey⟩
    · exact ⟨frames.length, target, hk, by omega, by rw [arrival_last, hframe], hkey⟩

end Arrivals

variable {σ ρ : Type}

def StdioQueuedWork.number : StdioQueuedWork ρ → Nat
  | .message m => m.number
  | .response n _ => n

/-- What the transport answers to a frame by itself. -/
def transportAnswer : Incoming → Option (Response ρ)
  | .invalid line => some (.parseError line)
  | .tooLarge lineBytes => some (.frameTooLarge lineBytes)
  | _ => none

/-- Queued work is what its frame asked for, and its flag is right. -/
def StdioQueuedWork.Fits (json : JsonReader) (frames : List StdioFrame) :
    StdioQueuedWork ρ → Prop
  | .message m => arrival json frames m.number = some (.message m.line m.idKey) ∧
      (m.cancelled = true ↔ CancelledBetween json frames m.idKey m.number frames.length)
  | .response n r => ∃ incoming, arrival json frames n = some incoming ∧
      transportAnswer incoming = some r

/-- A frame was disposed of as it should be: answered by the transport when it is no message,
skipped when a cancellation had come, handled otherwise, with the flag as it was by then. -/
def Outcome.Fits (json : JsonReader) (frames : List StdioFrame) (o : Outcome ρ) : Prop :=
  o.after ≤ frames.length ∧
    match o.disposal with
    | .answered r => ∃ incoming, arrival json frames o.number = some incoming ∧
        transportAnswer incoming = some r
    | .skipped => ∃ line key, arrival json frames o.number = some (.message line key) ∧
        CancelledBetween json frames key o.number o.after
    | .handled line _ cancelled => ∃ key,
        arrival json frames o.number = some (.message line key) ∧
        (cancelled = true ↔ CancelledBetween json frames key o.number o.after)

/-- The response that the disposal of a frame put on stdout. -/
def Outcome.written (o : Outcome ρ) : Option (Response ρ) :=
  match o.disposal with
  | .answered r => some r
  | .handled _ (some r) false => some (.reply r)
  | _ => none

namespace State
variable {json : JsonReader} {s t : State σ ρ}

/-- The active request has the session and the only worker. -/
structure ActiveFits (json : JsonReader) (s : State σ ρ) (a : ActiveStdioRequest) : Prop where
  worker : ∃ w, s.workers = [w] ∧ w.number = a.number ∧
    arrival json s.frames a.number = some (.message w.line a.idKey)
  flag : a.cancelled = true ↔
    CancelledBetween json s.frames a.idKey a.number s.frames.length

structure Accounted (json : JsonReader) (s : State σ ρ) : Prop where
  numbers : s.outcomes.map (·.number) ++ (s.active.map (·.number)).toList ++
    s.queued.map (·.number) = workNumbers json s.frames
  queued : ∀ w ∈ s.queued, w.Fits json s.frames
  active : ∀ a, s.active = some a → s.ActiveFits json a
  idle : s.active = none → s.workers = [] ∧ s.session ≠ none
  outcomes : ∀ o ∈ s.outcomes, o.Fits json s.frames
  stdout : s.stdout = s.outcomes.filterMap (·.written)
  waiting : (∃ future, s.pc = .selecting future) ∨ s.pc = .finishing → s.active ≠ none
  ended : s.pc = .ended → s.active = none ∧ s.queued = [] ∧ s.stdinClosed = true
  alive : s.pc ≠ .panicked

section Arrive
variable {frames : List StdioFrame} {frame : StdioFrame}

/-- A flag after one more frame. -/
theorem flag_seen {key : Option String} {k : Nat} {flag : Bool} (hk : k < frames.length)
    (h : flag = true ↔ CancelledBetween json frames key k frames.length) :
    (∀ target, classify json frame = .cancellation target →
      ((flag || key == some target) = true ↔
        CancelledBetween json (frames ++ [frame]) key k (frames ++ [frame]).length)) ∧
    ((∀ target, classify json frame ≠ .cancellation target) →
      (flag = true ↔
        CancelledBetween json (frames ++ [frame]) key k (frames ++ [frame]).length)) := by
  have hlength : (frames ++ [frame]).length = frames.length + 1 := by simp
  rw [hlength, cancelledBetween_succ hk]
  refine ⟨?_, ?_⟩
  · intro target htarget
    rw [Bool.or_eq_true, h, beq_iff_eq]
    constructor
    · rintro (hbefore | hkey)
      · exact .inl hbefore
      · exact .inr ⟨target, htarget, hkey⟩
    · rintro (hbefore | ⟨target', htarget', hkey⟩)
      · exact .inl hbefore
      · rw [htarget] at htarget'
        obtain rfl := Incoming.cancellation.inj htarget'
        exact .inr hkey
  · intro hother
    rw [h]
    constructor
    · exact .inl
    · rintro (hbefore | ⟨target, htarget, -⟩)
      · exact hbefore
      · exact absurd htarget (hother target)

theorem fits_cancel {w : StdioQueuedWork ρ} (h : w.Fits json frames) {target : String}
    (htarget : classify json frame = .cancellation target) :
    (w.cancel target).Fits json (frames ++ [frame]) := by
  cases w with
  | message m =>
    obtain ⟨harrival, hflag⟩ := h
    exact ⟨arrival_kept harrival, (flag_seen (arrival_lt harrival) hflag).1 target htarget⟩
  | response n r =>
    obtain ⟨incoming, harrival, hanswer⟩ := h
    exact ⟨incoming, arrival_kept harrival, hanswer⟩

theorem fits_other {w : StdioQueuedWork ρ} (h : w.Fits json frames)
    (hother : ∀ target, classify json frame ≠ .cancellation target) :
    w.Fits json (frames ++ [frame]) := by
  cases w with
  | message m =>
    obtain ⟨harrival, hflag⟩ := h
    exact ⟨arrival_kept harrival, (flag_seen (arrival_lt harrival) hflag).2 hother⟩
  | response n r =>
    obtain ⟨incoming, harrival, hanswer⟩ := h
    exact ⟨incoming, arrival_kept harrival, hanswer⟩

/-- What was disposed of stays as it was. -/
theorem outcome_kept {o : Outcome ρ} (h : o.Fits json frames) :
    o.Fits json (frames ++ [frame]) := by
  obtain ⟨hafter, hdisposal⟩ := h
  refine ⟨by rw [List.length_append]; omega, ?_⟩
  split at hdisposal
  · obtain ⟨incoming, harrival, hanswer⟩ := hdisposal
    exact ⟨incoming, arrival_kept harrival, hanswer⟩
  · obtain ⟨line, key, harrival, hcancelled⟩ := hdisposal
    exact ⟨line, key, arrival_kept harrival, (cancelledBetween_append hafter).mpr hcancelled⟩
  · obtain ⟨key, harrival, hflag⟩ := hdisposal
    exact ⟨key, arrival_kept harrival, hflag.trans (cancelledBetween_append hafter).symm⟩

end Arrive

/-- The part of the account that a frame which cancels nothing leaves alone. -/
theorem Accounted.arrive (h : s.Accounted json) {frame : StdioFrame}
    (hother : ∀ target, classify json frame ≠ .cancellation target)
    {new : List (StdioQueuedWork ρ)}
    (hnew : ∀ w ∈ new, w.Fits json (s.frames ++ [frame]))
    (hnumbers : new.map (·.number) =
      if (classify json frame).isWork then [s.frames.length] else [])
    (hended : s.pc ≠ .ended) :
    ({ s with frames := s.frames ++ [frame], queued := s.queued ++ new } :
      State σ ρ).Accounted json := by
  refine ⟨?_, ?_, ?_, h.idle, ?_, h.stdout, h.waiting, fun hpc => absurd hpc hended, h.alive⟩
  · dsimp only
    rw [List.map_append, ← List.append_assoc, h.numbers, hnumbers, workNumbers_append]
  · intro w hw
    rcases List.mem_append.mp hw with hw | hw
    · exact fits_other (h.queued w hw) hother
    · exact hnew w hw
  · intro a ha
    obtain ⟨⟨w, hworkers, hnumber, harrival⟩, hflag⟩ := h.active a ha
    exact ⟨⟨w, hworkers, hnumber, arrival_kept harrival⟩,
      (flag_seen (arrival_lt harrival) hflag).2 hother⟩
  · intro o ho
    exact outcome_kept (h.outcomes o ho)

theorem number_cancel (target : String) (w : StdioQueuedWork ρ) :
    (w.cancel target).number = w.number := by
  cases w <;> rfl

theorem Accounted.cancel (h : s.Accounted json) {frame : StdioFrame} {target : String}
    (htarget : classify json frame = .cancellation target) (hended : s.pc ≠ .ended) :
    ({ s with
      frames := s.frames ++ [frame]
      active := s.active.map (·.cancel target)
      queued := s.queued.map (·.cancel target) } : State σ ρ).Accounted json := by
  refine ⟨?_, ?_, ?_, ?_, ?_, h.stdout, ?_, fun hpc => absurd hpc hended, h.alive⟩
  · have hqueued : (s.queued.map (·.cancel target)).map (·.number) = s.queued.map (·.number) := by
      rw [List.map_map]
      apply List.map_congr_left
      intro w _
      exact number_cancel target w
    have hactive : (s.active.map (·.cancel target)).map (·.number) = s.active.map (·.number) := by
      rw [Option.map_map]
      rfl
    dsimp only
    rw [hqueued, hactive, h.numbers, workNumbers_append, htarget]
    exact (List.append_nil _).symm
  · intro w hw
    obtain ⟨w', hw', rfl⟩ := List.mem_map.mp hw
    exact fits_cancel (h.queued w' hw') htarget
  · intro a ha
    obtain ⟨a', ha', rfl⟩ := Option.map_eq_some_iff.mp ha
    obtain ⟨⟨w, hworkers, hnumber, harrival⟩, hflag⟩ := h.active a' ha'
    exact ⟨⟨w, hworkers, hnumber, arrival_kept harrival⟩,
      (flag_seen (arrival_lt harrival) hflag).1 target htarget⟩
  · intro hnone
    exact h.idle (Option.map_eq_none_iff.mp hnone)
  · intro o ho
    exact outcome_kept (h.outcomes o ho)
  · intro hwaiting hnone
    exact h.waiting hwaiting (Option.map_eq_none_iff.mp hnone)

theorem Accounted.queueStdioFrame (h : s.Accounted json) (frame : StdioFrame)
    (hended : s.pc ≠ .ended) : (s.queueStdioFrame json frame).Accounted json := by
  have hlast : arrival json (s.frames ++ [frame]) s.frames.length = some (classify json frame) :=
    arrival_last
  unfold State.queueStdioFrame
  dsimp only
  split
  · rename_i line hclass
    rw [hclass] at hlast
    refine h.arrive (by simp [hclass]) ?_ (by rw [hclass]; rfl) hended
    intro w hw
    obtain rfl := List.mem_singleton.mp hw
    exact ⟨_, hlast, rfl⟩
  · rename_i lineBytes hclass
    rw [hclass] at hlast
    refine h.arrive (by simp [hclass]) ?_ (by rw [hclass]; rfl) hended
    intro w hw
    obtain rfl := List.mem_singleton.mp hw
    exact ⟨_, hlast, rfl⟩
  · rename_i hclass
    have hblank : ([] : List (StdioQueuedWork ρ)).map (·.number) =
        if (classify json frame).isWork then [s.frames.length] else [] := by
      rw [hclass]
      rfl
    have harrived := h.arrive (by simp [hclass]) (by simp) hblank hended
    rw [List.append_nil] at harrived
    exact harrived
  · rename_i target hclass
    exact h.cancel hclass hended
  · rename_i line idKey hclass
    rw [hclass] at hlast
    refine h.arrive (by simp [hclass]) ?_ (by rw [hclass]; rfl) hended
    intro w hw
    obtain rfl := List.mem_singleton.mp hw
    refine ⟨hlast, ?_⟩
    -- nothing has come after the last frame
    constructor
    · exact fun hfalse => absurd hfalse (by simp)
    · rintro ⟨k, target, hk, hlt, -⟩
      rw [List.length_append] at hlt
      simp only [List.length_singleton] at hlt
      change s.frames.length < k at hk
      omega

/-- The account does not look at stdin, nor at where the loop stands unless it waits for a
worker or has ended. -/
theorem Accounted.elsewhere (h : s.Accounted json) {stdin : Stdin} {closed : Bool} {pc : LoopPc}
    (hwaiting : (∃ future, pc = .selecting future) ∨ pc = .finishing → s.active ≠ none)
    (hended : pc = .ended → s.active = none ∧ s.queued = [] ∧ closed = true)
    (halive : pc ≠ .panicked) :
    ({ s with stdin := stdin, stdinClosed := closed, pc := pc } : State σ ρ).Accounted json :=
  ⟨h.numbers, h.queued, fun a ha => ⟨(h.active a ha).worker, (h.active a ha).flag⟩, h.idle,
    h.outcomes, h.stdout, hwaiting, hended, halive⟩

/-- The head of the queue is disposed of on the spot, with what it puts on stdout. -/
theorem Accounted.disposeHead (h : s.Accounted json) (hpc : s.pc = .top)
    (hactive : s.active = none) {work : StdioQueuedWork ρ} {queued : List (StdioQueuedWork ρ)}
    (hqueued : s.queued = work :: queued) (o : Outcome ρ) (hnumber : o.number = work.number)
    (hfits : o.Fits json s.frames) :
    ({ s with
      queued := queued
      stdout := s.stdout ++ o.written.toList
      outcomes := s.outcomes ++ [o] } : State σ ρ).Accounted json := by
  have hnumbers := h.numbers
  refine ⟨?_, ?_, ?_, h.idle, ?_, ?_, ?_, ?_, h.alive⟩
  · rw [hqueued, hactive] at hnumbers
    dsimp only
    rw [hactive, ← hnumbers]
    simp [hnumber]
  · intro w hw
    exact h.queued w (by rw [hqueued]; exact List.mem_cons_of_mem _ hw)
  · intro a ha
    rw [show s.active = some a from ha] at hactive
    exact absurd hactive (by simp)
  · intro o' ho'
    rcases List.mem_append.mp ho' with ho' | ho'
    · exact h.outcomes o' ho'
    · obtain rfl := List.mem_singleton.mp ho'
      exact hfits
  · dsimp only
    rw [List.filterMap_append, h.stdout]
    cases hwritten : o.written <;> simp [hwritten]
  · intro hwaiting
    exact h.waiting hwaiting
  · intro hended
    rw [show s.pc = .ended from hended] at hpc
    exact absurd hpc (by simp)

/-- A message starts: the session goes with it. -/
theorem Accounted.start (h : s.Accounted json) (hpc : s.pc = .top) (hactive : s.active = none)
    {message : StdioQueuedMessage} {queued : List (StdioQueuedWork ρ)} {session : σ}
    (hqueued : s.queued = .message message :: queued) :
    ({ s with
      queued := queued
      session := none
      active := some ⟨message.number, message.idKey, message.cancelled⟩
      workers := ⟨message.number, message.line, session, none⟩ :: s.workers } :
      State σ ρ).Accounted json := by
  have hnumbers := h.numbers
  have hfits : StdioQueuedWork.Fits json s.frames (.message message) :=
    h.queued _ (by rw [hqueued]; exact List.mem_cons_self)
  refine ⟨?_, ?_, ?_, ?_, h.outcomes, h.stdout, ?_, ?_, h.alive⟩
  · rw [hqueued, hactive] at hnumbers
    rw [← hnumbers]
    simp [StdioQueuedWork.number]
  · intro w hw
    exact h.queued w (by rw [hqueued]; exact List.mem_cons_of_mem _ hw)
  · intro a ha
    obtain rfl := Option.some.inj ha
    refine ⟨⟨⟨message.number, message.line, session, none⟩, ?_, rfl, hfits.1⟩, hfits.2⟩
    dsimp only
    rw [(h.idle hactive).1]
  · intro hnone
    exact absurd hnone (by simp)
  · intro _
    simp
  · intro hended
    rw [show s.pc = .ended from hended] at hpc
    exact absurd hpc (by simp)

theorem Accounted.mainStep (h : s.Accounted json) (hpc : s.pc = .top) :
    s.mainStep.Accounted json := by
  unfold State.mainStep
  split
  · rename_i hactive
    split
    · rename_i number response queued hqueued
      have hfits := h.queued (.response number response) (by rw [hqueued]; exact List.mem_cons_self)
      exact h.disposeHead hpc hactive hqueued ⟨number, s.frames.length, .answered response⟩ rfl
        ⟨le_rfl, hfits⟩
    · rename_i message queued hqueued
      have hfits := h.queued (.message message) (by rw [hqueued]; exact List.mem_cons_self)
      split
      · rename_i hcancelled
        have hskipped := h.disposeHead hpc hactive hqueued
          ⟨message.number, s.frames.length, .skipped⟩
          rfl ⟨le_rfl, message.line, message.idKey, hfits.1, hfits.2.mp hcancelled⟩
        rw [show Outcome.written (ρ := ρ) ⟨message.number, s.frames.length, .skipped⟩ =
          none from rfl,
          Option.toList_none, List.append_nil] at hskipped
        exact hskipped
      · split
        · rename_i hsession
          exact absurd hsession (h.idle hactive).2
        · exact h.start hpc hactive hqueued
    · rename_i hqueued
      split
      · rename_i hclosed
        exact h.elsewhere (by simp) (fun _ => ⟨hactive, hqueued, hclosed⟩) (by simp)
      · exact h.elsewhere (by simp) (by simp) (by simp)
  · rename_i a hactive
    have hbusy : s.active ≠ none := by simp [hactive]
    split
    · exact h.elsewhere (fun _ => hbusy) (by simp) (by simp)
    · exact h.elsewhere (fun _ => hbusy) (by simp) (by simp)

theorem Accounted.readStep (h : s.Accounted json) (future : ReadFuture)
    (waiting : ReadFuture → LoopPc)
    (hwaiting : ∀ future, (∃ f, waiting future = .selecting f) ∨ waiting future = .finishing →
      s.active ≠ none)
    (hended : ∀ future, waiting future ≠ .ended)
    (halive : ∀ future, waiting future ≠ .panicked) :
    (s.readStep json future waiting).Accounted json := by
  unfold State.readStep
  split
  · rename_i stdin future' hread
    exact h.elsewhere (hwaiting future') (fun hpc => absurd hpc (hended future')) (halive future')
  · exact h.elsewhere (by simp) (by simp) (by simp)
  · rename_i stdin frame hread
    exact (h.elsewhere (by simp) (by simp) (by simp)).queueStdioFrame frame (by simp)

theorem Accounted.workerStep (h : s.Accounted json) {number : Nat} {session : σ}
    {response : Option ρ} (hstep : s.workerStep number session response = some t) :
    t.Accounted json := by
  unfold State.workerStep at hstep
  split at hstep
  · obtain rfl := Option.some.inj hstep
    refine ⟨h.numbers, h.queued, ?_, ?_, h.outcomes, h.stdout, h.waiting, h.ended, h.alive⟩
    · intro a ha
      obtain ⟨⟨w, hworkers, hnumber, harrival⟩, hflag⟩ := h.active a ha
      refine ⟨⟨_, by dsimp only; rw [hworkers, List.map_singleton], ?_⟩, hflag⟩
      split
      · exact ⟨hnumber, harrival⟩
      · exact ⟨hnumber, harrival⟩
    · intro hnone
      obtain ⟨hworkers, hsession⟩ := h.idle hnone
      exact ⟨by dsimp only; rw [hworkers, List.map_nil], hsession⟩
  · exact absurd hstep (by simp)

/-- The worker has ended: the session is back, and the request is disposed of. -/
theorem Accounted.finish (h : s.Accounted json) {a : ActiveStdioRequest} (ha : s.active = some a)
    {w : Worker σ ρ} (hworkers : s.workers = [w]) (session : σ) (response : Option ρ)
    (o : Outcome ρ)
    (ho : o = ⟨a.number, s.frames.length, .handled w.line response a.cancelled⟩) :
    ({ s with
      active := none
      session := some session
      workers := []
      pc := .top
      stdout := s.stdout ++ o.written.toList
      outcomes := s.outcomes ++ [o] } : State σ ρ).Accounted json := by
  have hnumbers := h.numbers
  obtain ⟨⟨w', hworkers', -, harrival⟩, hflag⟩ := h.active a ha
  obtain rfl : w = w' := by
    rw [hworkers] at hworkers'
    exact (List.cons.inj hworkers').1
  refine ⟨?_, h.queued, by simp, by simp, ?_, ?_, by simp, by simp, by simp⟩
  · rw [ha] at hnumbers
    rw [← hnumbers, ho]
    simp
  · intro o' ho'
    rcases List.mem_append.mp ho' with ho' | ho'
    · exact h.outcomes o' ho'
    · obtain rfl := List.mem_singleton.mp ho'
      rw [ho]
      exact ⟨le_rfl, a.idKey, harrival, hflag⟩
  · dsimp only
    rw [List.filterMap_append, h.stdout]
    cases hwritten : o.written <;> simp [hwritten]

theorem Accounted.joinStep (h : s.Accounted json) (hbusy : s.active ≠ none)
    (hstep : s.joinStep = some t) : t.Accounted json := by
  unfold State.joinStep at hstep
  split at hstep
  · rename_i hnone
    exact absurd hnone hbusy
  · rename_i a ha
    obtain ⟨⟨w, hworkers, hnumber, -⟩, -⟩ := h.active a ha
    have hfind : s.workers.find? (fun w => w.number == a.number) = some w := by
      rw [hworkers]
      simp [hnumber]
    have hfilter : s.workers.filter (fun w => w.number != a.number) = [] := by
      rw [hworkers]
      simp [hnumber]
    rw [hfind, hfilter] at hstep
    dsimp only at hstep
    split at hstep
    · exact absurd hstep (by simp)
    · rename_i session response hresult
      have hfinished := h.finish ha hworkers session response _ rfl
      obtain rfl := Option.some.inj hstep
      cases hcancelled : a.cancelled with
      | true =>
        rw [hcancelled] at hfinished
        simpa [Outcome.written, dispose, write] using hfinished
      | false =>
        rw [hcancelled] at hfinished
        cases response with
        | none => simpa [Outcome.written, dispose, write] using hfinished
        | some response => simpa [Outcome.written, dispose, write] using hfinished

theorem step_accounted (h : s.Accounted json) {action : Action σ ρ}
    (hstep : step json s action = some t) : t.Accounted json := by
  cases action with
  | main =>
    simp only [step] at hstep
    split at hstep
    · rename_i hpc
      obtain rfl := Option.some.inj hstep
      exact h.mainStep hpc
    · exact absurd hstep (by simp)
  | read =>
    simp only [step] at hstep
    split at hstep
    · obtain rfl := Option.some.inj hstep
      exact h.readStep _ _ (by simp) (by simp) (by simp)
    · rename_i future hpc
      obtain rfl := Option.some.inj hstep
      have hbusy := h.waiting (.inl ⟨future, hpc⟩)
      exact h.readStep _ _ (fun _ _ => hbusy) (by simp) (by simp)
    · exact absurd hstep (by simp)
  | worker number session response => exact h.workerStep hstep
  | join =>
    simp only [step] at hstep
    split at hstep
    · rename_i future hpc
      exact h.joinStep (h.waiting (.inl ⟨future, hpc⟩)) hstep
    · rename_i hpc
      exact h.joinStep (h.waiting (.inr hpc)) hstep
    · exact absurd hstep (by simp)

theorem initial_accounted (json : JsonReader) (session : σ) (chunks : List Bytes) :
    (initial session chunks : State σ ρ).Accounted json :=
  ⟨rfl, by simp [initial], by simp [initial], by simp [initial], by simp [initial], rfl,
    by simp [initial], by simp [initial], by simp [initial]⟩

theorem reach_accounted {session : σ} {chunks : List Bytes}
    (hreach : Reach (step json) (initial session chunks) s) : s.Accounted json :=
  hreach.invariant (fun _ _ _ h hstep => step_accounted h hstep)
    (initial_accounted json session chunks)

theorem workNumbers_pairwise (json : JsonReader) (frames : List StdioFrame) :
    (workNumbers json frames).Pairwise (· < ·) :=
  List.Pairwise.filter _ List.pairwise_lt_range

/-- However the arrival of frames, the ends of workers and the end of stdin fall: the two
`expect`s hold and one request is handled at a time; what was disposed of, the active request
and the queue are the frames that are work, each once and in order; each was disposed of as
it should be, and stdout has the responses of that; and the loop ends when nothing is left. -/
theorem requests_accounted (json : JsonReader) (session : σ) (chunks : List Bytes)
    (hreach : Reach (step json) (initial session chunks) s) :
    s.pc ≠ .panicked ∧ s.workers.length ≤ 1 ∧ (s.active = none → s.session ≠ none) ∧
    s.outcomes.map (·.number) ++ (s.active.map (·.number)).toList ++ s.queued.map (·.number) =
      workNumbers json s.frames ∧
    (workNumbers json s.frames).Pairwise (· < ·) ∧
    (∀ o ∈ s.outcomes, o.Fits json s.frames) ∧
    s.stdout = s.outcomes.filterMap (·.written) ∧
    (s.pc = .ended →
      s.stdinClosed = true ∧ s.outcomes.map (·.number) = workNumbers json s.frames) := by
  have h := reach_accounted hreach
  refine ⟨h.alive, ?_, fun hnone => (h.idle hnone).2, h.numbers, workNumbers_pairwise json _,
    h.outcomes, h.stdout, ?_⟩
  · cases hactive : s.active with
    | none =>
      rw [(h.idle hactive).1]
      exact Nat.zero_le 1
    | some a =>
      obtain ⟨w, hworkers, -⟩ := (h.active a hactive).worker
      rw [hworkers]
      exact le_rfl
  · intro hended
    obtain ⟨hactive, hqueued, hclosed⟩ := h.ended hended
    have hnumbers := h.numbers
    rw [hactive, hqueued] at hnumbers
    refine ⟨hclosed, ?_⟩
    simpa using hnumbers

/-- Lines `r` are requests with id 1, lines `c` cancel that id. -/
def oneIdJson : JsonReader := fun line =>
  if line = "r" then some ⟨some "1", some "ping", none⟩
  else if line = "c" then some ⟨none, some "notifications/cancelled", some "1"⟩
  else none

/-- A request that is active and one that is queued are cancelled; the id is used again. -/
theorem requests_accounted_cancel :
    let s := after (step oneIdJson)
      (initial () [[114, 10], [114, 10], [99, 10], [114, 10]] : State Unit Nat)
      [.main, .read, .main, .main, .read, .main, .read, .main, .worker 0 () (some 7), .join, .main,
        .main, .read, .main, .main, .read, .main, .worker 3 () (some 8), .join, .main]
    s.pc = .ended ∧ s.stdout = [.reply 8] ∧ workNumbers oneIdJson s.frames = [0, 1, 3] ∧
      s.outcomes.map (·.number) = [0, 1, 3] ∧ s.outcomes.filterMap (·.written) = [.reply 8] := by
  intro s
  have hended : s.pc = .ended := by decide
  have hstdout : s.stdout = [.reply 8] := by decide
  have hwork : workNumbers oneIdJson s.frames = [0, 1, 3] := by decide
  obtain ⟨-, -, -, -, -, -, hwritten, hdone⟩ :=
    requests_accounted oneIdJson () [[114, 10], [114, 10], [99, 10], [114, 10]]
      (reach_after (step oneIdJson) _ _ : Reach (step oneIdJson) (initial () _) s)
  exact ⟨hended, hstdout, hwork, (hdone hended).2.trans hwork, hwritten.symm.trans hstdout⟩

end State

end CodeStory.Stdio
