import CodeStory.Engine.Delivery

/-!
# Left alone, the owner answers everything it has accepted

`workload` bounds the number of operations the owner still has to do before every
accepted request is answered, whatever the world answers. It goes down with every owner
step as long as some request is queued or in the owner's hands, and the owner is never
blocked then.
-/

set_option autoImplicit false

namespace CodeStory.Engine

open Transition

/-- Operations left for a request that has just been taken from its queue. -/
def EmbeddingRequest.work (r : EmbeddingRequest) : Nat := 8 * r.inputs.length + 20

/-- Operations left in `handle_request`, for a request with `n` inputs. -/
def Phase.work (n : Nat) : Phase → Nat
  | .activate => 8 * n + 20
  | .refused => 2
  | .enter => 8 * n + 19
  | .hold => 8 * n + 18
  | .tokenize => 8 * n + 17
  | .live tokens offset => 8 * (tokens.length - offset) + 10
  | .encode tokens offset =>
    if offset < tokens.length then 8 * (tokens.length - offset) + 9 else 14
  | .progress tokens offset => 8 * (tokens.length - offset) + 13
  | .between tokens offset => 8 * (tokens.length - offset) + 12
  | .recheck tokens offset => 8 * (tokens.length - offset) + 11
  | .test _ => 5
  | .commit _ => 4
  | .finish _ _ => 3
  | .reply _ => 1

def Frame.work (f : Frame) : Nat := f.phase.work f.request.inputs.length

def WakeReason.work : WakeReason → Nat
  | .request _ r => r.work
  | _ => 0

def OwnerPc.work : OwnerPc → Nat
  | .loading wake | .entry wake | .waking wake => wake.work
  | .handling f below _ => f.work + (below.map Frame.work).sum
  | .wakeCheck _ r => r.work
  | .wakeReply _ => 1
  | _ => 0

/-- How far the owner is, with no request in hand, from its next blocking point. -/
def OwnerPc.distance : OwnerPc → Nat
  | .wakeCheck _ _ => 13
  | .loading _ => 12
  | .entry _ => 11
  | .waking _ => 10
  | .handling _ _ _ => 9
  | .top => 8
  | .popping _ false => 7
  | .popping _ true => 6
  | .selecting _ | .wakePop _ => 5
  | .asleep | .wakeReply _ => 4
  | .stopped => 0

/-- The model is being loaded for the first time. -/
def OwnerPc.starting : OwnerPc → Bool
  | .loading .startup | .entry .startup | .waking .startup => true
  | _ => false

theorem OwnerPc.distance_le (pc : OwnerPc) : pc.distance ≤ 13 := by
  unfold OwnerPc.distance
  split <;> omega

def queueWork (l : List EmbeddingRequest) : Nat := (l.map fun r => r.work + 2).sum

theorem queueWork_filter_le (p : EmbeddingRequest → Bool) (l : List EmbeddingRequest) :
    queueWork (l.filter p) ≤ queueWork l := by
  induction l with
  | nil => exact Nat.le_refl _
  | cons r l ih =>
    unfold queueWork at ih ⊢
    rw [List.filter_cons]
    split
    · rw [List.map_cons, List.map_cons, List.sum_cons, List.sum_cons]
      omega
    · rw [List.map_cons, List.sum_cons]
      omega

/-- Every batch takes at least one sequence. -/
theorem batchLength_ge (cfg : EngineConfig) (tokens : List Nat) :
    ∀ taken total, taken ≤ batchLength cfg taken total tokens := by
  induction tokens with
  | nil =>
    intro taken total
    exact Nat.le_refl _
  | cons next rest ih =>
    intro taken total
    unfold batchLength
    split
    · split
      · exact Nat.le_refl _
      · exact Nat.le_trans (Nat.le_succ _) (ih _ _)
    · exact Nat.le_refl _

theorem batchEnd_gt (cfg : EngineConfig) {tokens : List Nat} {offset : Nat}
    (h : offset < tokens.length) : offset < batchEnd cfg tokens offset := by
  unfold batchEnd
  cases hrest : tokens.drop offset with
  | nil =>
    have := List.drop_eq_nil_iff.mp hrest
    omega
  | cons next rest =>
    unfold batchLength
    rw [if_pos cfg.maxBatchSequences_pos, if_neg (by omega)]
    have := batchLength_ge cfg rest (0 + 1) (0 + next)
    omega

theorem length_of_mapM {α β : Type} {f : α → Option β} {l : List α} {l' : List β}
    (h : l.mapM f = some l') : l'.length = l.length := by
  induction l generalizing l' with
  | nil =>
    obtain rfl : [] = l' := by simpa using h
    rfl
  | cons a l ih =>
    rw [List.mapM_cons] at h
    simp only [Option.bind_eq_bind, Option.bind_eq_some_iff, Option.pure_def,
      Option.some.injEq] at h
    obtain ⟨b, -, rest, hrest, rfl⟩ := h
    rw [List.length_cons, List.length_cons, ih hrest]

theorem tokenizePhase_work (inputs : List String) (tokenCount : String → Option Nat) (n : Nat)
    (hn : n = inputs.length) : (tokenizePhase inputs tokenCount).work n < 8 * n + 17 := by
  unfold tokenizePhase
  split
  · simp only [Phase.work]
    omega
  · split
    · simp only [Phase.work]
      omega
    · split
      · simp only [Phase.work]
        omega
      · rename_i tokens htokens
        have hlength := length_of_mapM htokens
        simp only [Phase.work, hlength]
        omega

namespace State

def queued (s : State) : Nat := queueWork (s.queue .query) + queueWork (s.queue .bulk)

def tokens (s : State) : Nat := (s.token .query).toNat + (s.token .bulk).toNat

def workload (s : State) : Nat :=
  14 * (s.queued + s.pc.work + s.control.length + s.tokens) + s.pc.distance

/-- No request waits, and none is in the owner's hands. -/
def Settled (s : State) : Prop := (∀ c, s.queue c = []) ∧ s.pc.hands = some []

variable {s t : State}

theorem queued_prune (c : EmbeddingRequestClass) (late : List Nat) :
    (s.pruneCancelled c late).queued ≤ s.queued := by
  have hq := queueWork_filter_le (fun r => !s.drops late r) (s.queue c)
  unfold queued pruneCancelled
  dsimp only
  cases c with
  | query | bulk =>
    rw [Function.update_self, Function.update_of_ne (by decide)]
    omega

theorem toNat_update_le (token : EmbeddingRequestClass → Bool) (c c' : EmbeddingRequestClass) :
    (Function.update token c true c').toNat ≤ (token c').toNat + if c' = c then 1 else 0 := by
  by_cases hc : c' = c
  · rw [hc, Function.update_self, if_pos rfl]
    exact Nat.le_add_left _ _
  · rw [Function.update_of_ne hc, if_neg hc]
    exact Nat.le_refl _

/-- A pop leaves work behind for at most what it took, less what is taken. -/
theorem tryPop_work {c : EmbeddingRequestClass} {late : List Nat}
    {popped : Option EmbeddingRequest} (h : s.tryPop c late = (t, popped)) :
    t.control = s.control ∧ t.pc = s.pc ∧ t.held = s.held ∧
    match popped with
    | none => t.queued ≤ s.queued ∧ t.token = s.token
    | some r => t.queued + (r.work + 2) ≤ s.queued ∧ t.tokens ≤ s.tokens + 1 := by
  have hprune := queued_prune (s := s) c late
  unfold tryPop at h
  dsimp only at h
  split at h
  · obtain ⟨rfl, rfl⟩ := Prod.mk.inj h
    exact ⟨rfl, rfl, rfl, hprune, rfl⟩
  · rename_i r rest hqueue
    obtain ⟨rfl, rfl⟩ := Prod.mk.inj h
    refine ⟨rfl, rfl, rfl, ?_, ?_⟩
    · refine Nat.le_trans (Nat.le_of_eq ?_) hprune
      unfold queued
      dsimp only
      cases c with
      | query | bulk =>
        rw [Function.update_self, Function.update_of_ne (by decide), hqueue]
        simp only [queueWork, List.map_cons, List.sum_cons]
        omega
    · unfold State.tokens
      dsimp only
      split
      · exact Nat.le_succ _
      · have hquery := toNat_update_le s.token c .query
        have hbulk := toNat_update_le s.token c .bulk
        have hs : (s.pruneCancelled c late).token = s.token := rfl
        rw [hs]
        cases c with
        | query =>
          rw [if_pos rfl] at hquery
          rw [if_neg (by decide)] at hbulk
          omega
        | bulk =>
          rw [if_neg (by decide)] at hquery
          rw [if_pos rfl] at hbulk
          omega

theorem tokens_takeToken {c : EmbeddingRequestClass} (h : s.token c = true) :
    (s.takeToken c).tokens + 1 = s.tokens := by
  unfold State.tokens State.takeToken
  dsimp only
  cases c with
  | query =>
    rw [Function.update_self, Function.update_of_ne (by decide), h]
    simp only [Bool.toNat_false, Bool.toNat_true]
    omega
  | bulk =>
    rw [Function.update_self, Function.update_of_ne (by decide), h]
    simp only [Bool.toNat_false, Bool.toNat_true]

/-- What the workload is made of, apart from the owner's place. -/
structure Backlog where
  queue : EmbeddingRequestClass → List EmbeddingRequest
  token : EmbeddingRequestClass → Bool
  control : List Control
  held : EmbeddingRequestClass → Bool

def backlog (s : State) : Backlog := ⟨s.queue, s.token, s.control, s.held⟩

/-- The owner runs, no shutdown is on its way and no qualification hold is set. -/
structure Unhindered (s : State) : Prop where
  held : ∀ c, s.held c = false
  control : Control.shutdown ∉ s.control
  running : s.pc ≠ .stopped
  started : s.pc.starting = false

theorem workload_lt_of_sum {s t : State}
    (h : t.queued + t.pc.work + t.control.length + t.tokens <
      s.queued + s.pc.work + s.control.length + s.tokens) : t.workload < s.workload := by
  have := t.pc.distance_le
  unfold workload
  omega

/-- An owner step that hands on at most the backlog it found, and goes to `pc`. -/
theorem goto_lt {s t : State} (hs : s.Unhindered) (hheld : t.held = s.held)
    (hcontrol : ∀ message ∈ t.control, message ∈ s.control) {pc : OwnerPc}
    (hrunning : pc ≠ .stopped) (hstarted : pc.starting = false)
    (h : t.queued + pc.work + t.control.length + t.tokens <
        s.queued + s.pc.work + s.control.length + s.tokens ∨
      (t.queued + pc.work + t.control.length + t.tokens ≤
        s.queued + s.pc.work + s.control.length + s.tokens ∧
        pc.distance < s.pc.distance)) :
    (t.goto pc).workload < s.workload ∧ (t.goto pc).Unhindered := by
  constructor
  · have hworkload : (t.goto pc).workload =
        14 * (t.queued + pc.work + t.control.length + t.tokens) + pc.distance := rfl
    have hle := pc.distance_le
    rw [hworkload]
    unfold workload
    omega
  · refine ⟨?_, fun hmem => hs.control (hcontrol _ hmem), hrunning, hstarted⟩
    intro c
    exact (congrFun hheld c).trans (hs.held c)

/-- An owner step that leaves the backlog as it is. -/
theorem goto_progress {s t : State} (hs : s.Unhindered) (hbacklog : t.backlog = s.backlog)
    {pc : OwnerPc} (hrunning : pc ≠ .stopped) (hstarted : pc.starting = false)
    (h : pc.work < s.pc.work ∨ (pc.work ≤ s.pc.work ∧ pc.distance < s.pc.distance)) :
    (t.goto pc).workload < s.workload ∧ (t.goto pc).Unhindered := by
  have hqueue : t.queue = s.queue := congrArg Backlog.queue hbacklog
  have htoken : t.token = s.token := congrArg Backlog.token hbacklog
  have hcontrol : t.control = s.control := congrArg Backlog.control hbacklog
  have hheld : t.held = s.held := congrArg Backlog.held hbacklog
  apply goto_lt hs hheld (by rw [hcontrol]; exact fun _ h => h) hrunning hstarted
  unfold queued State.tokens
  rw [hqueue, htoken, hcontrol]
  omega

/-- Handling a control message shortens the channel. -/
theorem handleResidentControl_progress {s : State} (hs : s.Unhindered) {message : Control}
    {rest : List Control} (hcontrol : s.control = message :: rest) {next : OwnerPc}
    (hrunning : next ≠ .stopped) (hstarted : next.starting = false)
    (hwork : next.work ≤ s.pc.work) :
    ((s.withControl rest).handleResidentControl message next).workload < s.workload ∧
      ((s.withControl rest).handleResidentControl message next).Unhindered := by
  have hdone : ∀ t : State, t.backlog = (s.withControl rest).backlog →
      (t.goto next).workload < s.workload ∧ (t.goto next).Unhindered := by
    intro t hbacklog
    have hqueue : t.queue = s.queue := congrArg Backlog.queue hbacklog
    have htoken : t.token = s.token := congrArg Backlog.token hbacklog
    have hrest : t.control = rest := congrArg Backlog.control hbacklog
    have hheld : t.held = s.held := congrArg Backlog.held hbacklog
    apply goto_lt hs hheld ?_ hrunning hstarted
    · left
      unfold queued State.tokens
      rw [hqueue, htoken, hrest, hcontrol, List.length_cons]
      omega
    · intro m hm
      rw [hcontrol]
      exact List.mem_cons_of_mem _ (hrest ▸ hm)
  unfold handleResidentControl
  cases message with
  | shutdown => exact absurd (by rw [hcontrol]; exact List.mem_cons_self) hs.control
  | ensureResident i =>
    apply hdone
    unfold confirmResident
    split <;> rfl
  | acquireLease i =>
    apply hdone
    unfold grantResidencyLease
    split <;> rfl
  | releaseLease => exact hdone _ rfl

/-- A pop that takes a request in hand takes more from the queue than it adds. -/
theorem pop_progress {s t : State} (hs : s.Unhindered) {c : EmbeddingRequestClass}
    {late : List Nat} {r : EmbeddingRequest} (hpop : s.tryPop c late = (t, some r))
    {pc : OwnerPc} (hrunning : pc ≠ .stopped) (hstarted : pc.starting = false)
    (hwork : pc.work ≤ s.pc.work + r.work) :
    (t.goto pc).workload < s.workload ∧ (t.goto pc).Unhindered := by
  obtain ⟨hcontrol, -, hheld, hqueued, htokens⟩ := tryPop_work hpop
  apply goto_lt hs hheld (by rw [hcontrol]; exact fun _ h => h) hrunning hstarted
  rw [hcontrol]
  omega

/-- A pop that finds nothing lets the owner go on. -/
theorem popNone_progress {s t : State} (hs : s.Unhindered) {c : EmbeddingRequestClass}
    {late : List Nat} (hpop : s.tryPop c late = (t, none)) {pc : OwnerPc}
    (hrunning : pc ≠ .stopped) (hstarted : pc.starting = false)
    (h : pc.work < s.pc.work ∨ (pc.work ≤ s.pc.work ∧ pc.distance < s.pc.distance)) :
    (t.goto pc).workload < s.workload ∧ (t.goto pc).Unhindered := by
  obtain ⟨hcontrol, -, hheld, hqueued, htoken⟩ := tryPop_work hpop
  apply goto_lt hs hheld (by rw [hcontrol]; exact fun _ h => h) hrunning hstarted
  have htokens : t.tokens = s.tokens := by
    unfold State.tokens
    rw [htoken]
  rw [hcontrol, htokens]
  omega

section Owner
variable {cfg : EngineConfig} (w : World)

/-- Each operation of `handle_request` leaves less to do. -/
theorem handleStep_progress {s : State} (hs : s.Unhindered) {f : Frame} {below : List Frame}
    {woken : Bool} (hpc : s.pc = .handling f below woken) :
    (s.handleStep cfg w f below woken).workload < s.workload ∧
      (s.handleStep cfg w f below woken).Unhindered := by
  have hwork : s.pc.work =
      f.phase.work f.request.inputs.length + (below.map Frame.work).sum := by
    rw [hpc]
    rfl
  have hmove : ∀ (t : State) (phase : Phase), t.backlog = s.backlog →
      phase.work f.request.inputs.length < f.phase.work f.request.inputs.length →
      (t.toPhase f below woken phase).workload < s.workload ∧
        (t.toPhase f below woken phase).Unhindered := by
    intro t phase hbacklog hless
    refine goto_progress hs hbacklog (by simp) rfl ?_
    left
    rw [hwork]
    simp only [OwnerPc.work, Frame.work]
    omega
  unfold handleStep
  dsimp only
  split
  · rename_i hphase
    refine hmove _ _ rfl ?_
    rw [hphase]
    split <;> simp only [Phase.work] <;> omega
  · rename_i hphase
    refine hmove _ _ rfl ?_
    rw [hphase]
    simp only [Phase.work]
    omega
  · rename_i hphase
    refine hmove _ _ rfl ?_
    rw [hphase]
    simp only [Phase.work]
    omega
  · rename_i hphase
    rw [if_neg (by rw [hs.held]; simp)]
    refine hmove _ _ rfl ?_
    rw [hphase]
    simp only [Phase.work]
    omega
  · rename_i hphase
    refine hmove _ _ rfl ?_
    rw [hphase]
    exact tokenizePhase_work _ _ _ rfl
  · rename_i tokens offset hphase
    refine hmove _ _ rfl ?_
    rw [hphase]
    split
    · rename_i hlt
      split <;> simp only [Phase.work, if_pos hlt] <;> omega
    · simp only [Phase.work]
      omega
  · rename_i tokens offset hphase
    refine hmove _ _ rfl ?_
    rw [hphase]
    split
    · have hend := @batchEnd_gt cfg tokens offset
      simp only [Phase.work]
      split
      · rename_i hlt
        have := hend hlt
        omega
      · unfold batchEnd
        omega
    · simp only [Phase.work]
      split <;> omega
  · rename_i tokens offset hphase
    refine hmove _ _ rfl ?_
    rw [hphase]
    split <;> simp only [Phase.work] <;> omega
  · rename_i tokens offset hphase
    cases hresult : s.tryPop .query w.late with
    | mk t popped =>
      cases popped with
      | none =>
        refine popNone_progress hs hresult (by simp) rfl ?_
        left
        rw [hwork, hphase]
        simp only [OwnerPc.work, Frame.work, Phase.work]
        omega
      | some q =>
        refine pop_progress hs hresult (by simp) rfl ?_
        rw [hwork, hphase]
        simp only [OwnerPc.work, Frame.work, Phase.work, List.map_cons, List.sum_cons,
          EmbeddingRequest.work]
        omega
  · rename_i tokens offset hphase
    refine hmove _ _ rfl ?_
    rw [hphase]
    split <;> simp only [Phase.work] <;> omega
  · rename_i result hphase
    refine hmove _ _ rfl ?_
    rw [hphase]
    split <;> simp only [Phase.work] <;> omega
  · rename_i result hphase
    refine hmove _ _ rfl ?_
    rw [hphase]
    split <;> simp only [Phase.work] <;> omega
  · rename_i result cancelled hphase
    refine hmove _ _ rfl ?_
    rw [hphase]
    simp only [Phase.work]
    omega
  · rename_i response hphase
    rw [hphase] at hwork
    unfold leaveFrame
    cases below with
    | nil =>
      refine @goto_progress s _ hs (by rfl) .top (by simp) rfl ?_
      left
      rw [hwork]
      simp only [OwnerPc.work, Phase.work]
      omega
    | cons outer rest =>
      refine @goto_progress s _ hs (by rfl) (.handling outer rest woken) (by simp) rfl ?_
      left
      rw [hwork]
      simp only [OwnerPc.work, Phase.work, List.map_cons, List.sum_cons]
      omega

/-- At either blocking point a queued request shows a token. -/
theorem not_settled_token {s : State} (h : s.Delivering) (hsettled : ¬ s.Settled)
    (hhands : s.pc.hands = some []) (hcovers : ∀ c, s.pc.covers c = true) :
    s.token .query = true ∨ s.token .bulk = true := by
  by_contra hnone
  rw [not_or] at hnone
  apply hsettled
  refine ⟨?_, hhands⟩
  intro c
  by_contra hne
  have htoken := h.awake c (hcovers c) hne
  cases c with
  | query => exact hnone.1 htoken
  | bulk => exact hnone.2 htoken

theorem takeToken_progress {s : State} (hs : s.Unhindered) {c : EmbeddingRequestClass}
    (htoken : s.token c = true) {pc : OwnerPc} (hrunning : pc ≠ .stopped)
    (hstarted : pc.starting = false) (hwork : pc.work = 0) :
    ((s.takeToken c).goto pc).workload < s.workload ∧
      ((s.takeToken c).goto pc).Unhindered := by
  refine goto_lt hs (by rfl) (by exact fun _ h => h) hrunning hstarted (.inl ?_)
  have htokens := tokens_takeToken htoken
  have hqueued : (s.takeToken c).queued = s.queued := rfl
  have hcontrol : (s.takeToken c).control = s.control := rfl
  rw [hqueued, hcontrol, hwork]
  omega

theorem residentSelect_progress {s : State} (hs : s.Unhindered) (h : s.Delivering)
    (hsettled : ¬ s.Settled) {deadline : Nat} (hpc : s.pc = .selecting deadline) :
    ∃ t, s.residentSelect deadline = some t ∧ t.workload < s.workload ∧ t.Unhindered := by
  have htokens := not_settled_token h hsettled (by rw [hpc]; rfl) (by rw [hpc]; exact fun _ => rfl)
  unfold residentSelect
  split
  · rename_i message rest hcontrol
    exact ⟨_, rfl, handleResidentControl_progress hs hcontrol (by simp) rfl (Nat.zero_le _)⟩
  · by_cases hquery : s.token .query = true
    · rw [if_pos hquery]
      exact ⟨_, rfl, takeToken_progress hs hquery (by simp) rfl rfl⟩
    · have hbulk := htokens.resolve_left hquery
      rw [if_neg hquery, if_pos hbulk]
      exact ⟨_, rfl, takeToken_progress hs hbulk (by simp) rfl rfl⟩

theorem startLoading_progress {s : State} (hs : s.Unhindered) {message : Control}
    {rest : List Control} (hcontrol : s.control = message :: rest) {wake : WakeReason}
    (hwake : wake.work = 0) (hstarted : (OwnerPc.loading wake).starting = false) :
    ((s.withControl rest).startLoading wake).workload < s.workload ∧
      ((s.withControl rest).startLoading wake).Unhindered := by
  unfold startLoading
  refine goto_lt hs (by rfl) ?_ (by simp) hstarted (.inl ?_)
  · intro m hm
    rw [hcontrol]
    exact List.mem_cons_of_mem _ hm
  · have hwork : (OwnerPc.loading wake).work = 0 := hwake
    rw [hwork, hcontrol, List.length_cons]
    simp only [withTracker, withControl, queued, State.tokens]
    omega

theorem waitForWake_progress {s : State} (hs : s.Unhindered) (h : s.Delivering)
    (hsettled : ¬ s.Settled) (hpc : s.pc = .asleep) :
    ∃ t, s.waitForWake = some t ∧ t.workload < s.workload ∧ t.Unhindered := by
  have htokens := not_settled_token h hsettled (by rw [hpc]; rfl) (by rw [hpc]; exact fun _ => rfl)
  unfold waitForWake
  split
  · rename_i rest hcontrol
    exact absurd (by rw [hcontrol]; exact List.mem_cons_self) hs.control
  · rename_i i rest hcontrol
    exact ⟨_, rfl, startLoading_progress hs hcontrol rfl rfl⟩
  · rename_i i rest hcontrol
    exact ⟨_, rfl, startLoading_progress hs hcontrol rfl rfl⟩
  · rename_i rest hcontrol
    refine ⟨_, rfl, ?_, hs.held, ?_, hs.running, hs.started⟩
    · apply workload_lt_of_sum
      rw [hcontrol, List.length_cons]
      simp only [withControl, queued, State.tokens]
      omega
    · intro hmem
      apply hs.control
      rw [hcontrol]
      exact List.mem_cons_of_mem _ hmem
  · by_cases hquery : s.token .query = true
    · rw [if_pos hquery]
      exact ⟨_, rfl, takeToken_progress hs hquery (by simp) rfl rfl⟩
    · have hbulk := htokens.resolve_left hquery
      rw [if_neg hquery, if_pos hbulk]
      exact ⟨_, rfl, takeToken_progress hs hbulk (by simp) rfl rfl⟩

theorem failWake_progress {s t : State} (hs : s.Unhindered) (hbacklog : t.backlog = s.backlog)
    {wake : WakeReason} (hpc : s.pc = .loading wake) :
    (t.failWake wake).workload < s.workload ∧ (t.failWake wake).Unhindered := by
  have hstarted := hs.started
  rw [hpc] at hstarted
  have hasleep : ∀ t' : State, t'.backlog = s.backlog →
      (t'.goto .asleep).workload < s.workload ∧ (t'.goto .asleep).Unhindered := by
    intro t' ht'
    refine goto_progress hs ht' (by simp) rfl (.inr ⟨Nat.zero_le _, ?_⟩)
    rw [hpc]
    simp [OwnerPc.distance]
  unfold failWake
  cases wake with
  | startup => exact absurd hstarted (by simp [OwnerPc.starting])
  | request c r => exact hasleep _ hbacklog
  | ensureResident i =>
    apply hasleep
    rw [← hbacklog]
    unfold confirmResident
    split <;> rfl
  | acquireLease i =>
    apply hasleep
    rw [← hbacklog]
    unfold refuseLease
    split <;> rfl

theorem serveWake_progress {s : State} (hs : s.Unhindered) {wake : WakeReason}
    (hpc : s.pc = .waking wake) :
    (s.serveWake wake).workload < s.workload ∧ (s.serveWake wake).Unhindered := by
  have hstarted := hs.started
  rw [hpc] at hstarted
  have htop : ∀ t : State, t.backlog = s.backlog →
      (t.goto .top).workload < s.workload ∧ (t.goto .top).Unhindered := by
    intro t ht
    refine goto_progress hs ht (by simp) rfl (.inr ⟨Nat.zero_le _, ?_⟩)
    rw [hpc]
    simp [OwnerPc.distance]
  unfold serveWake
  cases wake with
  | startup => exact absurd hstarted (by simp [OwnerPc.starting])
  | request c r =>
    refine goto_progress hs (by rfl) (by simp) rfl (.inr ?_)
    rw [hpc]
    exact ⟨Nat.le_refl _, by simp [OwnerPc.distance]⟩
  | ensureResident i =>
    apply htop
    unfold confirmResident
    split <;> rfl
  | acquireLease i =>
    apply htop
    unfold grantResidencyLease
    split <;> rfl

theorem schedulerPop_progress {s : State} (hs : s.Unhindered) {c : EmbeddingRequestClass}
    {second : Bool} (hpc : s.pc = .popping c second) :
    (s.schedulerPop c second w.late).workload < s.workload ∧
      (s.schedulerPop c second w.late).Unhindered := by
  unfold schedulerPop
  cases hresult : s.tryPop c w.late with
  | mk t popped =>
    cases popped with
    | some r =>
      have hpop := @pop_progress s t hs c w.late r hresult (.handling ⟨r, c, .activate⟩ [] false)
        (by simp) rfl (Nat.le_add_left _ _)
      exact ⟨hpop.1, hpop.2.held, hpop.2.control, hpop.2.running, hpop.2.started⟩
    | none =>
      cases second with
      | true | false =>
        refine popNone_progress hs hresult (by simp) rfl (.inr ⟨Nat.zero_le _, ?_⟩)
        rw [hpc]
        simp [OwnerPc.distance]

/-- While a request is queued or in hand, the owner can move whatever the world answers,
and every move leaves less to do. -/
theorem ownerStep_progress {s : State} (hs : s.Unhindered) (h : s.Delivering)
    (hsettled : ¬ s.Settled) :
    ∃ t, s.ownerStep cfg w = some t ∧ t.workload < s.workload ∧ t.Unhindered := by
  unfold ownerStep
  cases hpc : s.pc with
  | loading wake =>
    refine ⟨_, rfl, ?_⟩
    split
    · have hstarted := hs.started
      rw [hpc] at hstarted
      have hloaded := @goto_progress s { s.enterGeneration cfg wake with pc := s.pc } hs rfl
        (.entry wake) (by simp) (by cases wake <;> first | rfl | exact hstarted)
        (.inr (by rw [hpc]; exact ⟨Nat.le_refl _, by simp [OwnerPc.distance]⟩))
      exact hloaded
    · refine failWake_progress hs ?_ hpc
      unfold noteLoadFailure
      split <;> rfl
  | entry wake =>
    have hstarted := hs.started
    rw [hpc] at hstarted
    have hwaking : (OwnerPc.waking wake).starting = false := by
      cases wake <;> first | rfl | exact hstarted
    have hwork : (OwnerPc.waking wake).work ≤ s.pc.work := by
      rw [hpc]
      exact Nat.le_refl _
    dsimp only
    split
    · rename_i message rest hcontrol
      exact ⟨_, rfl, handleResidentControl_progress hs hcontrol (by simp) hwaking hwork⟩
    · refine ⟨_, rfl, goto_progress hs (by rfl) (by simp) hwaking (.inr ⟨hwork, ?_⟩)⟩
      rw [hpc]
      simp [OwnerPc.distance]
  | waking wake => exact ⟨_, rfl, serveWake_progress hs hpc⟩
  | top =>
    dsimp only
    split
    · rename_i message rest hcontrol
      exact ⟨_, rfl, handleResidentControl_progress hs hcontrol (by simp) rfl (Nat.zero_le _)⟩
    · refine ⟨_, rfl, goto_progress hs (by rfl) (by simp) rfl (.inr ⟨Nat.zero_le _, ?_⟩)⟩
      rw [hpc]
      simp [OwnerPc.distance]
  | popping c second => exact ⟨_, rfl, schedulerPop_progress w hs hpc⟩
  | selecting deadline => exact residentSelect_progress hs h hsettled hpc
  | handling f below woken => exact ⟨_, rfl, handleStep_progress w hs hpc⟩
  | asleep => exact waitForWake_progress hs h hsettled hpc
  | wakePop c =>
    cases hresult : s.tryPop c w.late with
    | mk t popped =>
      cases popped with
      | none =>
        refine ⟨t.goto .asleep, by dsimp only; rw [hresult], ?_⟩
        refine popNone_progress hs hresult (by simp) rfl (.inr ⟨Nat.zero_le _, ?_⟩)
        rw [hpc]
        simp [OwnerPc.distance]
      | some r =>
        refine ⟨t.goto (.wakeCheck c r), by dsimp only; rw [hresult], ?_⟩
        exact pop_progress hs hresult (by simp) rfl (Nat.le_add_left _ _)
  | wakeCheck c r =>
    dsimp only
    split
    · refine ⟨_, rfl, goto_progress hs (by rfl) (by simp) rfl (.inl ?_)⟩
      rw [hpc]
      simp only [OwnerPc.work, EmbeddingRequest.work]
      omega
    · refine ⟨_, rfl, ?_⟩
      unfold startLoading
      refine goto_progress hs (by rfl) (by simp) rfl (.inr ?_)
      rw [hpc]
      exact ⟨Nat.le_refl _, by simp [OwnerPc.distance]⟩
  | wakeReply r =>
    refine ⟨_, rfl, goto_progress hs (by rfl) (by simp) rfl (.inl ?_)⟩
    rw [hpc]
    simp [OwnerPc.work]
  | stopped => exact absurd hpc hs.running

end Owner

/-- Nothing is accepted before the first load has been announced, and the first load is
never repeated. -/
structure Launched (s : State) : Prop where
  starting : s.pc.starting = true → s.started = false
  accepted : s.started = false → ∀ c, s.accepted c = []

section Launch
variable {s t : State}

/-- The part of the state that tells whether the engine has been handed out. -/
def launch (s : State) : Bool × (EmbeddingRequestClass → List EmbeddingRequest) :=
  (s.started, s.accepted)

/-- An owner step accepts nothing; it announces the first load or leaves `started` alone,
and it never goes back to the first load. -/
structure Launches (s t : State) : Prop where
  accepted : t.accepted = s.accepted
  started : t.started = s.started ∨ t.started = true ∧ t.pc.starting = false
  starting : t.pc.starting = true → s.pc.starting = true

theorem launches_goto (hlaunch : t.launch = s.launch) {pc : OwnerPc}
    (hpc : pc.starting = true → s.pc.starting = true) : s.Launches (t.goto pc) :=
  ⟨congrArg Prod.snd hlaunch, .inl (congrArg Prod.fst hlaunch), hpc⟩

/-- The owner goes on past the start. -/
theorem launches_of_goto {u : State} {pc : OwnerPc} (hstep : some (u.goto pc) = some t)
    (hlaunch : u.launch = s.launch) (hpc : pc.starting = false) : s.Launches t := by
  obtain rfl := Option.some.inj hstep
  exact launches_goto hlaunch fun hstarting => absurd (hpc.symm.trans hstarting) (by simp)

theorem Launched.step (h : s.Launched) (hstep : s.Launches t) : t.Launched := by
  constructor
  · intro hstarting
    rcases hstep.started with hsame | ⟨-, hfalse⟩
    · exact hsame.trans (h.starting (hstep.starting hstarting))
    · exact absurd (hfalse.symm.trans hstarting) (by simp)
  · intro hfalse c
    rcases hstep.started with hsame | ⟨htrue, -⟩
    · rw [hstep.accepted]
      exact h.accepted (hsame.symm.trans hfalse) c
    · exact absurd (htrue.symm.trans hfalse) (by simp)

theorem launch_tryPop (c : EmbeddingRequestClass) (late : List Nat) :
    (s.tryPop c late).1.launch = s.launch := by
  unfold tryPop
  dsimp only
  split <;> rfl

theorem launch_confirmResident (i : Nat) (result : Option Nat) :
    (s.confirmResident i result).launch = s.launch := by
  unfold confirmResident
  split <;> rfl

theorem launch_grantResidencyLease (i : Nat) :
    (s.grantResidencyLease i).launch = s.launch := by
  unfold grantResidencyLease
  split <;> rfl

theorem handleResidentControl_launches (message : Control) (rest : List Control)
    {next : OwnerPc} (hnext : next.starting = true → s.pc.starting = true) :
    s.Launches ((s.withControl rest).handleResidentControl message next) := by
  unfold handleResidentControl
  cases message with
  | shutdown =>
    exact launches_goto (by rfl) fun hstarting => absurd hstarting (by simp [OwnerPc.starting])
  | ensureResident i => exact launches_goto (by exact launch_confirmResident i _) hnext
  | acquireLease i => exact launches_goto (by exact launch_grantResidencyLease i) hnext
  | releaseLease => exact launches_goto (by rfl) hnext

theorem handleStep_launches (cfg : EngineConfig) (w : World) {f : Frame} {below : List Frame}
    {woken : Bool} : s.Launches (s.handleStep cfg w f below woken) := by
  have hmove : ∀ (t : State) (phase : Phase), t.launch = s.launch →
      s.Launches (t.toPhase f below woken phase) := fun t phase hlaunch =>
    launches_goto hlaunch fun hstarting => absurd hstarting (by simp [OwnerPc.starting])
  unfold handleStep
  dsimp only
  split <;> try exact hmove _ _ (by rfl)
  · split
    · split
      · exact hmove _ _ (by rfl)
      · exact ⟨rfl, .inl rfl, fun hstarting => hstarting⟩
    · exact hmove _ _ (by rfl)
  · have hpop := launch_tryPop (s := s) .query w.late
    cases hresult : s.tryPop .query w.late with
    | mk t popped =>
      rw [hresult] at hpop
      cases popped with
      | none => exact hmove _ _ hpop
      | some q =>
        exact launches_goto hpop fun hstarting => absurd hstarting (by simp [OwnerPc.starting])
  · unfold leaveFrame
    cases below with
    | nil | cons outer rest =>
      exact launches_goto (by rfl) fun hstarting => absurd hstarting (by simp [OwnerPc.starting])

theorem ownerStep_launches {cfg : EngineConfig} {w : World}
    (hstep : s.ownerStep cfg w = some t) : s.Launches t := by
  have hidle : ∀ {pc : OwnerPc}, pc.starting = false →
      pc.starting = true → s.pc.starting = true := fun hfalse htrue =>
    absurd (hfalse.symm.trans htrue) (by simp)
  unfold ownerStep at hstep
  cases hpc : s.pc with
  | loading wake =>
    rw [hpc] at hstep
    obtain rfl := Option.some.inj hstep
    split
    · refine @launches_goto s { s.enterGeneration cfg wake with pc := s.pc } (by rfl)
        (.entry wake) ?_
      rw [hpc]
      cases wake <;> exact fun hstarting => hstarting
    · have hnoted : s.noteLoadFailure.launch = s.launch := by
        unfold noteLoadFailure
        split <;> rfl
      unfold failWake
      cases wake with
      | startup => exact launches_goto hnoted (hidle (by rfl))
      | request c r => exact launches_goto (by exact hnoted) (hidle (by rfl))
      | ensureResident i =>
        exact launches_goto (by exact (launch_confirmResident i _).trans hnoted) (hidle (by rfl))
      | acquireLease i =>
        refine launches_goto (Eq.trans ?_ hnoted) (hidle (by rfl))
        unfold refuseLease
        split <;> rfl
  | entry wake =>
    have hnext : (OwnerPc.waking wake).starting = true → s.pc.starting = true := by
      rw [hpc]
      cases wake <;> exact fun hstarting => hstarting
    simp only [hpc] at hstep
    split at hstep
    · obtain rfl := Option.some.inj hstep
      exact handleResidentControl_launches _ _ hnext
    · obtain rfl := Option.some.inj hstep
      exact launches_goto (by rfl) hnext
  | waking wake =>
    rw [hpc] at hstep
    obtain rfl := Option.some.inj hstep
    unfold serveWake
    cases wake with
    | startup =>
      refine ⟨rfl, .inr ⟨rfl, rfl⟩, ?_⟩
      intro hstarting
      exact absurd hstarting (by simp [State.goto, OwnerPc.starting])
    | request c r => exact launches_goto (by rfl) (hidle (by rfl))
    | ensureResident i => exact launches_goto (by exact launch_confirmResident i _) (hidle (by rfl))
    | acquireLease i => exact launches_goto (by exact launch_grantResidencyLease i) (hidle (by rfl))
  | top =>
    simp only [hpc] at hstep
    split at hstep
    · obtain rfl := Option.some.inj hstep
      exact handleResidentControl_launches _ _ (hidle (by rfl))
    · exact launches_of_goto hstep (by rfl) rfl
  | popping c second =>
    rw [hpc] at hstep
    obtain rfl := Option.some.inj hstep
    have hpop := launch_tryPop (s := s) c w.late
    unfold schedulerPop
    cases hresult : s.tryPop c w.late with
    | mk t popped =>
      rw [hresult] at hpop
      cases popped with
      | some r => exact launches_goto (by exact hpop) (hidle (by rfl))
      | none =>
        dsimp only
        split
        · exact launches_goto (by exact hpop) (hidle (by rfl))
        · exact launches_goto (by exact hpop) (hidle (by rfl))
  | selecting deadline =>
    rw [hpc] at hstep
    dsimp only at hstep
    unfold residentSelect at hstep
    split at hstep
    · obtain rfl := Option.some.inj hstep
      exact handleResidentControl_launches _ _ (hidle (by rfl))
    · split at hstep
      · exact launches_of_goto hstep (by rfl) rfl
      · split at hstep
        · exact launches_of_goto hstep (by rfl) rfl
        · split at hstep
          · obtain rfl := Option.some.inj hstep
            split
            · unfold sleep
              exact launches_goto (by rfl) (hidle (by rfl))
            · exact launches_goto (by rfl) (hidle (by rfl))
          · exact absurd hstep (by simp)
  | handling f below woken =>
    rw [hpc] at hstep
    obtain rfl := Option.some.inj hstep
    exact handleStep_launches cfg w
  | asleep =>
    rw [hpc] at hstep
    dsimp only at hstep
    unfold waitForWake startLoading at hstep
    split at hstep
    · exact launches_of_goto hstep (by rfl) rfl
    · exact launches_of_goto hstep (by rfl) rfl
    · exact launches_of_goto hstep (by rfl) rfl
    · obtain rfl := Option.some.inj hstep
      exact ⟨rfl, .inl rfl, fun hstarting => hstarting⟩
    · split at hstep
      · exact launches_of_goto hstep (by rfl) rfl
      · split at hstep
        · exact launches_of_goto hstep (by rfl) rfl
        · exact absurd hstep (by simp)
  | wakePop c =>
    have hpop := launch_tryPop (s := s) c w.late
    simp only [hpc] at hstep
    split at hstep
    · rename_i hresult
      rw [hresult] at hpop
      exact launches_of_goto hstep (by exact hpop) rfl
    · rename_i hresult
      rw [hresult] at hpop
      exact launches_of_goto hstep (by exact hpop) rfl
  | wakeCheck c r =>
    simp only [hpc] at hstep
    split at hstep
    · exact launches_of_goto hstep (by rfl) rfl
    · obtain rfl := Option.some.inj hstep
      unfold startLoading
      exact launches_goto (by rfl) (hidle (by rfl))
  | wakeReply r =>
    rw [hpc] at hstep
    exact launches_of_goto hstep (by rfl) rfl
  | stopped =>
    rw [hpc] at hstep
    exact absurd hstep (by simp)

theorem launch_submit (c : EmbeddingRequestClass) (context : RequestContext)
    (inputs : List String) (late : List Nat) :
    (s.submit c context inputs late).started = s.started := by
  unfold submit tryPush
  dsimp only
  split
  · rfl
  · split <;> rfl

theorem step_launched (cfg : EngineConfig) (s : State) (a : Action) (t : State)
    (h : s.Launched) (hstep : step cfg s a = some t) : t.Launched := by
  unfold step at hstep
  split at hstep
  · rename_i c context inputs late
    split at hstep
    · rename_i hready
      obtain rfl := Option.some.inj hstep
      constructor
      · intro hstarting
        rw [pc_submit] at hstarting
        rw [launch_submit]
        exact h.starting hstarting
      · intro hfalse
        rw [launch_submit, hready] at hfalse
        exact absurd hfalse (by simp)
    · exact absurd hstep (by simp)
  · obtain rfl := Option.some.inj hstep
    exact ⟨h.starting, h.accepted⟩
  · split at hstep
    · obtain rfl := Option.some.inj hstep
      exact ⟨h.starting, h.accepted⟩
    · exact absurd hstep (by simp)
  · obtain rfl := Option.some.inj hstep
    exact ⟨h.starting, h.accepted⟩
  · obtain rfl := Option.some.inj hstep
    exact ⟨h.starting, h.accepted⟩
  · exact h.step (ownerStep_launches hstep)
  · unfold callerStep at hstep
    split at hstep
    all_goals
      first
      | split at hstep
        · obtain rfl := Option.some.inj hstep
          exact ⟨h.starting, h.accepted⟩
        · exact absurd hstep (by simp)
      | exact absurd hstep (by simp)

theorem reach_launched {cfg : EngineConfig} (hreach : Reach (step cfg) initial s) :
    s.Launched :=
  hreach.invariant (step_launched cfg) ⟨fun _ => rfl, fun _ _ => rfl⟩

end Launch

/-- The owner alone, on any sequence of answers of the world, settles every request. -/
theorem settles (cfg : EngineConfig) :
    ∀ (n : Nat) (s : State), s.workload ≤ n → s.Unhindered → s.Delivering →
      ∀ ws : Nat → World, ∃ (k : Nat) (t : State),
        run (step cfg) s ((List.range k).map fun i => .owner (ws i)) = some t ∧
          t.Settled ∧ t.Delivering ∧ t.accepted = s.accepted := by
  intro n
  induction n with
  | zero =>
    intro s hn hs h ws
    by_cases hsettled : s.Settled
    · exact ⟨0, s, rfl, hsettled, h, rfl⟩
    · obtain ⟨t, -, hless, -⟩ := @ownerStep_progress cfg (ws 0) s hs h hsettled
      omega
  | succ n ih =>
    intro s hn hs h ws
    by_cases hsettled : s.Settled
    · exact ⟨0, s, rfl, hsettled, h, rfl⟩
    · obtain ⟨t, hstep, hless, ht⟩ := @ownerStep_progress cfg (ws 0) s hs h hsettled
      have hdelivering : t.Delivering := ownerStep_delivering h hstep
      obtain ⟨k, u, hrun, hu, hu', haccepted⟩ :=
        ih t (by omega) ht hdelivering fun i => ws (i + 1)
      refine ⟨k + 1, u, ?_, hu, hu', haccepted.trans (ownerStep_launches hstep).accepted⟩
      rw [List.range_succ_eq_map, List.map_cons, List.map_map]
      have howner : step cfg s (.owner (ws 0)) = some t := hstep
      unfold run
      rw [howner]
      exact hrun

section Places
variable {s : State}

/-- Response channels are never shared, so an accepted request occurs once. -/
theorem count_accepted (h : s.Delivering) {c : EmbeddingRequestClass} {r : EmbeddingRequest}
    (hr : r ∈ s.accepted c) :
    (s.accepted c).count r = 1 ∧ (s.accepted c.other).count r = 0 := by
  constructor
  · exact List.count_eq_one_of_mem (h.distinct c).of_map hr
  · apply List.count_eq_zero.mpr
    intro hother
    cases c with
    | query => exact h.apart r hr r hother rfl
    | bulk => exact h.apart r hother r hr rfl

/-- An accepted request is in its queue or has left it, once. -/
theorem count_removed (h : s.Delivering) {c : EmbeddingRequestClass} {r : EmbeddingRequest}
    (hr : r ∈ s.accepted c) : (s.queue c).count r + s.removedCount r = 1 := by
  obtain ⟨hone, hzero⟩ := count_accepted h hr
  have hown := h.removed c r
  have hother := h.removed c.other r
  unfold removedCount
  cases c with
  | query | bulk =>
    simp only [EmbeddingRequestClass.other] at hother hzero
    omega

theorem Settled.answered (hsettled : s.Settled) (h : s.Delivering) {c : EmbeddingRequestClass}
    {r : EmbeddingRequest} (hr : r ∈ s.accepted c) :
    (s.answered.map Prod.fst).count r = 1 := by
  have hremoved := count_removed h hr
  have hanswered := h.answered [] hsettled.2 r
  rw [hsettled.1 c, List.count_nil] at hremoved
  rw [List.count_nil] at hanswered
  omega

end Places

/-- The owner is blocked in one of its two selects, or about to be. -/
def OwnerPc.AtSelect (pc : OwnerPc) : Prop := pc = .asleep ∨ ∃ deadline, pc = .selecting deadline

/-- Delivery, for every run. An accepted request is removed from its queue at most once and
is in exactly one of three places: its queue, the owner's hands, the answered ones. Of one
class, those that are not cancelled leave in the order they came. At a select, a queue that
is not empty shows a token. And unless a shutdown or a qualification hold intervenes, the
owner gets every accepted request answered, once, whatever the world answers. -/
theorem requests_delivered (cfg : EngineConfig) {s : State}
    (hreach : Reach (step cfg) initial s) :
    (∀ c, ∀ r ∈ s.accepted c, (s.queue c).count r + s.removedCount r = 1 ∧
      ∀ taken, s.pc.hands = some taken →
        (s.queue c).count r + taken.count r + (s.answered.map Prod.fst).count r = 1) ∧
    (∀ c, (s.accepted c).filter (fun r => !s.isCancelled r) =
      (s.dispatched c ++ s.queue c).filter fun r => !s.isCancelled r) ∧
    (OwnerPc.AtSelect s.pc → ∀ c, ∀ r ∈ s.queue c, s.isCancelled r = false →
      s.token c = true) ∧
    (s.pc ≠ .stopped → Control.shutdown ∉ s.control → (∀ c, s.held c = false) →
      ∀ c, ∀ r ∈ s.accepted c, ∀ ws : Nat → World, ∃ (k : Nat) (t : State),
        run (step cfg) s ((List.range k).map fun i => .owner (ws i)) = some t ∧
          (t.answered.map Prod.fst).count r = 1) := by
  have h := reach_delivering hreach
  have hlaunched := reach_launched hreach
  refine ⟨?_, h.ordered, ?_, ?_⟩
  · intro c r hr
    have hremoved := count_removed h hr
    refine ⟨hremoved, ?_⟩
    intro taken htaken
    have hanswered := h.answered taken htaken r
    omega
  · intro hselect c r hr _
    refine h.awake c ?_ (List.ne_nil_of_mem hr)
    rcases hselect with hpc | ⟨deadline, hpc⟩
    · rw [hpc]
      rfl
    · rw [hpc]
      rfl
  · intro hrunning hcontrol hheld c r hr ws
    have hstarted : s.pc.starting = false := by
      by_contra hstarting
      have hfalse := hlaunched.starting (Bool.of_not_eq_false hstarting)
      rw [hlaunched.accepted hfalse c] at hr
      exact absurd hr (by simp)
    obtain ⟨k, t, hrun, hsettled, ht, haccepted⟩ := settles cfg s.workload s (Nat.le_refl _)
      ⟨hheld, hcontrol, hrunning, hstarted⟩ h ws
    rw [← haccepted] at hr
    exact ⟨k, t, hrun, hsettled.answered ht hr⟩

/-- A query submitted while the resident owner is blocked in its select. -/
def submittedAtSelect : State :=
  afterRun (List.replicate 6 Action.smooth ++ [Action.submit .query ⟨"q", 0⟩ ["a"] []])

theorem requests_delivered_at_select :
    submittedAtSelect.token .query = true ∧
    ∀ ws : Nat → World, ∃ (k : Nat) (t : State),
      run (step ⟨1, 8, 8, by decide⟩) submittedAtSelect
        ((List.range k).map fun i => .owner (ws i)) = some t ∧
      (t.answered.map Prod.fst).count ⟨⟨"q", 0⟩, ["a"], 0⟩ = 1 := by
  have h := requests_delivered ⟨1, 8, 8, by decide⟩ (s := submittedAtSelect) (reach_afterRun _)
  constructor
  · exact h.2.2.1 (.inr ⟨1, by decide⟩) .query ⟨⟨"q", 0⟩, ["a"], 0⟩ (by decide)
      (by decide)
  · exact h.2.2.2 (by decide) (by decide) (by intro c; cases c <;> decide)
      .query ⟨⟨"q", 0⟩, ["a"], 0⟩ (by decide)

end State

end CodeStory.Engine
