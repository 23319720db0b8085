import CodeStory.Embedding.Admission
import CodeStory.Engine.Tracker
import CodeStory.Lib.KeyedTable
import CodeStory.Lib.Text

/-!
# Cancelling a request by its id

Registered requests are kept under the key `connection:request`. A cancel call carries only
the request id, so it looks for the keys with that ending and tells requests apart by the
triple that authenticates their client. Both parts of a key are arbitrary text and may hold
the separator, which is why the ending of a key need not be the id of its request.

Each request has an admission permit of its own; of a permit it matters whether it was
released. The maps of active requests and of cancellations have the same keys and are one
table here; phase and start time of a request are left out.
-/

set_option autoImplicit false

namespace CodeStory.Embedding

open CodeStory.Admission CodeStory.Engine

structure ServerCancellationAuth where
  token : String
  clientPid : UInt32
  clientProcessStartId : String
deriving DecidableEq

structure ServerRequest where
  connectionId : String
  requestId : String
  requestClass : EmbeddingRequestClass
  context : RequestLifecycle
  released : Bool
  auth : Option ServerCancellationAuth
deriving DecidableEq

def requestKey (connectionId requestId : String) : String :=
  connectionId ++ ":" ++ requestId

def ServerRequest.key (request : ServerRequest) : String :=
  requestKey request.connectionId request.requestId

/-- The part of the validation that looks at the id. -/
def validRequestId (requestId : String) : Bool :=
  !Text.isBlank requestId && decide (requestId.utf8ByteSize ≤ 256)

structure CancelCall where
  requestId : String
  auth : ServerCancellationAuth

structure Registry where
  requests : KeyedTable ServerRequest.key
  depths : ServerRequestAdmissionDepths
  draining : Bool

namespace Registry
variable (s : Registry) (call : CancelCall)

def beginRequest (request : ServerRequest) : Except String Registry :=
  if s.draining then .error "embedding_server_draining"
  else if request.key ∈ s.requests.keys then .error "embedding_server_duplicate_request_id"
  else .ok { s with requests := s.requests.insertNew request }

/-- The filter of the cancel call. -/
def isMatch (request : ServerRequest) : Bool :=
  Text.endsWith request.key (":" ++ call.requestId) && request.auth = some call.auth

/-- The context is cancelled and the permit released. -/
def cancelRequest (request : ServerRequest) : ServerRequest :=
  { request with context := request.context.cancel.1, released := true }

def cancelKey (key : String) : KeyedTable ServerRequest.key :=
  s.requests.update (fun request => if request.key = key then cancelRequest request else request)
    (by
      intro request
      split <;> rfl)

def cancel : Bool × Registry :=
  match s.requests.rows.filter (isMatch call) with
  | [request] =>
    if request.context.cancel.2 then
      (true,
        { s with
          requests := s.cancelKey request.key
          depths :=
            if request.released then s.depths else s.depths.decrement request.requestClass })
    else (false, s)
  | _ => (false, s)

/-! ## Exactness -/

/-- The request that the call names. -/
def isNamed (request : ServerRequest) : Bool :=
  request.requestId = call.requestId && request.auth = some call.auth

/-- Context or permit of the request are others after the call. -/
def Changes (request : ServerRequest) : Prop :=
  (s.cancel call).2.requests.lookup request.key ≠ some request

structure Exact : Prop where
  own : ∀ request ∈ s.requests.rows, s.Changes call request →
    request.requestId = call.requestId ∧ request.auth = some call.auth
  sole : (∀ request, s.requests.rows.filter (isNamed call) ≠ [request]) →
    (s.cancel call).1 = false ∧ ∀ request ∈ s.requests.rows, ¬ s.Changes call request
  others : ∀ request ∈ s.requests.rows, ∀ other ∈ s.requests.rows,
    s.Changes call request → other ≠ request → ¬ s.Changes call other

/-- The only request that the filter lets through is a live one of another id. -/
def Misdirected : Prop :=
  ∃ request, s.requests.rows.filter (isMatch call) = [request] ∧
    request.requestId ≠ call.requestId ∧ ¬ request.context.Final

section Call
variable {s : Registry} {call : CancelCall} {request : ServerRequest}

theorem isMatch_of_isNamed (h : isNamed call request = true) : isMatch call request = true := by
  obtain ⟨hid, hauth⟩ := Bool.and_eq_true_iff.mp h
  refine Bool.and_eq_true_iff.mpr ⟨?_, hauth⟩
  apply Text.endsWith_iff.mpr
  refine ⟨request.connectionId.toList, ?_⟩
  rw [← of_decide_eq_true hid, ← String.toList_append, ServerRequest.key, requestKey,
    String.append_assoc]

theorem cancel_final (hfinal : ¬ request.context.Final) :
    request.context.cancel = (.cancelled, true) := by
  cases hcontext : request.context with
  | queued => rfl
  | active => rfl
  | committed => exact absurd (.inl hcontext) hfinal
  | cancelled => exact absurd (.inr hcontext) hfinal

theorem cancel_of_match (h : s.requests.rows.filter (isMatch call) = [request])
    (hfinal : ¬ request.context.Final) :
    (s.cancel call).1 = true ∧ (s.cancel call).2.requests = s.cancelKey request.key := by
  unfold cancel
  rw [h]
  dsimp only
  rw [cancel_final hfinal]
  exact ⟨rfl, rfl⟩

theorem cancel_of_no_match
    (h : ∀ request, s.requests.rows.filter (isMatch call) = [request] → request.context.Final) :
    s.cancel call = (false, s) := by
  unfold cancel
  split
  · rename_i request hmatch
    rw [(h request hmatch).cancel]
    rfl
  · rfl

theorem lookup_cancelKey (key : String) (hrequest : request ∈ s.requests.rows) :
    (s.cancelKey key).lookup request.key =
      some (if request.key = key then cancelRequest request else request) := by
  have hlookup := KeyedTable.lookup_eq_some_iff.mpr ⟨hrequest, rfl⟩
  unfold cancelKey
  rw [KeyedTable.lookup_update, hlookup]
  rfl

/-- A call changes a request exactly when it is the only match and still live. -/
theorem changes_iff (hrequest : request ∈ s.requests.rows) :
    s.Changes call request ↔
      s.requests.rows.filter (isMatch call) = [request] ∧ ¬ request.context.Final := by
  have hlookup := KeyedTable.lookup_eq_some_iff.mpr ⟨hrequest, rfl⟩
  unfold Changes
  constructor
  · intro hchanges
    by_contra hnot
    by_cases hmatch : ∃ other, s.requests.rows.filter (isMatch call) = [other] ∧
        ¬ other.context.Final
    · obtain ⟨other, hother, hfinal⟩ := hmatch
      have hin : other ∈ s.requests.rows := by
        have hin := hother ▸ List.mem_singleton_self other
        exact (List.mem_filter.mp hin).1
      rw [(cancel_of_match hother hfinal).2, lookup_cancelKey _ hrequest] at hchanges
      have hkey : request.key = other.key := by
        by_contra hkey
        rw [if_neg hkey] at hchanges
        exact hchanges rfl
      obtain rfl := KeyedTable.eq_of_key_eq hrequest hin hkey
      exact hnot ⟨hother, hfinal⟩
    · have hnone : ∀ other, s.requests.rows.filter (isMatch call) = [other] →
          other.context.Final := by
        intro other hother
        by_contra hfinal
        exact hmatch ⟨other, hother, hfinal⟩
      rw [cancel_of_no_match hnone] at hchanges
      exact hchanges hlookup
  · rintro ⟨hmatch, hfinal⟩
    rw [(cancel_of_match hmatch hfinal).2, lookup_cancelKey _ hrequest, if_pos rfl]
    intro hsame
    have hcontext := congrArg ServerRequest.context (Option.some.inj hsame)
    have hcancelled : request.context = .cancelled := by
      rw [← hcontext]
      exact congrArg Prod.fst (cancel_final hfinal)
    exact hfinal (.inr hcancelled)

theorem mem_of_match (h : s.requests.rows.filter (isMatch call) = [request]) :
    request ∈ s.requests.rows ∧ isMatch call request = true := by
  have hin : request ∈ s.requests.rows.filter (isMatch call) := by
    rw [h]
    exact List.mem_singleton_self request
  exact List.mem_filter.mp hin

/-- A cancel call is exact unless it is misdirected. -/
theorem cancel_exact_iff (s : Registry) (call : CancelCall) :
    s.Exact call ↔ ¬ s.Misdirected call := by
  constructor
  · rintro hexact ⟨request, hmatch, hid, hfinal⟩
    have hrequest := (mem_of_match hmatch).1
    have hown := hexact.own request hrequest ((changes_iff hrequest).mpr ⟨hmatch, hfinal⟩)
    exact hid hown.1
  · intro hdirected
    have hown : ∀ request, s.requests.rows.filter (isMatch call) = [request] →
        ¬ request.context.Final → isNamed call request = true := by
      intro request hmatch hfinal
      have hauth := (Bool.and_eq_true_iff.mp (mem_of_match hmatch).2).2
      refine Bool.and_eq_true_iff.mpr ⟨?_, hauth⟩
      by_contra hid
      exact hdirected ⟨request, hmatch, by simpa using hid, hfinal⟩
    constructor
    · intro request hrequest hchanges
      obtain ⟨hmatch, hfinal⟩ := (changes_iff hrequest).mp hchanges
      simpa [isNamed] using hown request hmatch hfinal
    · intro hsole
      have hnone : ∀ request, s.requests.rows.filter (isMatch call) = [request] →
          request.context.Final := by
        intro request hmatch
        by_contra hfinal
        have hnamed := hown request hmatch hfinal
        apply hsole request
        have hboth : s.requests.rows.filter (isNamed call) =
            (s.requests.rows.filter (isMatch call)).filter (isNamed call) := by
          rw [List.filter_filter]
          apply List.filter_congr
          intro other _
          cases hother : isNamed call other with
          | false => rfl
          | true => rw [isMatch_of_isNamed hother, Bool.and_true]
        rw [hboth, hmatch, List.filter_cons_of_pos hnamed, List.filter_nil]
      refine ⟨by rw [cancel_of_no_match hnone], ?_⟩
      intro request hrequest hchanges
      obtain ⟨hmatch, hfinal⟩ := (changes_iff hrequest).mp hchanges
      exact hfinal (hnone request hmatch)
    · intro request hrequest other hother hchanges hne hchanges'
      have hmatch := ((changes_iff hrequest).mp hchanges).1
      have hmatch' := ((changes_iff hother).mp hchanges').1
      rw [hmatch] at hmatch'
      exact hne (List.cons.inj hmatch').1.symm

end Call

section Inputs

def someAuth : ServerCancellationAuth :=
  ⟨"6f1c1a52-8f0e-4a1b-9d62-0b5b8e0c7a11", 4242, "boot-1"⟩

/-- A request whose id holds the separator. -/
def namespacedRequest : ServerRequest :=
  ⟨"connection", "batch:7", .query, .queued, false, some someAuth⟩

/-- The id `batch:7` is registered; the call asks for `7`. -/
theorem cancel_reaches_another_id :
    validRequestId "batch:7" = true ∧ validRequestId "7" = true ∧
      ∃ s, Registry.beginRequest ⟨.empty, ⟨1, 0⟩, false⟩ namespacedRequest = .ok s ∧
        (s.cancel ⟨"7", someAuth⟩).1 = true ∧ ¬ s.Exact ⟨"7", someAuth⟩ := by
  refine ⟨by decide, by decide, _, rfl, by decide, ?_⟩
  intro hexact
  have hown := hexact.own namespacedRequest (by decide) (by unfold Changes; decide)
  exact absurd hown.1 (by decide)

end Inputs

end Registry

end CodeStory.Embedding
