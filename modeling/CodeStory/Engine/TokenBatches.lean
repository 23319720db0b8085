import CodeStory.Engine.Progress

/-!
# Embedding token batches

The inputs of a request are tokenized and embedded in batches: `embed_inputs`,
`embed_token_batch` and the configuration check that they rest on. What the build generates is
a parameter, and so is the llama context with everything around it: the requests that are
served between two batches, the flag of a cancellation, the telemetry.
-/

set_option autoImplicit false

namespace CodeStory.Engine

open Text

/-! ## The configuration -/

inductive EngineError where
  | modelRequestMismatch (requested compiled : String)
  | invalidConfiguration (reason : String)
  | backendNotCompiled (requested compiled : String)
  | llama (message : String)
  | emptyInput
  | inputTooLong (actual maximum : Nat)
  | workerUnavailable (message : String)
  | dimension (expected actual : Nat)
  | cancelled
  deriving DecidableEq, Repr

inductive NativeDeviceClass where
  | cpu
  | accelerator
  | unknown
  deriving DecidableEq, Repr

inductive NativeEmbeddingPooling where
  | mean
  | cls
  | last
  | rank
  deriving DecidableEq, Repr

structure NativeBackendRequest where
  backend : String
  deviceClass : NativeDeviceClass
  deriving DecidableEq, Repr

structure NativeEmbeddingRequest where
  modelId : String
  modelSha256 : String
  dimension : Nat
  pooling : NativeEmbeddingPooling
  contextTokens : Nat
  maxInputTokens : Nat
  batchTokens : Nat
  maxBatchSequences : Nat
  smokeInput : String
  deriving DecidableEq, Repr

structure EmbeddingEngineConfig where
  backend : NativeBackendRequest
  embedding : NativeEmbeddingRequest
  deriving DecidableEq, Repr

/-- What the build compiles in: the model and the backends. -/
structure CompiledEngine where
  modelFileName : String
  modelSha256 : String
  embeddingDimension : Nat
  backends : List String
  deriving DecidableEq, Repr

def i32Max : Nat := 2 ^ 31 - 1

def normalizeBackendName (value : String) : String :=
  let lowered := (trim value).toList.map Char.toLower
  if lowered = "mtl".toList then "metal"
  else if "vulkan".toList.isPrefixOf lowered then "vulkan"
  else String.ofList lowered

namespace CompiledEngine
variable (compiled : CompiledEngine)

/-- `CompiledModelCompatibility::accepts` of the compiled model. -/
def accepts (modelId modelSha256 : String) (dimension : Nat) (pooling : NativeEmbeddingPooling) :
    Bool :=
  compiled.modelFileName = modelId && compiled.modelSha256 = modelSha256 &&
    compiled.embeddingDimension = dimension && pooling = .cls

def validateEngineConfig (config : EmbeddingEngineConfig) : Except EngineError Unit :=
  let embedding := config.embedding
  let requested := normalizeBackendName config.backend.backend
  let classMatchesBackend : Bool :=
    match config.backend.deviceClass with
    | .cpu => requested = "cpu"
    | .accelerator => requested ≠ "cpu"
    | .unknown => false
  if embedding.modelId ≠ compiled.modelFileName ∨ embedding.modelSha256 ≠ compiled.modelSha256 then
    .error (.modelRequestMismatch (embedding.modelId ++ "@" ++ embedding.modelSha256)
      (compiled.modelFileName ++ "@" ++ compiled.modelSha256))
  else if ¬ compiled.accepts embedding.modelId embedding.modelSha256 embedding.dimension
      embedding.pooling then
    .error (.invalidConfiguration "compiled_model_compatibility_mismatch")
  else if embedding.contextTokens = 0 then
    .error (.invalidConfiguration "context_tokens_zero")
  else if embedding.maxInputTokens = 0 then
    .error (.invalidConfiguration "max_input_tokens_zero")
  else if embedding.batchTokens = 0 then
    .error (.invalidConfiguration "batch_tokens_zero")
  else if embedding.maxBatchSequences = 0 ∨ embedding.maxBatchSequences > i32Max then
    .error (.invalidConfiguration "max_batch_sequences_out_of_range")
  else if embedding.maxInputTokens > embedding.batchTokens then
    .error (.invalidConfiguration "max_input_tokens_exceed_batch_tokens")
  else if embedding.batchTokens > embedding.contextTokens then
    .error (.invalidConfiguration "batch_tokens_exceed_context_tokens")
  else if isBlank embedding.smokeInput then
    .error (.invalidConfiguration "smoke_input_empty")
  else if ¬ classMatchesBackend then
    .error (.invalidConfiguration "backend_device_class_mismatch")
  else if requested ∉ compiled.backends then
    .error (.backendNotCompiled requested (",".intercalate compiled.backends))
  else .ok ()

theorem passed {p : Prop} [Decidable p] {error : EngineError} {rest : Except EngineError Unit}
    (h : (if p then .error error else rest) = .ok ()) : ¬ p ∧ rest = .ok () := by
  split at h
  · cases h
  · rename_i hp
    exact ⟨hp, h⟩

/-- What batching relies on. -/
theorem validateEngineConfig_bounds {config : EmbeddingEngineConfig}
    (h : compiled.validateEngineConfig config = .ok ()) :
    0 < config.embedding.maxBatchSequences ∧
      config.embedding.maxInputTokens ≤ config.embedding.batchTokens := by
  unfold validateEngineConfig at h
  obtain ⟨-, h⟩ := passed h
  obtain ⟨-, h⟩ := passed h
  obtain ⟨-, h⟩ := passed h
  obtain ⟨-, h⟩ := passed h
  obtain ⟨-, h⟩ := passed h
  obtain ⟨hsequences, h⟩ := passed h
  obtain ⟨htokens, -⟩ := passed h
  omega

end CompiledEngine

/-- The part of an accepted configuration that the owner thread works with. -/
def EmbeddingEngineConfig.engine {compiled : CompiledEngine} (config : EmbeddingEngineConfig)
    (h : compiled.validateEngineConfig config = .ok ()) (idleTimeout : Nat) : EngineConfig where
  idleTimeout := idleTimeout
  batchTokens := config.embedding.batchTokens
  maxBatchSequences := config.embedding.maxBatchSequences
  maxBatchSequences_pos := (compiled.validateEngineConfig_bounds h).1

/-! ## One batch -/

/-- The next batch is as long as the configuration allows, and its tokens fit. -/
theorem batchLength_spec (cfg : EngineConfig) (tokens : List Nat) {taken total : Nat}
    (htaken : taken ≤ cfg.maxBatchSequences) (htotal : total ≤ cfg.batchTokens)
    (hfirst : taken = 0 → ∀ next ∈ tokens.head?, total + next ≤ cfg.batchTokens) :
    batchLength cfg taken total tokens ≤ cfg.maxBatchSequences ∧
      batchLength cfg taken total tokens ≤ taken + tokens.length ∧
      total + (tokens.take (batchLength cfg taken total tokens - taken)).sum ≤
        cfg.batchTokens := by
  induction tokens generalizing taken total with
  | nil =>
    unfold batchLength
    simp only [List.take_nil, List.sum_nil, List.length_nil]
    omega
  | cons next rest ih =>
    unfold batchLength
    split
    · rename_i hroom
      split
      · rw [Nat.sub_self, List.take_zero, List.sum_nil]
        omega
      · rename_i hgo
        have hnext : total + next ≤ cfg.batchTokens := by
          by_cases hzero : taken = 0
          · exact hfirst hzero next rfl
          · omega
        have hone : taken + 1 ≤ cfg.maxBatchSequences := hroom
        obtain ⟨hmax, hlength, hsum⟩ := ih hone hnext (by omega)
        have hge := batchLength_ge cfg rest (taken + 1) (total + next)
        refine ⟨hmax, ?_, ?_⟩
        · rw [List.length_cons]
          omega
        · obtain ⟨more, hmore⟩ := Nat.exists_eq_add_of_le hge
          rw [hmore] at hsum ⊢
          have hhead : taken + 1 + more - taken = more + 1 := by omega
          have hrest : taken + 1 + more - (taken + 1) = more := by omega
          rw [hrest] at hsum
          rw [hhead, List.take_succ_cons, List.sum_cons]
          omega
    · rw [Nat.sub_self, List.take_zero, List.sum_nil]
      omega

/-! ## All batches -/

section Batches
variable {Token : Type} (cfg : EngineConfig)

/-- `batch_end` of the sequences themselves. -/
def batchEndOf (tokenized : List (List Token)) (offset : Nat) : Nat :=
  batchEnd cfg (tokenized.map List.length) offset

theorem batchEndOf_gt {tokenized : List (List Token)} {offset : Nat}
    (h : offset < tokenized.length) : offset < batchEndOf cfg tokenized offset := by
  apply batchEnd_gt
  rwa [List.length_map]

/-- `tokenized[offset..end]` -/
def nextBatch (tokenized : List (List Token)) (offset : Nat) : List (List Token) :=
  (tokenized.drop offset).take (batchEndOf cfg tokenized offset - offset)

/-- The batches that the loop goes through. -/
def tokenBatches (tokenized : List (List Token)) (offset : Nat) : List (List (List Token)) :=
  if offset < tokenized.length then
    nextBatch cfg tokenized offset ::
      tokenBatches tokenized (batchEndOf cfg tokenized offset)
  else []
termination_by tokenized.length - offset
decreasing_by
  rename_i h
  have hgt := batchEndOf_gt cfg h
  omega

theorem flatten_tokenBatches (tokenized : List (List Token)) (offset : Nat) :
    (tokenBatches cfg tokenized offset).flatten = tokenized.drop offset := by
  induction offset using tokenBatches.induct cfg tokenized with
  | case1 offset h ih =>
    have hgt := batchEndOf_gt cfg h
    unfold tokenBatches
    rw [if_pos h, List.flatten_cons, ih]
    unfold nextBatch
    have hsplit : batchEndOf cfg tokenized offset =
        offset + (batchEndOf cfg tokenized offset - offset) := by omega
    rw [hsplit, ← List.drop_drop, Nat.add_sub_cancel_left]
    exact List.take_append_drop _ _
  | case2 offset h =>
    unfold tokenBatches
    rw [if_neg h, List.flatten_nil, List.drop_eq_nil_of_le (by omega)]

/-- Sequences that fit by themselves are batched within both bounds. -/
theorem nextBatch_bounds {tokenized : List (List Token)}
    (hlength : ∀ tokens ∈ tokenized, tokens.length ≤ cfg.batchTokens) {offset : Nat}
    (h : offset < tokenized.length) :
    nextBatch cfg tokenized offset ≠ [] ∧
      (nextBatch cfg tokenized offset).length ≤ cfg.maxBatchSequences ∧
      ((nextBatch cfg tokenized offset).map List.length).sum ≤ cfg.batchTokens := by
  have hgt := batchEndOf_gt cfg h
  have hfirst : ∀ next ∈ ((tokenized.map List.length).drop offset).head?,
      0 + next ≤ cfg.batchTokens := by
    intro next hnext
    rw [← List.map_drop, List.head?_map] at hnext
    obtain ⟨tokens, htokens, rfl⟩ := Option.map_eq_some_iff.mp hnext
    have hin := hlength tokens (List.mem_of_mem_drop (List.mem_of_head? htokens))
    omega
  obtain ⟨hmax, -, hsum⟩ := batchLength_spec cfg ((tokenized.map List.length).drop offset)
    (Nat.zero_le _) (Nat.zero_le _) fun _ => hfirst
  unfold nextBatch
  unfold batchEndOf batchEnd at hgt ⊢
  rw [Nat.add_sub_cancel_left]
  generalize batchLength cfg 0 0 ((tokenized.map List.length).drop offset) = taken at *
  refine ⟨?_, ?_, ?_⟩
  · intro hnil
    have hnone := congrArg List.length hnil
    rw [List.length_take, List.length_drop, List.length_nil] at hnone
    omega
  · exact Nat.le_trans (List.length_take_le _ _) hmax
  · rw [Nat.sub_zero, ← List.map_drop, ← List.map_take] at hsum
    omega

theorem tokenBatches_bounds {tokenized : List (List Token)}
    (hlength : ∀ tokens ∈ tokenized, tokens.length ≤ cfg.batchTokens) (offset : Nat) :
    ∀ batch ∈ tokenBatches cfg tokenized offset, batch ≠ [] ∧
      batch.length ≤ cfg.maxBatchSequences ∧
      (batch.map List.length).sum ≤ cfg.batchTokens := by
  induction offset using tokenBatches.induct cfg tokenized with
  | case1 offset h ih =>
    unfold tokenBatches
    rw [if_pos h]
    intro batch hbatch
    rcases List.mem_cons.mp hbatch with rfl | hbatch
    · exact nextBatch_bounds cfg hlength h
    · exact ih batch hbatch
  | case2 offset h =>
    unfold tokenBatches
    rw [if_neg h]
    intro batch hbatch
    cases hbatch

end Batches

/-! ## Embedding -/

/-- What the loop uses of the model and the context, and of everything else on its thread. -/
structure LlamaSession (σ Token Batch Scalar : Type) where
  strToToken : String → Except EngineError (List Token)
  newBatch : Nat → Nat → Batch
  addSequence : List Token → Nat → Batch → Except EngineError Batch
  clearKvCache : σ → σ
  beginEncode : σ → Except EngineError σ
  encode : Batch → σ → Except EngineError σ
  completeEncode : σ → Except EngineError σ
  embeddingsSeqIth : Nat → σ → Except EngineError (List Scalar)
  isCancelled : σ → Bool × σ
  progress : EmbeddingRequestClass → σ → σ
  /-- A query that waits between two batches is handled. -/
  serveQuery : σ → σ
  recordCompletedTokens : Nat → σ → σ

namespace LlamaSession
variable {σ Token Batch Scalar : Type} (session : LlamaSession σ Token Batch Scalar)

def tokenize (maxInputTokens : Nat) (input : String) : Except EngineError (List Token) :=
  match session.strToToken input with
  | .error error => .error error
  | .ok tokens =>
    if tokens.length > maxInputTokens then .error (.inputTooLong tokens.length maxInputTokens)
    else .ok tokens

def ensureEmbeddingRequestLive (s : σ) : Except EngineError σ :=
  if (session.isCancelled s).1 then .error .cancelled else .ok (session.isCancelled s).2

def loadBatch (sequences : List (List Token)) : Except EngineError Batch :=
  sequences.zipIdx.foldlM (fun batch entry => session.addSequence entry.1 entry.2 batch)
    (session.newBatch (sequences.map List.length).sum sequences.length)

/-- `embed_token_batch` up to where the vectors can be read. -/
def encodeBatch (sequences : List (List Token)) (s : σ) : Except EngineError σ := do
  let batch ← session.loadBatch sequences
  let s ← session.beginEncode (session.clearKvCache s)
  let s ← session.encode batch s
  session.completeEncode s

def readVectors (expectedDimension : Nat) (s : σ) :
    List Nat → List (List Scalar) → Except EngineError (List (List Scalar))
  | [], output => .ok output
  | sequenceId :: rest, output =>
    match session.embeddingsSeqIth sequenceId s with
    | .error error => .error error
    | .ok vector =>
      if vector.length ≠ expectedDimension then
        .error (.dimension expectedDimension vector.length)
      else readVectors expectedDimension s rest (output ++ [vector])

def embedTokenBatch (expectedDimension : Nat) (sequences : List (List Token))
    (output : List (List Scalar)) (s : σ) : Except EngineError (List (List Scalar) × σ) :=
  match session.encodeBatch sequences s with
  | .error error => .error error
  | .ok s =>
    (session.readVectors expectedDimension s (List.range sequences.length) output).map (·, s)

/-- Between two batches a bulk request lets a query through. -/
def afterBatch (priority : EmbeddingRequestClass) (more : Bool) (s : σ) : Except EngineError σ :=
  let s := session.progress priority s
  if priority = .bulk && more then session.ensureEmbeddingRequestLive (session.serveQuery s)
  else .ok s

section Loop
variable (cfg : EngineConfig) (dimension : Nat) (priority : EmbeddingRequestClass)

/-- The loop of `embed_inputs` from an offset. -/
def embedFrom (tokenized : List (List Token)) (offset : Nat) (output : List (List Scalar))
    (s : σ) : Except EngineError (List (List Scalar) × σ) :=
  if _h : offset < tokenized.length then
    match session.ensureEmbeddingRequestLive s with
    | .error error => .error error
    | .ok s =>
      match session.embedTokenBatch dimension (nextBatch cfg tokenized offset) output s with
      | .error error => .error error
      | .ok (output, s) =>
        let offset := batchEndOf cfg tokenized offset
        match session.afterBatch priority (offset < tokenized.length) s with
        | .error error => .error error
        | .ok s => embedFrom tokenized offset output s
  else .ok (output, s)
termination_by tokenized.length - offset
decreasing_by
  have hgt := batchEndOf_gt cfg _h
  omega

def embedInputs (maxInputTokens : Nat) (inputs : List String) (s : σ) :
    Except EngineError (List (List Scalar) × σ) :=
  if inputs = [] then .ok ([], s)
  else if inputs.any isBlank then .error .emptyInput
  else
    match inputs.mapM (session.tokenize maxInputTokens) with
    | .error error => .error error
    | .ok tokenized =>
      match session.embedFrom cfg dimension priority tokenized 0 [] s with
      | .error error => .error error
      | .ok (output, s) =>
        .ok (output, session.recordCompletedTokens (tokenized.map List.length).sum s)

end Loop

/-! ## One vector for each input -/

/-- The vectors of a batch are read one by one, after it was encoded. -/
def Embeds (dimension : Nat) (batch : List (List Token)) (vectors : List (List Scalar)) : Prop :=
  ∃ before after, session.encodeBatch batch before = .ok after ∧
    List.Forall₂ (fun sequenceId vector =>
        session.embeddingsSeqIth sequenceId after = .ok vector ∧ vector.length = dimension)
      (List.range batch.length) vectors

theorem readVectors_spec {dimension : Nat} {s : σ} {ids : List Nat}
    {output result : List (List Scalar)}
    (h : session.readVectors dimension s ids output = .ok result) :
    ∃ vectors, result = output ++ vectors ∧
      List.Forall₂ (fun sequenceId vector =>
        session.embeddingsSeqIth sequenceId s = .ok vector ∧ vector.length = dimension)
          ids vectors := by
  induction ids generalizing output with
  | nil =>
    cases h
    exact ⟨[], (List.append_nil _).symm, .nil⟩
  | cons sequenceId rest ih =>
    unfold readVectors at h
    cases hvector : session.embeddingsSeqIth sequenceId s with
    | error error =>
      rw [hvector] at h
      cases h
    | ok vector =>
      rw [hvector] at h
      dsimp only at h
      split at h
      · cases h
      · rename_i hdimension
        obtain ⟨vectors, rfl, hread⟩ := ih h
        refine ⟨vector :: vectors, ?_, .cons ⟨hvector, Decidable.not_not.mp hdimension⟩ hread⟩
        rw [List.append_assoc, List.singleton_append]

theorem embedTokenBatch_spec {dimension : Nat} {batch : List (List Token)}
    {output result : List (List Scalar)} {s s' : σ}
    (h : session.embedTokenBatch dimension batch output s = .ok (result, s')) :
    ∃ vectors, result = output ++ vectors ∧ session.Embeds dimension batch vectors := by
  unfold embedTokenBatch at h
  cases hencode : session.encodeBatch batch s with
  | error error =>
    rw [hencode] at h
    cases h
  | ok after =>
    rw [hencode] at h
    dsimp only at h
    cases hread : session.readVectors dimension after (List.range batch.length) output with
    | error error =>
      rw [hread] at h
      cases h
    | ok read =>
      rw [hread] at h
      cases h
      obtain ⟨vectors, hresult, hvectors⟩ := session.readVectors_spec hread
      exact ⟨vectors, hresult, s, s', hencode, hvectors⟩

theorem Embeds.length_eq {dimension : Nat} {batch : List (List Token)}
    {vectors : List (List Scalar)} (h : session.Embeds dimension batch vectors) :
    vectors.length = batch.length := by
  obtain ⟨_, _, -, hread⟩ := h
  rw [← hread.length_eq, List.length_range]

theorem length_flatten_of_embeds {dimension : Nat} {batches : List (List (List Token))}
    {vectors : List (List (List Scalar))}
    (h : List.Forall₂ (session.Embeds dimension) batches vectors) :
    vectors.flatten.length = batches.flatten.length := by
  induction h with
  | nil => rfl
  | cons hbatch _ ih =>
    rw [List.flatten_cons, List.flatten_cons, List.length_append, List.length_append, ih,
      hbatch.length_eq]

section Loop
variable (cfg : EngineConfig) {dimension : Nat} {priority : EmbeddingRequestClass}

/-- Where the loop succeeds, it has embedded its batches one after the other. -/
theorem embedFrom_spec {tokenized : List (List Token)} {offset : Nat}
    {output result : List (List Scalar)} {s s' : σ}
    (h : session.embedFrom cfg dimension priority tokenized offset output s = .ok (result, s')) :
    ∃ vectors, result = output ++ vectors.flatten ∧
      List.Forall₂ (session.Embeds dimension) (tokenBatches cfg tokenized offset) vectors := by
  induction offset using tokenBatches.induct cfg tokenized generalizing output s with
  | case1 offset hlt ih =>
    unfold embedFrom at h
    rw [dif_pos hlt] at h
    split at h
    · cases h
    split at h
    · cases h
    rename_i read _ hbatch
    dsimp only at h
    split at h
    · cases h
    obtain ⟨vectors, rfl, hvectors⟩ := session.embedTokenBatch_spec hbatch
    obtain ⟨more, rfl, hmore⟩ := ih h
    refine ⟨vectors :: more, ?_, ?_⟩
    · rw [List.flatten_cons, List.append_assoc]
    · unfold tokenBatches
      rw [if_pos hlt]
      exact .cons hvectors hmore
  | case2 offset hge =>
    unfold embedFrom at h
    rw [dif_neg hge] at h
    cases h
    refine ⟨[], (List.append_nil _).symm, ?_⟩
    unfold tokenBatches
    rw [if_neg hge]
    exact .nil

theorem forall₂_of_mapM {α β : Type} {f : α → Except EngineError β} {l : List α} {l' : List β}
    (h : l.mapM f = .ok l') : List.Forall₂ (fun a b => f a = .ok b) l l' := by
  induction l generalizing l' with
  | nil =>
    cases h
    exact .nil
  | cons a l ih =>
    rw [List.mapM_cons] at h
    cases ha : f a with
    | error error =>
      rw [ha] at h
      cases h
    | ok b =>
      cases hl : l.mapM f with
      | error error =>
        rw [ha, hl] at h
        cases h
      | ok rest =>
        rw [ha, hl] at h
        cases h
        exact .cons ha (ih hl)

theorem embedInputs_spec {maxInputTokens : Nat} {inputs : List String} {output : List (List Scalar)}
    {tokenized : List (List Token)} {s s' : σ}
    (htokens : inputs.mapM (session.tokenize maxInputTokens) = .ok tokenized)
    (h : session.embedInputs cfg dimension priority maxInputTokens inputs s = .ok (output, s')) :
    output.length = inputs.length ∧
      ∃ vectors, output = vectors.flatten ∧
        List.Forall₂ (session.Embeds dimension) (tokenBatches cfg tokenized 0) vectors := by
  have hinputs := (forall₂_of_mapM htokens).length_eq
  have hvectors : ∃ vectors, output = vectors.flatten ∧
      List.Forall₂ (session.Embeds dimension) (tokenBatches cfg tokenized 0) vectors := by
    unfold embedInputs at h
    split at h
    · rename_i hnil
      subst hnil
      cases htokens
      cases h
      refine ⟨[], rfl, ?_⟩
      unfold tokenBatches
      exact .nil
    split at h
    · cases h
    rw [htokens] at h
    dsimp only at h
    split at h
    · cases h
    rename_i hloop
    cases h
    obtain ⟨vectors, hresult, hvectors⟩ := session.embedFrom_spec cfg hloop
    exact ⟨vectors, hresult, hvectors⟩
  obtain ⟨vectors, rfl, hembeds⟩ := hvectors
  refine ⟨?_, vectors, rfl, hembeds⟩
  rw [session.length_flatten_of_embeds hembeds, flatten_tokenBatches, List.drop_zero, hinputs]

end Loop

end LlamaSession

/-- Under an accepted configuration the loop, which always ends, cuts the sequences into batches
within both bounds, and what it returns holds the vectors of every batch in turn. -/
theorem token_batches_partition {compiled : CompiledEngine} {config : EmbeddingEngineConfig}
    (h : compiled.validateEngineConfig config = .ok ()) (idleTimeout : Nat) {Token : Type}
    {tokenized : List (List Token)}
    (hlength : ∀ tokens ∈ tokenized, tokens.length ≤ config.embedding.maxInputTokens) :
    let batches := tokenBatches (config.engine h idleTimeout) tokenized 0
    batches.flatten = tokenized ∧
      (∀ batch ∈ batches, batch ≠ [] ∧ batch.length ≤ config.embedding.maxBatchSequences ∧
        (batch.map List.length).sum ≤ config.embedding.batchTokens) ∧
      ∀ {σ Batch Scalar : Type} (session : LlamaSession σ Token Batch Scalar)
        (priority : EmbeddingRequestClass) (inputs : List String) (s s' : σ)
        (output : List (List Scalar)),
        inputs.mapM (session.tokenize config.embedding.maxInputTokens) = .ok tokenized →
        session.embedInputs (config.engine h idleTimeout) config.embedding.dimension priority
          config.embedding.maxInputTokens inputs s = .ok (output, s') →
        output.length = inputs.length ∧ ∃ vectors, output = vectors.flatten ∧
          List.Forall₂ (session.Embeds config.embedding.dimension) batches vectors := by
  have hbounds := compiled.validateEngineConfig_bounds h
  refine ⟨?_, ?_, ?_⟩
  · rw [flatten_tokenBatches, List.drop_zero]
  · apply tokenBatches_bounds
    intro tokens htokens
    exact Nat.le_trans (hlength tokens htokens) hbounds.2
  · intro σ Batch Scalar session priority inputs s s' output htokens houtput
    exact session.embedInputs_spec _ htokens houtput

section Inputs

def sampleCompiled : CompiledEngine := ⟨"model.gguf", "00", 1, ["cpu"]⟩

/-- Batches of two sequences and four tokens. -/
def sampleConfig : EmbeddingEngineConfig :=
  ⟨⟨" CPU", .cpu⟩, ⟨"model.gguf", "00", 1, .cls, 4, 4, 4, 2, "smoke"⟩⟩

/-- A token for each character; the vector of a sequence is its length. -/
def countingSession : LlamaSession (List Nat) Char (List Nat) Nat where
  strToToken := fun input => .ok input.toList
  newBatch := fun _ _ => []
  addSequence := fun tokens _ batch => .ok (batch ++ [tokens.length])
  clearKvCache := fun _ => []
  beginEncode := fun s => .ok s
  encode := fun batch _ => .ok batch
  completeEncode := fun s => .ok s
  embeddingsSeqIth := fun sequenceId s =>
    match s[sequenceId]? with
    | some length => .ok [length]
    | none => .error (.llama "no sequence")
  isCancelled := fun s => (false, s)
  progress := fun _ s => s
  serveQuery := fun _ => [7]
  recordCompletedTokens := fun _ s => s

theorem sampleConfig_accepted : sampleCompiled.validateEngineConfig sampleConfig = .ok () := by
  decide

def sampleInputs : List String := ["ab", "c", "d", "efgh"]

/-- The first batch is full of sequences, the last of tokens. -/
theorem sample_batches_partition :
    (tokenBatches (sampleConfig.engine sampleConfig_accepted 0)
        (sampleInputs.map String.toList) 0).flatten = sampleInputs.map String.toList ∧
      ∃ output s', countingSession.embedInputs (sampleConfig.engine sampleConfig_accepted 0) 1 .bulk
        4 sampleInputs [] = .ok (output, s') ∧ output.length = 4 := by
  have hlength : ∀ tokens ∈ sampleInputs.map String.toList,
      tokens.length ≤ sampleConfig.embedding.maxInputTokens := by decide
  obtain ⟨hflatten, -, hembeds⟩ :=
    token_batches_partition sampleConfig_accepted 0 hlength
  refine ⟨hflatten, ?_⟩
  have hok : (countingSession.embedInputs (sampleConfig.engine sampleConfig_accepted 0) 1 .bulk
      4 sampleInputs []).isOk = true := by decide +kernel
  cases hrun : countingSession.embedInputs (sampleConfig.engine sampleConfig_accepted 0) 1 .bulk
      4 sampleInputs [] with
  | error error =>
    rw [hrun] at hok
    cases hok
  | ok result =>
    refine ⟨result.1, result.2, rfl, ?_⟩
    exact (hembeds countingSession .bulk sampleInputs [] result.2 result.1 rfl hrun).1

end Inputs

end CodeStory.Engine
