import CodeStory.Retrieval.QueryCache

/-!
# The query cache is transparent

Caches that are cloned, scoped, filled by single queries and batches, and merged. Every entry
of every cache is the result of an execution from scratch under the key that names it, and a
key determines the publication, the manifest and the query. So a cached answer is what an
execution with an empty cache would give.
-/

set_option autoImplicit false

namespace CodeStory.Retrieval

open Transition

variable {F : Type}

/-- The key of a query in a cache that is scoped to the session's publication. -/
def sessionKey (sidecars : Sidecars F) (session : Session) (query : String) : RetrievalCacheKey :=
  { RetrievalCacheKey.fromManifest session.manifest (sidecars.queryFingerprint (trim query)) with
    coreGenerationId := some session.identity.coreGenerationId
    coreRunId := some session.identity.coreRunId }

/-- What an execution that finds nothing in the cache returns. -/
def freshResult (sidecars : Sidecars F) (session : Session) (query : String) :
    Except String (QueryResult F) :=
  executeStages sidecars session (classifyQuery sidecars.chars query)

/-- The fingerprint tells these queries apart. -/
def CollisionFree (sidecars : Sidecars F) (asked : List String) : Prop :=
  ∀ query ∈ asked, ∀ other ∈ asked,
    sidecars.queryFingerprint (trim query) = sidecars.queryFingerprint (trim other) →
      trim query = trim other

section Keys
variable {sidecars : Sidecars F} {asked : List String}

theorem denseProjectionCount_eq (session : Session) :
    session.manifest.denseProjectionCount = session.manifest.projectionCount := by
  have hcurrent := session.current
  unfold manifestHasCurrentSidecarContract at hcurrent
  split at hcurrent
  · exact absurd hcurrent (by simp)
  · simp only [Bool.and_eq_true, decide_eq_true_eq] at hcurrent
    exact hcurrent.2

/-- A manifest of a session is determined by what a key has of it. -/
theorem manifest_eq_of_key {session other : Session} {query query' : String}
    (h : sessionKey sidecars session query = sessionKey sidecars other query') :
    session.manifest = other.manifest := by
  simp only [sessionKey, RetrievalCacheKey.fromManifest, RetrievalCacheKey.mk.injEq] at h
  obtain ⟨-, -, hproject, hlexical, hsemantic, hscip, hsidecar, hhash, hschema, hprojection, -⟩ := h
  have hdense : session.manifest.denseProjectionCount = other.manifest.denseProjectionCount := by
    rw [denseProjectionCount_eq, denseProjectionCount_eq, hprojection]
  exact RetrievalIndexManifest.ext hproject hlexical hsemantic hscip hschema hhash hsidecar
    hprojection hdense

/-- A key names one publication and, without collisions, one query. -/
theorem freshResult_congr (hfree : CollisionFree sidecars asked) {session other : Session}
    {query query' : String} (hquery : query ∈ asked) (hquery' : query' ∈ asked)
    (h : sessionKey sidecars session query = sessionKey sidecars other query') :
    freshResult sidecars session query = freshResult sidecars other query' := by
  have hmanifest := manifest_eq_of_key h
  simp only [sessionKey, RetrievalCacheKey.fromManifest, RetrievalCacheKey.mk.injEq,
    Option.some.injEq] at h
  obtain ⟨hgeneration, hrun, -, -, -, -, -, -, -, -, hfingerprint⟩ := h
  have hidentity : session.identity = other.identity := by
    have hsession := session.identified
    rw [hgeneration, hrun, hmanifest, other.identified] at hsession
    exact (Option.some.inj hsession).symm
  have hsame : session = other := by
    cases session
    cases other
    simp only at hidentity hmanifest
    subst hidentity hmanifest
    rfl
  unfold freshResult classifyQuery
  rw [hsame, hfree query hquery query' hquery' hfingerprint]

end Keys

/-- An entry is the result of an execution from scratch that ran to its end. -/
def Stored (sidecars : Sidecars F) (asked : List String)
    (entry : RetrievalCacheKey × List (CandidateHit F)) : Prop :=
  ∃ session query result, query ∈ asked ∧ freshResult sidecars session query = .ok result ∧
    result.cancelReason = none ∧ entry = (sessionKey sidecars session query, result.hits)

def Sound (sidecars : Sidecars F) (asked : List String) (cache : RetrievalCache F) : Prop :=
  ∀ entry ∈ cache.map.entries, Stored sidecars asked entry

/-- The cache is scoped to the publication of the session. -/
def Scoped (cache : RetrievalCache F) (session : Session) : Prop :=
  cache.publicationIdentity =
    some (session.identity.coreGenerationId, session.identity.coreRunId)

/-- The result is what an execution from scratch returns for the query. -/
def Answers (sidecars : Sidecars F) (session : Session) (query : String) (result : QueryResult F) :
    Prop :=
  ∃ fresh, freshResult sidecars session query = .ok fresh ∧ result.query = fresh.query ∧
    result.hits = fresh.hits

section Cache
variable {sidecars : Sidecars F} {asked : List String} {cache : RetrievalCache F}
  {session : Session} {query : String} {result : QueryResult F}

theorem sound_withCapacity (capacity : Nat) :
    Sound sidecars asked (.withCapacity capacity : RetrievalCache F) := by
  intro entry hentry
  exact absurd hentry (by simp [RetrievalCache.withCapacity, BoundedMap.withCapacity])

theorem sound_clear (cache : RetrievalCache F) : Sound sidecars asked cache.clear := by
  intro entry hentry
  exact absurd hentry (by simp [RetrievalCache.clear, BoundedMap.clear])

theorem Sound.insert (h : Sound sidecars asked cache) {key : RetrievalCacheKey}
    {hits : List (CandidateHit F)} (hentry : Stored sidecars asked (key, hits)) :
    Sound sidecars asked (cache.insert key hits) := by
  intro entry hmem
  rcases BoundedMap.mem_insert hmem with rfl | hmem
  · exact hentry
  · exact h entry hmem

theorem scoped_scopeToPublication (cache : RetrievalCache F) (session : Session) :
    Scoped (cache.scopeToPublication session.identity) session := by
  unfold Scoped RetrievalCache.scopeToPublication
  dsimp only
  split
  · rfl
  · rename_i hsame
    exact not_not.mp hsame

theorem Sound.scope (h : Sound sidecars asked cache) (session : Session) :
    Sound sidecars asked (cache.scopeToPublication session.identity) := by
  unfold RetrievalCache.scopeToPublication
  dsimp only
  split
  · exact sound_clear cache
  · exact h

theorem keyForManifest_scoped (h : Scoped cache session) :
    cache.keyForManifest session.manifest (sidecars.queryFingerprint (trim query)) =
      sessionKey sidecars session query := by
  unfold RetrievalCache.keyForManifest
  rw [h]
  rfl

/-- What an execution from scratch says of the query itself. -/
theorem freshResult_query (h : freshResult sidecars session query = .ok result) :
    result.query = trim query ∧ result.features.rawQuery = trim query := by
  unfold freshResult executeStages at h
  split at h
  · exact absurd h (by simp)
  · obtain rfl := Except.ok.inj h
    exact ⟨rfl, rfl⟩

/-- An answer from a sound cache is the one from scratch. -/
theorem cachedResult_answers (hfree : CollisionFree sidecars asked)
    (h : Sound sidecars asked cache) (hscoped : Scoped cache session) (hquery : query ∈ asked)
    (hcached : cachedResult sidecars cache session.manifest query = some result) :
    Answers sidecars session query result := by
  obtain ⟨hits, hget, rfl⟩ := Option.map_eq_some_iff.mp hcached
  have hget : cache.get (sessionKey sidecars session query) = some hits := by
    rw [← keyForManifest_scoped hscoped]
    exact hget
  obtain ⟨other, query', fresh, hquery', hfresh, -, hentry⟩ := h _ (BoundedMap.mem_of_get hget)
  obtain ⟨hkey, rfl⟩ := Prod.mk.inj hentry
  have hsame := (freshResult_congr hfree hquery hquery' hkey).trans hfresh
  exact ⟨fresh, hsame, (freshResult_query hsame).1.symm, rfl⟩

theorem Scoped.storeResult (h : Scoped cache session) (result : QueryResult F) :
    Scoped (storeResult sidecars cache session.manifest result) session := by
  unfold Retrieval.storeResult
  split
  · exact h
  · exact h

theorem Sound.storeResult (h : Sound sidecars asked cache) (hscoped : Scoped cache session)
    (hquery : query ∈ asked) (hfresh : freshResult sidecars session query = .ok result) :
    Sound sidecars asked (storeResult sidecars cache session.manifest result) := by
  unfold Retrieval.storeResult
  split
  · exact h
  · rename_i hcancel
    apply h.insert
    rw [(freshResult_query hfresh).2, keyForManifest_scoped hscoped]
    exact ⟨session, query, result, hquery, hfresh, hcancel, rfl⟩

end Cache

section Execute
variable {sidecars : Sidecars F} {asked : List String} {cache : RetrievalCache F}
  {session : Session} {query : String} {result : QueryResult F}

theorem cachedResult_new (manifest : RetrievalIndexManifest) (query : String)
    (cache : RetrievalCache F) (hempty : cache.map.entries = []) :
    cachedResult sidecars cache manifest query = none := by
  unfold cachedResult RetrievalCache.get BoundedMap.get
  rw [hempty]
  rfl

/-- With nothing in the cache, `execute` is the execution from scratch. -/
theorem execute_empty (hempty : cache.map.entries = []) :
    (execute sidecars session query cache).1 = freshResult sidecars session query := by
  unfold execute
  rw [cachedResult_new _ _ _ hempty]
  dsimp only
  unfold freshResult
  split
  · rename_i error herror
    rw [herror]
  · rename_i result hresult
    rw [hresult]

theorem executeWithCache_new :
    (executeWithCache sidecars session query .new).1 = freshResult sidecars session query :=
  execute_empty rfl

theorem execute_spec (hfree : CollisionFree sidecars asked) (h : Sound sidecars asked cache)
    (hscoped : Scoped cache session) (hquery : query ∈ asked) :
    Sound sidecars asked (execute sidecars session query cache).2 ∧
      ∀ result, (execute sidecars session query cache).1 = .ok result →
        Answers sidecars session query result := by
  unfold execute
  split
  · rename_i cached hcached
    refine ⟨h, ?_⟩
    intro result hresult
    obtain rfl := Except.ok.inj hresult
    exact cachedResult_answers hfree h hscoped hquery hcached
  · split
    · exact ⟨h, fun result hresult => absurd hresult (by simp)⟩
    · rename_i fresh hfresh
      refine ⟨h.storeResult hscoped hquery hfresh, ?_⟩
      intro result hresult
      obtain rfl := Except.ok.inj hresult
      exact ⟨fresh, hfresh, rfl, rfl⟩

end Execute

section Batch
variable {sidecars : Sidecars F} {asked : List String} {cache : RetrievalCache F}
  {session : Session} {queries : List String}

theorem chunksFrom_flatten {α : Type} (limit : Nat) (xs : List α) (room : Nat) :
    (chunksFrom limit room xs).1 ++ (chunksFrom limit room xs).2.flatten = xs := by
  induction xs generalizing room with
  | nil => cases room <;> rfl
  | cons x xs ih =>
    cases room with
    | zero => simp [chunksFrom, ih]
    | succ room => simp [chunksFrom, ih]

theorem chunks_flatten {α : Type} (limit : Nat) (xs : List α) : (chunks limit xs).flatten = xs := by
  have hall := chunksFrom_flatten limit xs 0
  have hfirst : (chunksFrom limit 0 xs).1 = [] := by cases xs <;> rfl
  rw [hfirst, List.nil_append] at hall
  exact hall

/-- What the batch has so far sits where its query is. -/
structure Placed (sidecars : Sidecars F) (session : Session) (queries : List String)
    (results : List (Option (QueryResult F))) : Prop where
  length : results.length = queries.length
  answers : ∀ (i : Nat) query result, queries[i]? = some query → results[i]? = some (some result) →
    Answers sidecars session query result

/-- A miss remembers the position of its query. -/
def Misses (queries : List String) (misses : List (Nat × String)) : Prop :=
  ∀ miss ∈ misses, queries[miss.1]? = some miss.2

theorem lookUpBatch_spec (hfree : CollisionFree sidecars asked) (h : Sound sidecars asked cache)
    (hscoped : Scoped cache session) (queries : List String)
    (hqueries : ∀ query ∈ queries, query ∈ asked) (start : Nat) :
    Placed sidecars session queries (lookUpBatch sidecars session cache start queries).1 ∧
      ∀ miss ∈ (lookUpBatch sidecars session cache start queries).2,
        ∃ i, miss.1 = start + i ∧ queries[i]? = some miss.2 := by
  induction queries generalizing start with
  | nil => exact ⟨⟨rfl, by simp⟩, by simp [lookUpBatch]⟩
  | cons query queries ih =>
    obtain ⟨hplaced, hmisses⟩ :=
      ih (fun q hq => hqueries q (List.mem_cons_of_mem _ hq)) (start + 1)
    have hlater : ∀ miss ∈ (lookUpBatch sidecars session cache (start + 1) queries).2,
        ∃ i, miss.1 = start + i ∧ (query :: queries)[i]? = some miss.2 := by
      intro miss hmiss
      obtain ⟨i, hi, hquery⟩ := hmisses miss hmiss
      exact ⟨i + 1, by omega, hquery⟩
    have hplace : ∀ slot : Option (QueryResult F),
        (∀ result, slot = some result → Answers sidecars session query result) →
        Placed sidecars session (query :: queries)
          (slot :: (lookUpBatch sidecars session cache (start + 1) queries).1) := by
      intro slot hslot
      refine ⟨by simp [hplaced.length], ?_⟩
      intro i q result hq hresult
      cases i with
      | zero =>
        obtain rfl : query = q := by simpa using hq
        exact hslot result (by simpa using hresult)
      | succ i => exact hplaced.answers i q result hq hresult
    simp only [lookUpBatch]
    split
    · rename_i result hcached
      refine ⟨hplace _ ?_, hlater⟩
      intro result' hresult'
      obtain rfl := Option.some.inj hresult'
      exact cachedResult_answers hfree h hscoped (hqueries query List.mem_cons_self) hcached
    · refine ⟨hplace _ (by simp), ?_⟩
      intro miss hmiss
      rcases List.mem_cons.mp hmiss with rfl | hmiss
      · exact ⟨0, rfl, rfl⟩
      · exact hlater miss hmiss

theorem Placed.set {results : List (Option (QueryResult F))}
    (h : Placed sidecars session queries results) {index : Nat} {query : String}
    {result : QueryResult F} (hquery : queries[index]? = some query)
    (hanswers : Answers sidecars session query result) :
    Placed sidecars session queries (results.set index (some result)) := by
  refine ⟨by rw [List.length_set, h.length], ?_⟩
  intro i query' result' hquery' hresult'
  by_cases hi : index = i
  · subst hi
    obtain rfl : query = query' := Option.some.inj (hquery.symm.trans hquery')
    rw [List.getElem?_set] at hresult'
    obtain rfl : result = result' := by
      by_cases hlt : index < results.length
      · simpa [hlt] using hresult'
      · simp [hlt] at hresult'
    exact hanswers
  · rw [List.getElem?_set_ne hi] at hresult'
    exact h.answers i query' result' hquery' hresult'

/-- The state of a batch between two results: the cache is sound and scoped, and what is
there is in its place. -/
structure BatchFits (sidecars : Sidecars F) (asked : List String) (session : Session)
    (queries : List String) (results : List (Option (QueryResult F)))
    (cache : RetrievalCache F) : Prop where
  sound : Sound sidecars asked cache
  inScope : Scoped cache session
  placed : Placed sidecars session queries results

theorem takeWave_fits (hqueries : ∀ query ∈ queries, query ∈ asked) (wave : List (Nat × String)) :
    ∀ results cache, BatchFits sidecars asked session queries results cache →
      Misses queries wave →
      ∀ outcome, takeWave sidecars session (runWave sidecars session wave) results cache = outcome →
        BatchFits sidecars asked session queries outcome.2.1 outcome.2.2 := by
  induction wave with
  | nil =>
    rintro results cache h - outcome rfl
    exact h
  | cons miss wave ih =>
    rintro results cache h hmisses outcome rfl
    obtain ⟨index, query⟩ := miss
    have hquery : queries[index]? = some query := hmisses _ List.mem_cons_self
    have hrun : (execute sidecars session query .new).1 = freshResult sidecars session query :=
      execute_empty rfl
    simp only [runWave, List.map_cons, hrun]
    cases hfresh : freshResult sidecars session query with
    | error error => exact h
    | ok result =>
      have hasked : query ∈ asked := hqueries query (List.mem_of_getElem? hquery)
      refine ih _ _ ⟨h.sound.storeResult h.inScope hasked hfresh, h.inScope.storeResult result, ?_⟩
        (fun miss hmiss => hmisses miss (List.mem_cons_of_mem _ hmiss)) _ rfl
      exact h.placed.set hquery ⟨result, hfresh, rfl, rfl⟩

theorem runWaves_fits (hqueries : ∀ query ∈ queries, query ∈ asked)
    (waves : List (List (Nat × String))) :
    ∀ results cache, BatchFits sidecars asked session queries results cache →
      Misses queries waves.flatten →
      ∀ outcome, runWaves sidecars session waves results cache = outcome →
        BatchFits sidecars asked session queries outcome.2.1 outcome.2.2 := by
  induction waves with
  | nil =>
    rintro results cache h - outcome rfl
    exact h
  | cons wave waves ih =>
    rintro results cache h hmisses outcome rfl
    rw [List.flatten_cons] at hmisses
    have hwave := takeWave_fits hqueries wave results cache h
      (fun miss hmiss => hmisses miss (List.mem_append_left _ hmiss)) _ rfl
    simp only [runWaves]
    split
    · rename_i error results' cache' htaken
      rw [htaken] at hwave
      exact hwave
    · rename_i results' cache' htaken
      rw [htaken] at hwave
      exact ih results' cache' hwave
        (fun miss hmiss => hmisses miss (List.mem_append_right _ hmiss)) _ rfl

theorem collectResults_ok : ∀ {results : List (Option (QueryResult F))}
    {collected : List (QueryResult F)}, collectResults results = .ok collected →
      results = collected.map some := by
  intro results
  induction results with
  | nil =>
    intro collected h
    obtain rfl := Except.ok.inj h
    rfl
  | cons slot results ih =>
    intro collected h
    cases slot with
    | none => exact absurd h (by simp [collectResults])
    | some result =>
      simp only [collectResults] at h
      split at h
      · exact absurd h (by simp)
      · rename_i rest hrest
        obtain rfl := Except.ok.inj h
        rw [ih hrest]
        rfl

/-- Every result of a batch is the one from scratch, at the position of its query. -/
def AnswersAll (sidecars : Sidecars F) (session : Session) (queries : List String)
    (results : List (QueryResult F)) : Prop :=
  results.length = queries.length ∧
    ∀ (i : Nat) query result, queries[i]? = some query → results[i]? = some result →
      Answers sidecars session query result

theorem executeBatchWithCache_spec (session : Session) (hfree : CollisionFree sidecars asked)
    (h : Sound sidecars asked cache) (hqueries : ∀ query ∈ queries, query ∈ asked)
    (workerLimit : Nat) :
    Sound sidecars asked (executeBatchWithCache sidecars session queries workerLimit cache).2 ∧
      ∀ results,
        (executeBatchWithCache sidecars session queries workerLimit cache).1 = .ok results →
        AnswersAll sidecars session queries results := by
  unfold executeBatchWithCache
  split
  · rename_i hempty
    subst hempty
    refine ⟨h, ?_⟩
    intro results hresults
    obtain rfl := Except.ok.inj hresults
    exact ⟨rfl, by simp⟩
  · have hscoped := scoped_scopeToPublication cache session
    have hsound := h.scope session
    obtain ⟨hplaced, hmisses⟩ := lookUpBatch_spec hfree hsound hscoped queries hqueries 0
    dsimp only
    have hfits := runWaves_fits hqueries (chunks (max workerLimit 1)
        (lookUpBatch sidecars session (cache.scopeToPublication session.identity) 0 queries).2)
      _ _ ⟨hsound, hscoped, hplaced⟩ (by
        rw [chunks_flatten]
        intro miss hmiss
        obtain ⟨i, hi, hquery⟩ := hmisses miss hmiss
        rw [hi, Nat.zero_add]
        exact hquery) _ rfl
    split
    · rename_i error results cache' hrun
      rw [hrun] at hfits
      exact ⟨hfits.sound, fun _ hresults => absurd hresults (by simp)⟩
    · rename_i slots cache' hrun
      rw [hrun] at hfits
      refine ⟨hfits.sound, ?_⟩
      intro results hresults
      have hslots : slots = results.map some := collectResults_ok hresults
      have hplaced : Placed sidecars session queries slots := hfits.placed
      rw [hslots] at hplaced
      refine ⟨by simpa using hplaced.length, ?_⟩
      intro i query result hquery hresult
      apply hplaced.answers i query result hquery
      rw [List.getElem?_map, hresult]
      rfl

end Batch

section Merge
variable [DecidableEq F] {sidecars : Sidecars F} {asked : List String}

theorem mergeKeys_sound {baseline other : RetrievalCache F} (hother : Sound sidecars asked other)
    (order : List RetrievalCacheKey) (cache : RetrievalCache F) (h : Sound sidecars asked cache) :
    Sound sidecars asked (RetrievalCache.mergeKeys baseline other order cache) := by
  induction order generalizing cache with
  | nil => exact h
  | cons key order ih =>
    simp only [RetrievalCache.mergeKeys]
    split
    · exact ih cache h
    · rename_i hits hget
      split
      · exact ih cache h
      · exact ih _ (h.insert (hother _ (BoundedMap.mem_of_get hget)))

theorem mergeDeltaFrom_sound {cache baseline other : RetrievalCache F}
    (h : Sound sidecars asked cache) (hother : Sound sidecars asked other) :
    Sound sidecars asked (cache.mergeDeltaFrom baseline other) := by
  unfold RetrievalCache.mergeDeltaFrom
  split
  · exact h
  · dsimp only
    split
    · split
      · exact sound_clear cache
      · exact mergeKeys_sound hother _ _ (sound_clear cache)
    · split
      · exact h
      · exact mergeKeys_sound hother _ _ h

end Merge

/-- What a caller was told: the results for its queries, in order. -/
structure Answer (F : Type) where
  session : Session
  queries : List String
  results : List (QueryResult F)

structure Caches (F : Type) where
  caches : Nat → RetrievalCache F
  answers : List (Answer F)

inductive CacheAction where
  | clone (source target : Nat)
  | clear (cache : Nat)
  | scope (cache : Nat) (session : Session)
  | query (cache : Nat) (session : Session) (query : String)
  | batch (cache : Nat) (session : Session) (queries : List String) (workerLimit : Nat)
  | merge (target baseline other : Nat)

def CacheAction.asked : CacheAction → List String
  | .query _ _ text => [text]
  | .batch _ _ texts _ => texts
  | _ => []

namespace Caches

def put (s : Caches F) (i : Nat) (cache : RetrievalCache F) : Caches F :=
  { s with caches := Function.update s.caches i cache }

def answer (s : Caches F) (session : Session) (queries : List String)
    (results : List (QueryResult F)) : Caches F :=
  { s with answers := s.answers ++ [⟨session, queries, results⟩] }

/-- Every action is enabled; a query that fails answers nothing. -/
def step [DecidableEq F] (sidecars : Sidecars F) (s : Caches F) : CacheAction → Option (Caches F)
  | .clone source target => some (s.put target (s.caches source))
  | .clear i => some (s.put i (s.caches i).clear)
  | .scope i session => some (s.put i ((s.caches i).scopeToPublication session.identity))
  | .query i session text =>
    match executeWithCache sidecars session text (s.caches i) with
    | (.error _, cache) => some (s.put i cache)
    | (.ok result, cache) => some ((s.put i cache).answer session [text] [result])
  | .batch i session queries workerLimit =>
    match executeBatchWithCache sidecars session queries workerLimit (s.caches i) with
    | (.error _, cache) => some (s.put i cache)
    | (.ok results, cache) => some ((s.put i cache).answer session queries results)
  | .merge target baseline other =>
    some (s.put target
      ((s.caches target).mergeDeltaFrom (s.caches baseline) (s.caches other)))

def initial (capacities : Nat → Nat) : Caches F :=
  ⟨fun i => .withCapacity (capacities i), []⟩

structure Transparent (sidecars : Sidecars F) (asked : List String) (s : Caches F) : Prop where
  sound : ∀ i, Sound sidecars asked (s.caches i)
  answered : ∀ answer ∈ s.answers,
    AnswersAll sidecars answer.session answer.queries answer.results

section Run
variable {sidecars : Sidecars F} {asked : List String} {s t : Caches F}

theorem Transparent.put (h : s.Transparent sidecars asked) (i : Nat) {cache : RetrievalCache F}
    (hcache : Sound sidecars asked cache) : (s.put i cache).Transparent sidecars asked := by
  refine ⟨?_, h.answered⟩
  intro j
  by_cases hj : j = i
  · subst hj
    simpa [Caches.put] using hcache
  · simpa [Caches.put, Function.update_of_ne hj] using h.sound j

theorem Transparent.answer (h : s.Transparent sidecars asked) {session : Session}
    {queries : List String} {results : List (QueryResult F)}
    (hall : AnswersAll sidecars session queries results) :
    (s.answer session queries results).Transparent sidecars asked := by
  refine ⟨h.sound, ?_⟩
  intro answer hanswer
  rcases List.mem_append.mp hanswer with hanswer | hanswer
  · exact h.answered answer hanswer
  · obtain rfl := List.mem_singleton.mp hanswer
    exact hall

theorem answersAll_single {session : Session} {query : String} {result : QueryResult F}
    (h : Answers sidecars session query result) :
    AnswersAll sidecars session [query] [result] := by
  refine ⟨rfl, ?_⟩
  intro i query' result' hquery hresult
  cases i with
  | zero =>
    obtain rfl : query = query' := by simpa using hquery
    obtain rfl : result = result' := by simpa using hresult
    exact h
  | succ i => exact absurd hquery (by simp)

theorem step_transparent [DecidableEq F] (hfree : CollisionFree sidecars asked)
    (h : s.Transparent sidecars asked) {action : CacheAction}
    (hasked : ∀ query ∈ action.asked, query ∈ asked)
    (hstep : step sidecars s action = some t) : t.Transparent sidecars asked := by
  cases action with
  | clone source target =>
    obtain rfl := Option.some.inj hstep
    exact h.put target (h.sound source)
  | clear i =>
    obtain rfl := Option.some.inj hstep
    exact h.put i (sound_clear _)
  | scope i session =>
    obtain rfl := Option.some.inj hstep
    exact h.put i ((h.sound i).scope session)
  | query i session query =>
    obtain ⟨hsound, hanswers⟩ := execute_spec hfree ((h.sound i).scope session)
      (scoped_scopeToPublication (s.caches i) session) (hasked query List.mem_cons_self)
    simp only [step] at hstep
    split at hstep
    · rename_i error cache hrun
      obtain rfl := Option.some.inj hstep
      rw [show execute sidecars session query _ = _ from hrun] at hsound
      exact h.put i hsound
    · rename_i result cache hrun
      obtain rfl := Option.some.inj hstep
      rw [show execute sidecars session query _ = _ from hrun] at hsound hanswers
      exact (h.put i hsound).answer (answersAll_single (hanswers result rfl))
  | batch i session queries workerLimit =>
    have hqueries : ∀ query ∈ queries, query ∈ asked := hasked
    obtain ⟨hsound, hall⟩ :=
      executeBatchWithCache_spec session hfree (h.sound i) hqueries workerLimit
    simp only [step] at hstep
    split at hstep
    · rename_i error cache hrun
      obtain rfl := Option.some.inj hstep
      rw [hrun] at hsound
      exact h.put i hsound
    · rename_i results cache hrun
      obtain rfl := Option.some.inj hstep
      rw [hrun] at hsound hall
      exact (h.put i hsound).answer (hall results rfl)
  | merge target baseline other =>
    obtain rfl := Option.some.inj hstep
    exact h.put target (mergeDeltaFrom_sound (h.sound target) (h.sound other))

end Run

/-- After every sequence of actions: each result that was returned has, at the position of its
query, the hits of an execution with an empty cache at its publication; and each entry of each
cache came from an execution that was not cut short. -/
theorem cache_is_transparent [DecidableEq F] (sidecars : Sidecars F) (capacities : Nat → Nat)
    (actions : List CacheAction)
    (hfree : CollisionFree sidecars (actions.flatMap CacheAction.asked)) {s : Caches F}
    (hrun : run (step sidecars) (initial capacities) actions = some s) :
    (∀ answer ∈ s.answers, answer.results.length = answer.queries.length ∧
      ∀ (i : Nat) query result, answer.queries[i]? = some query → answer.results[i]? = some result →
        ∃ fresh, (executeWithCache sidecars answer.session query .new).1 = .ok fresh ∧
          result.query = fresh.query ∧ result.hits = fresh.hits) ∧
    ∀ i, ∀ entry ∈ (s.caches i).map.entries, ∃ session query fresh,
      (executeWithCache sidecars session query .new).1 = .ok fresh ∧ fresh.cancelReason = none ∧
        entry = (sessionKey sidecars session query, fresh.hits) := by
  have hinitial : (initial capacities : Caches F).Transparent sidecars
      (actions.flatMap CacheAction.asked) :=
    ⟨fun i => sound_withCapacity (capacities i), by simp [initial]⟩
  have h : s.Transparent sidecars (actions.flatMap CacheAction.asked) := by
    refine run_invariant ?_ hrun hinitial
    intro action haction s t h hstep
    exact step_transparent hfree h
      (fun query hquery => List.mem_flatMap.mpr ⟨action, haction, hquery⟩) hstep
  simp only [executeWithCache_new]
  refine ⟨h.answered, ?_⟩
  intro i entry hentry
  obtain ⟨session, query, fresh, -, hfresh, hcancel, hentry⟩ := h.sound i entry hentry
  exact ⟨session, query, fresh, hfresh, hcancel, hentry⟩

/-- A lexical search that finds one file for each core publication, with whole scores. -/
def oneFile : Sidecars Nat where
  scores := ⟨0, 1, 5, (· + ·), (· - ·), (· / ·), max, fun a b => a ≤ b, fun a b => a < b⟩
  chars := ⟨Char.isUpper, Char.isLower, Char.isAlphanum⟩
  queryFingerprint query :=
    if query = "alpha" then "8ed3f6ad685b959e"
    else if query = "beta" then "f44e64e75f3948e9" else ""
  lexicalSearch identity _ query _ :=
    .ok [⟨none, identity.coreGenerationId ++ query, none, none, 9, .lexical, [], none, none, none⟩]
  semanticSearch _ _ _ _ := .ok []
  scipAnchor _ _ _ _ := .ok []
  scipExpand _ _ _ _ := .ok []
  fileRoles _ _ _ := none
  classifyPath _ := .source
  rankCandidates _ hits := hits

def sessionAt (coreGenerationId : String) : Session where
  identity := ⟨coreGenerationId, "run", "p-0123456789abcdef", "0123456789abcdef",
    "codestory_p_0123456789abcdef"⟩
  manifest :=
    { projectId := "p"
      lexicalVersion := lexicalIndexVersion
      semanticGeneration := "codestory_p_0123456789abcdef"
      scipRevision := none
      sidecarSchemaVersion := some sidecarSchemaVersion
      sidecarInputHash := some "0123456789abcdef"
      sidecarGeneration := some "p-0123456789abcdef"
      projectionCount := some 0
      denseProjectionCount := some 0 }
  current := by decide
  identified := rfl

/-- A worker moves to another publication and its cache is merged; the next query is answered
from the cache. -/
theorem cache_is_transparent_moved :
    let actions : List CacheAction := [.query 0 (sessionAt "a") "alpha", .clone 0 1, .clone 0 2,
      .batch 2 (sessionAt "b") ["beta", "alpha", "beta"] 2, .merge 0 1 2,
      .query 0 (sessionAt "b") " alpha"]
    let s := after (step oneFile) (initial fun _ => 4) actions
    s.answers.map (fun answer => answer.results.map fun result =>
        (result.hits.map (·.filePath), result.cacheHit)) =
      [[(["aalpha"], false)], [(["bbeta"], false), (["balpha"], false), (["bbeta"], false)],
        [(["balpha"], true)]] ∧
    ∀ answer ∈ s.answers, answer.results.length = answer.queries.length ∧
      ∀ (i : Nat) query result, answer.queries[i]? = some query →
        answer.results[i]? = some result →
        ∃ fresh, (executeWithCache oneFile answer.session query .new).1 = .ok fresh ∧
          result.query = fresh.query ∧ result.hits = fresh.hits := by
  intro actions s
  refine ⟨by decide, ?_⟩
  have hrun : run (step oneFile) (initial fun _ => 4) actions = some s := rfl
  refine (cache_is_transparent oneFile (fun _ => 4) actions ?_ hrun).1
  unfold CollisionFree
  decide

end Caches

end CodeStory.Retrieval
