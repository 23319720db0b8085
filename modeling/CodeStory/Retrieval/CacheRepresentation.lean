import CodeStory.Retrieval.QueryCache

/-!
# What holds of every query cache

A pool of caches on which the operations of `RetrievalCache` run in any order: caches are made,
cloned, written and merged into one another. Next to each cache stands the capacity it was made
with and the log of what happened to its keys; neither is part of the program. A worker's cache
that has been merged stays in the pool, where the program drops it.
-/

set_option autoImplicit false

namespace CodeStory.Retrieval

open BoundedMap (Event Faithful)

variable {F : Type}

/-- The core publication in a key is the one the cache is scoped to. -/
def RetrievalCacheKey.CarriesPublication (key : RetrievalCacheKey)
    (publication : Option (String × String)) : Prop :=
  key.coreGenerationId = publication.map (·.1) ∧ key.coreRunId = publication.map (·.2)

namespace RetrievalCache

theorem keyForManifest_carriesPublication (cache : RetrievalCache F)
    (manifest : RetrievalIndexManifest) (queryFingerprint : String) :
    (cache.keyForManifest manifest queryFingerprint).CarriesPublication
      cache.publicationIdentity := by
  unfold keyForManifest
  cases cache.publicationIdentity with
  | none => exact ⟨rfl, rfl⟩
  | some publication => exact ⟨rfl, rfl⟩

def Scoped (cache : RetrievalCache F) : Prop :=
  ∀ key ∈ cache.map.order, key.CarriesPublication cache.publicationIdentity

theorem scoped_of_order_nil {cache : RetrievalCache F} (h : cache.map.order = []) :
    cache.Scoped := by
  intro key hkey
  rw [h] at hkey
  exact absurd hkey List.not_mem_nil

section Merge
variable [DecidableEq F]

/-- What the loop of `merge_delta_from` does to the log of the receiving cache. -/
def mergeKeysLog (baseline other : RetrievalCache F) :
    List RetrievalCacheKey → RetrievalCache F → List (Event RetrievalCacheKey) →
      List (Event RetrievalCacheKey)
  | [], _, log => log
  | key :: order, cache, log =>
    match other.get key with
    | none => mergeKeysLog baseline other order cache log
    | some hits =>
      if baseline.get key = some hits then mergeKeysLog baseline other order cache log
      else mergeKeysLog baseline other order (cache.insert key hits)
        (cache.map.insertLog key hits log)

def mergeDeltaFromLog (cache baseline other : RetrievalCache F)
    (log : List (Event RetrievalCacheKey)) : List (Event RetrievalCacheKey) :=
  if cache.publicationIdentity ≠ baseline.publicationIdentity ∧
      cache.publicationIdentity ≠ other.publicationIdentity then log
  else if cache.publicationIdentity = baseline.publicationIdentity ∧
      other.publicationIdentity ≠ baseline.publicationIdentity then
    mergeKeysLog baseline other other.map.order
      ⟨cache.map.clear, other.publicationIdentity⟩ (.cleared :: log)
  else if cache.publicationIdentity ≠ other.publicationIdentity then log
  else mergeKeysLog baseline other other.map.order cache log

variable {P : RetrievalCache F → List (Event RetrievalCacheKey) → Prop}
  {baseline other : RetrievalCache F}

/-- What every insertion of a key of the worker keeps, the loop keeps. -/
theorem mergeKeys_induct
    (hinsert : ∀ cache log key hits, P cache log → key ∈ other.map.order →
      cache.publicationIdentity = other.publicationIdentity →
      P (cache.insert key hits) (cache.map.insertLog key hits log))
    (keys : List RetrievalCacheKey) (hkeys : ∀ key ∈ keys, key ∈ other.map.order)
    (cache : RetrievalCache F) (log : List (Event RetrievalCacheKey)) (h : P cache log)
    (hscope : cache.publicationIdentity = other.publicationIdentity) :
    P (mergeKeys baseline other keys cache) (mergeKeysLog baseline other keys cache log) := by
  induction keys generalizing cache log with
  | nil => exact h
  | cons key keys ih =>
    have ih := ih fun key hkey => hkeys key (List.mem_cons_of_mem _ hkey)
    simp only [mergeKeys, mergeKeysLog]
    cases other.get key with
    | none => exact ih cache log h hscope
    | some hits =>
      by_cases hold : baseline.get key = some hits
      · simp only [if_pos hold]
        exact ih cache log h hscope
      · simp only [if_neg hold]
        refine ih _ _ ?_ hscope
        exact hinsert cache log key hits h (hkeys key List.mem_cons_self) hscope

/-- A merge leaves the cache alone, or runs the loop on it or on the cleared cache in the scope
of the worker. -/
theorem mergeDeltaFrom_induct
    (hinsert : ∀ cache log key hits, P cache log → key ∈ other.map.order →
      cache.publicationIdentity = other.publicationIdentity →
      P (cache.insert key hits) (cache.map.insertLog key hits log))
    (cache : RetrievalCache F) (log : List (Event RetrievalCacheKey)) (h : P cache log)
    (hcleared : P ⟨cache.map.clear, other.publicationIdentity⟩ (.cleared :: log)) :
    P (cache.mergeDeltaFrom baseline other) (cache.mergeDeltaFromLog baseline other log) := by
  have hkeys : ∀ key ∈ other.map.order, key ∈ other.map.order := fun _ hkey => hkey
  unfold mergeDeltaFrom mergeDeltaFromLog
  by_cases hforeign : cache.publicationIdentity ≠ baseline.publicationIdentity ∧
      cache.publicationIdentity ≠ other.publicationIdentity
  · rw [if_pos hforeign, if_pos hforeign]
    exact h
  · rw [if_neg hforeign, if_neg hforeign]
    dsimp only
    by_cases hmoved : cache.publicationIdentity = baseline.publicationIdentity ∧
        other.publicationIdentity ≠ baseline.publicationIdentity
    · rw [if_pos hmoved, if_pos hmoved]
      rw [if_neg (fun hne => hne rfl)]
      exact mergeKeys_induct hinsert _ hkeys _ _ hcleared rfl
    · rw [if_neg hmoved, if_neg hmoved]
      by_cases hscope : cache.publicationIdentity ≠ other.publicationIdentity
      · rw [if_pos hscope, if_pos hscope]
        exact h
      · rw [if_neg hscope, if_neg hscope]
        exact mergeKeys_induct hinsert _ hkeys _ _ h (not_not.mp hscope)

end Merge

def scopeToPublicationLog (cache : RetrievalCache F) (identity : RetrievalPublicationIdentity)
    (log : List (Event RetrievalCacheKey)) : List (Event RetrievalCacheKey) :=
  if cache.publicationIdentity ≠ some (identity.coreGenerationId, identity.coreRunId) then
    .cleared :: log
  else log

/-- The map agrees with the log and has room for as many entries as were asked for. -/
def Tracked (requested : Nat) (cache : RetrievalCache F) (log : List (Event RetrievalCacheKey)) :
    Prop :=
  Faithful cache.map log ∧ cache.map.capacity = max requested 1

section Tracked
variable {requested : Nat} {cache : RetrievalCache F} {log : List (Event RetrievalCacheKey)}

theorem tracked_withCapacity (capacity : Nat) :
    Tracked capacity (withCapacity capacity : RetrievalCache F) [] :=
  ⟨.withCapacity capacity, rfl⟩

theorem Tracked.insert (h : Tracked requested cache log) (key : RetrievalCacheKey)
    (hits : List (CandidateHit F)) :
    Tracked requested (cache.insert key hits) (cache.map.insertLog key hits log) :=
  ⟨h.1.insert key hits, h.2⟩

theorem Tracked.remove (h : Tracked requested cache log) (key : RetrievalCacheKey) :
    Tracked requested (cache.remove key) (.removed key :: log) :=
  ⟨h.1.remove key, h.2⟩

/-- Clearing keeps the bookkeeping, whatever scope the cache has afterwards. -/
theorem Tracked.clear (h : Tracked requested cache log) (publication : Option (String × String)) :
    Tracked requested ⟨cache.map.clear, publication⟩ (.cleared :: log) :=
  ⟨h.1.clear, h.2⟩

theorem Tracked.scopeToPublication (h : Tracked requested cache log)
    (identity : RetrievalPublicationIdentity) :
    Tracked requested (cache.scopeToPublication identity)
      (cache.scopeToPublicationLog identity log) := by
  unfold RetrievalCache.scopeToPublication scopeToPublicationLog
  dsimp only
  split
  · exact h.clear _
  · exact h

theorem Tracked.mergeDeltaFrom [DecidableEq F] (h : Tracked requested cache log)
    (baseline other : RetrievalCache F) :
    Tracked requested (cache.mergeDeltaFrom baseline other)
      (cache.mergeDeltaFromLog baseline other log) :=
  mergeDeltaFrom_induct (fun _ _ key hits h _ _ => h.insert key hits) cache log h (h.clear _)

end Tracked

section Scoped
variable {cache : RetrievalCache F}

theorem Scoped.insert (h : cache.Scoped) {key : RetrievalCacheKey}
    (hkey : key.CarriesPublication cache.publicationIdentity) (hits : List (CandidateHit F)) :
    (cache.insert key hits).Scoped := by
  intro other hother
  rcases BoundedMap.mem_order_insert hother with rfl | hother
  · exact hkey
  · exact h other hother

theorem Scoped.remove (h : cache.Scoped) (key : RetrievalCacheKey) : (cache.remove key).Scoped :=
  fun other hother => h other (List.mem_filter.mp hother).1

theorem Scoped.scopeToPublication (h : cache.Scoped) (identity : RetrievalPublicationIdentity) :
    (cache.scopeToPublication identity).Scoped := by
  unfold RetrievalCache.scopeToPublication
  dsimp only
  split
  · exact scoped_of_order_nil rfl
  · exact h

/-- The keys of a worker get in only under the scope of the worker. -/
theorem Scoped.mergeDeltaFrom [DecidableEq F] (h : cache.Scoped) (baseline : RetrievalCache F)
    {other : RetrievalCache F} (hother : other.Scoped) :
    (cache.mergeDeltaFrom baseline other).Scoped := by
  refine mergeDeltaFrom_induct (P := fun cache _ => cache.Scoped) ?_ cache [] h
    (scoped_of_order_nil rfl)
  intro cache log key hits hcache hkey hscope
  apply hcache.insert
  rw [hscope]
  exact hother key hkey

end Scoped

end RetrievalCache

/-- A cache, the capacity it was made with, and what happened to its keys. -/
structure PooledCache (F : Type) where
  cache : RetrievalCache F
  requested : Nat
  log : List (Event RetrievalCacheKey)

/-- The operations on the caches of a pool, which are known by their positions. -/
inductive CacheOp (F : Type) where
  | withCapacity (capacity : Nat)
  | insert (index : Nat) (key : RetrievalCacheKey) (hits : List (CandidateHit F))
  | remove (index : Nat) (key : RetrievalCacheKey)
  | clear (index : Nat)
  | scopeToPublication (index : Nat) (identity : RetrievalPublicationIdentity)
  | clone (index : Nat)
  | mergeDeltaFrom (index baseline other : Nat)

section Pool
variable [DecidableEq F]

def cacheStep (pool : List (PooledCache F)) : CacheOp F → Option (List (PooledCache F))
  | .withCapacity capacity => some (pool ++ [⟨.withCapacity capacity, capacity, []⟩])
  | .insert index key hits => pool[index]?.map fun pooled => pool.set index
    { pooled with
      cache := pooled.cache.insert key hits
      log := pooled.cache.map.insertLog key hits pooled.log }
  | .remove index key => pool[index]?.map fun pooled => pool.set index
    { pooled with cache := pooled.cache.remove key, log := .removed key :: pooled.log }
  | .clear index => pool[index]?.map fun pooled => pool.set index
    { pooled with cache := pooled.cache.clear, log := .cleared :: pooled.log }
  | .scopeToPublication index identity => pool[index]?.map fun pooled => pool.set index
    { pooled with
      cache := pooled.cache.scopeToPublication identity
      log := pooled.cache.scopeToPublicationLog identity pooled.log }
  | .clone index => pool[index]?.map fun pooled => pool ++ [pooled]
  | .mergeDeltaFrom index baseline other =>
    match pool[index]?, pool[baseline]?, pool[other]? with
    | some pooled, some baseline, some other => some (pool.set index
      { pooled with
        cache := pooled.cache.mergeDeltaFrom baseline.cache other.cache
        log := pooled.cache.mergeDeltaFromLog baseline.cache other.cache pooled.log })
    | _, _, _ => none

/-- An inserted key comes from `key_for_manifest` of the cache it goes into. -/
def BuiltInScope (pool : List (PooledCache F)) : CacheOp F → Prop
  | .insert index key _ => ∃ pooled manifest queryFingerprint, pool[index]? = some pooled ∧
      key = pooled.cache.keyForManifest manifest queryFingerprint
  | _ => True

/-- Every key a run inserts is built in the scope its cache has at that moment. -/
def RunInScope : List (PooledCache F) → List (CacheOp F) → Prop
  | _, [] => True
  | pool, op :: ops => BuiltInScope pool op ∧ ∀ next, cacheStep pool op = some next →
      RunInScope next ops

/-- The representation of one cache. -/
structure PooledCache.Represented (pooled : PooledCache F) : Prop where
  order_lists_once : pooled.cache.map.order.Nodup
  order_lists_entries : ∀ key,
    key ∈ pooled.cache.map.order ↔ ∃ hits, pooled.cache.get key = some hits
  entries_unique : (pooled.cache.map.entries.map (·.1)).Nodup
  size_le : pooled.cache.map.entries.length ≤ max pooled.requested 1
  entries_live : ∀ key,
    (∃ hits, pooled.cache.get key = some hits) ↔ BoundedMap.Live pooled.log key
  evicts_oldest : BoundedMap.EvictsOldest pooled.log

/-- One step makes a new cache, copies one, or changes one in place. -/
theorem cacheStep_cases {pool next : List (PooledCache F)} {op : CacheOp F}
    (h : cacheStep pool op = some next) :
    (∃ capacity, op = .withCapacity capacity ∧
        next = pool ++ [⟨.withCapacity capacity, capacity, []⟩]) ∨
      (∃ pooled ∈ pool, next = pool ++ [pooled]) ∨
      ∃ index pooled changed, pool[index]? = some pooled ∧ next = pool.set index changed ∧
        changed.requested = pooled.requested ∧
        ((∃ key hits, op = .insert index key hits ∧ changed.cache = pooled.cache.insert key hits ∧
            changed.log = pooled.cache.map.insertLog key hits pooled.log) ∨
          (∃ key, changed.cache = pooled.cache.remove key ∧
            changed.log = .removed key :: pooled.log) ∨
          (changed.cache = pooled.cache.clear ∧ changed.log = .cleared :: pooled.log) ∨
          (∃ identity, changed.cache = pooled.cache.scopeToPublication identity ∧
            changed.log = pooled.cache.scopeToPublicationLog identity pooled.log) ∨
          ∃ baseline, ∃ other ∈ pool,
            changed.cache = pooled.cache.mergeDeltaFrom baseline other.cache ∧
            changed.log = pooled.cache.mergeDeltaFromLog baseline other.cache pooled.log) := by
  cases op with
  | withCapacity capacity => exact .inl ⟨capacity, rfl, (Option.some.inj h).symm⟩
  | insert index key hits =>
    obtain ⟨pooled, hpooled, rfl⟩ := Option.map_eq_some_iff.mp h
    exact .inr (.inr ⟨index, pooled, _, hpooled, rfl, rfl, .inl ⟨key, hits, rfl, rfl, rfl⟩⟩)
  | remove index key =>
    obtain ⟨pooled, hpooled, rfl⟩ := Option.map_eq_some_iff.mp h
    exact .inr (.inr ⟨index, pooled, _, hpooled, rfl, rfl, .inr (.inl ⟨key, rfl, rfl⟩)⟩)
  | clear index =>
    obtain ⟨pooled, hpooled, rfl⟩ := Option.map_eq_some_iff.mp h
    exact .inr (.inr ⟨index, pooled, _, hpooled, rfl, rfl, .inr (.inr (.inl ⟨rfl, rfl⟩))⟩)
  | scopeToPublication index identity =>
    obtain ⟨pooled, hpooled, rfl⟩ := Option.map_eq_some_iff.mp h
    exact .inr (.inr ⟨index, pooled, _, hpooled, rfl, rfl,
      .inr (.inr (.inr (.inl ⟨identity, rfl, rfl⟩)))⟩)
  | clone index =>
    obtain ⟨pooled, hpooled, rfl⟩ := Option.map_eq_some_iff.mp h
    exact .inr (.inl ⟨pooled, List.mem_of_getElem? hpooled, rfl⟩)
  | mergeDeltaFrom index baseline other =>
    simp only [cacheStep] at h
    split at h
    · rename_i pooled base worker hpooled _ hworker
      obtain rfl := Option.some.inj h
      exact .inr (.inr ⟨index, pooled, _, hpooled, rfl, rfl,
        .inr (.inr (.inr (.inr ⟨base.cache, worker, List.mem_of_getElem? hworker, rfl, rfl⟩)))⟩)
    · exact absurd h (by simp)

omit [DecidableEq F] in
theorem forall_mem_append_singleton {P : PooledCache F → Prop} {pool : List (PooledCache F)}
    {pooled : PooledCache F} (hpool : ∀ other ∈ pool, P other) (h : P pooled) :
    ∀ other ∈ pool ++ [pooled], P other := by
  intro other hother
  rcases List.mem_append.mp hother with hother | hother
  · exact hpool other hother
  · obtain rfl := List.mem_singleton.mp hother
    exact h

omit [DecidableEq F] in
theorem forall_mem_set {P : PooledCache F → Prop} {pool : List (PooledCache F)} {index : Nat}
    {pooled : PooledCache F} (hpool : ∀ other ∈ pool, P other) (h : P pooled) :
    ∀ other ∈ pool.set index pooled, P other := by
  intro other hother
  rcases List.mem_or_eq_of_mem_set hother with hother | rfl
  · exact hpool other hother
  · exact h

def PoolTracked (pool : List (PooledCache F)) : Prop :=
  ∀ pooled ∈ pool, RetrievalCache.Tracked pooled.requested pooled.cache pooled.log

def PoolScoped (pool : List (PooledCache F)) : Prop := ∀ pooled ∈ pool, pooled.cache.Scoped

theorem PoolTracked.step {pool next : List (PooledCache F)} {op : CacheOp F}
    (hpool : PoolTracked pool) (h : cacheStep pool op = some next) : PoolTracked next := by
  rcases cacheStep_cases h with ⟨capacity, -, rfl⟩ | ⟨pooled, hmem, rfl⟩ |
    ⟨index, pooled, changed, hpooled, rfl, hrequested, hchanged⟩
  · exact forall_mem_append_singleton hpool (RetrievalCache.tracked_withCapacity capacity)
  · exact forall_mem_append_singleton hpool (hpool pooled hmem)
  · have htracked := hpool pooled (List.mem_of_getElem? hpooled)
    refine forall_mem_set hpool ?_
    rw [hrequested]
    rcases hchanged with ⟨key, hits, -, hcache, hlog⟩ | ⟨key, hcache, hlog⟩ | ⟨hcache, hlog⟩ |
      ⟨identity, hcache, hlog⟩ | ⟨baseline, other, -, hcache, hlog⟩
    · rw [hcache, hlog]
      exact htracked.insert key hits
    · rw [hcache, hlog]
      exact htracked.remove key
    · rw [hcache, hlog]
      exact htracked.clear none
    · rw [hcache, hlog]
      exact htracked.scopeToPublication identity
    · rw [hcache, hlog]
      exact htracked.mergeDeltaFrom baseline other.cache

theorem PoolScoped.step {pool next : List (PooledCache F)} {op : CacheOp F}
    (hpool : PoolScoped pool) (hop : BuiltInScope pool op) (h : cacheStep pool op = some next) :
    PoolScoped next := by
  rcases cacheStep_cases h with ⟨capacity, -, rfl⟩ | ⟨pooled, hmem, rfl⟩ |
    ⟨index, pooled, changed, hpooled, rfl, -, hchanged⟩
  · exact forall_mem_append_singleton hpool (RetrievalCache.scoped_of_order_nil rfl)
  · exact forall_mem_append_singleton hpool (hpool pooled hmem)
  · have hscoped := hpool pooled (List.mem_of_getElem? hpooled)
    refine forall_mem_set hpool ?_
    rcases hchanged with ⟨key, hits, rfl, hcache, -⟩ | ⟨key, hcache, -⟩ | ⟨hcache, -⟩ |
      ⟨identity, hcache, -⟩ | ⟨baseline, other, hother, hcache, -⟩
    · rw [hcache]
      obtain ⟨target, manifest, queryFingerprint, htarget, rfl⟩ := hop
      obtain rfl : pooled = target := Option.some.inj (hpooled.symm.trans htarget)
      exact hscoped.insert (pooled.cache.keyForManifest_carriesPublication _ _) hits
    · rw [hcache]
      exact hscoped.remove key
    · rw [hcache]
      exact RetrievalCache.scoped_of_order_nil rfl
    · rw [hcache]
      exact hscoped.scopeToPublication identity
    · rw [hcache]
      exact hscoped.mergeDeltaFrom baseline (hpool other hother)

theorem PoolScoped.run {ops : List (CacheOp F)} {pool last : List (PooledCache F)}
    (hpool : PoolScoped pool) (hops : RunInScope pool ops)
    (h : Transition.run cacheStep pool ops = some last) : PoolScoped last := by
  induction ops generalizing pool with
  | nil =>
    obtain rfl : pool = last := Option.some.inj h
    exact hpool
  | cons op ops ih =>
    obtain ⟨next, hnext, h⟩ := Transition.exists_of_run_cons h
    exact ih (hpool.step hops.1 hnext) (hops.2 next hnext) h

omit [DecidableEq F] in
theorem PooledCache.represented_of_tracked {pooled : PooledCache F}
    (h : RetrievalCache.Tracked pooled.requested pooled.cache pooled.log) :
    pooled.Represented := by
  obtain ⟨hfaithful, hcapacity⟩ := h
  have horder : ∀ key,
      key ∈ pooled.cache.map.order ↔ ∃ hits, pooled.cache.get key = some hits := by
    intro key
    rw [hfaithful.consistent.mem_order_iff]
    exact BoundedMap.exists_get_iff.symm
  refine ⟨hfaithful.consistent.order_nodup, horder, hfaithful.consistent.keys_nodup,
    hcapacity ▸ hfaithful.fits, ?_, hfaithful.recorded.evicts_oldest⟩
  intro key
  rw [← horder, hfaithful.recorded.mem_iff_live]

/-- Whatever operations run on a pool of caches, in each cache the queue lists the keys of the
entries once each, the entries fit, and every eviction took the least recently inserted key; and
if the keys were built in scope, they carry the publication the cache is scoped to. -/
theorem cache_is_represented {ops : List (CacheOp F)} {pool : List (PooledCache F)}
    (h : Transition.run cacheStep [] ops = some pool) :
    ∀ pooled ∈ pool, pooled.Represented ∧ (RunInScope [] ops →
      ∀ key ∈ pooled.cache.map.order,
        key.CarriesPublication pooled.cache.publicationIdentity) := by
  have hnone : ∀ pooled ∈ ([] : List (PooledCache F)), False := by simp
  have htracked : PoolTracked pool :=
    Transition.run_invariant (fun _ _ _ _ hpool hstep => PoolTracked.step hpool hstep) h
      fun pooled hmem => (hnone pooled hmem).elim
  intro pooled hmem
  refine ⟨PooledCache.represented_of_tracked (htracked pooled hmem), ?_⟩
  intro hops
  exact PoolScoped.run (fun other hother => (hnone other hother).elim) hops h pooled hmem

end Pool

section Sample

def sampleManifest : RetrievalIndexManifest where
  projectId := "p"
  lexicalVersion := "v1"
  semanticGeneration := "g"
  scipRevision := none
  sidecarSchemaVersion := some 1
  sidecarInputHash := some "h"
  sidecarGeneration := some "p-h"
  projectionCount := some 1
  denseProjectionCount := none

def sampleIdentity : RetrievalPublicationIdentity := ⟨"core", "run", "p-h", "h", "g"⟩

def sampleKey (queryFingerprint : String) : RetrievalCacheKey :=
  { RetrievalCacheKey.fromManifest sampleManifest queryFingerprint with
    coreGenerationId := some "core", coreRunId := some "run" }

/-- A worker takes a clone of an unscoped cache into a publication, fills it beyond its capacity
and is merged back. -/
def sampleOps : List (CacheOp Nat) :=
  [.withCapacity 0, .insert 0 (.fromManifest sampleManifest "a") [], .clone 0, .clone 0,
    .scopeToPublication 2 sampleIdentity, .insert 2 (sampleKey "b") [],
    .insert 2 (sampleKey "c") [], .mergeDeltaFrom 0 1 2]

theorem RunInScope.cons {pool next : List (PooledCache Nat)} {op : CacheOp Nat}
    {ops : List (CacheOp Nat)} (hop : BuiltInScope pool op)
    (hnext : cacheStep pool op = some next) (hops : RunInScope next ops) :
    RunInScope pool (op :: ops) := by
  refine ⟨hop, ?_⟩
  intro other hother
  obtain rfl : next = other := Option.some.inj (hnext.symm.trans hother)
  exact hops

theorem sampleOps_inScope : RunInScope [] sampleOps := by
  refine .cons trivial rfl (.cons ⟨_, sampleManifest, "a", rfl, rfl⟩ rfl ?_)
  refine .cons trivial rfl (.cons trivial rfl (.cons trivial rfl ?_))
  refine .cons ⟨_, sampleManifest, "b", rfl, rfl⟩ rfl ?_
  refine .cons ⟨_, sampleManifest, "c", rfl, rfl⟩ rfl (.cons trivial rfl trivial)

theorem cache_is_represented_after_merge :
    ∃ pool : List (PooledCache Nat), Transition.run cacheStep [] sampleOps = some pool ∧
      pool.map (·.cache.map.order) = [[sampleKey "c"], [.fromManifest sampleManifest "a"],
        [sampleKey "c"]] ∧
      ∀ pooled ∈ pool, pooled.Represented ∧ ∀ key ∈ pooled.cache.map.order,
        key.CarriesPublication pooled.cache.publicationIdentity := by
  obtain ⟨pool, hpool⟩ : ∃ pool, Transition.run cacheStep [] sampleOps = some pool := ⟨_, rfl⟩
  refine ⟨pool, hpool, ?_, ?_⟩
  · have horders : (Transition.run cacheStep [] sampleOps).map (·.map (·.cache.map.order)) =
        some [[sampleKey "c"], [.fromManifest sampleManifest "a"], [sampleKey "c"]] := by
      decide
    rw [hpool] at horders
    exact Option.some.inj horders
  · intro pooled hmem
    obtain ⟨hrepresented, hscope⟩ := cache_is_represented hpool pooled hmem
    exact ⟨hrepresented, hscope sampleOps_inScope⟩

end Sample

end CodeStory.Retrieval
