import Mathlib.Algebra.Ring.Nat
import CodeStory.Lib.FirstAppearance
import CodeStory.Retrieval.QueryCache

/-!
# The accumulated candidates

`merge_candidates` with the count it returns, over the hits of any number of stages. A score is of
any type on which `f32::max` picks the greater of two in some preorder; with a NaN below every
number it does.
-/

set_option autoImplicit false

namespace CodeStory.Retrieval

variable {F : Type} {sidecars : Sidecars F}

/-! ## One hit -/

def CandidateHit.key (hit : CandidateHit F) : String × Option String :=
  (hit.filePath, hit.symbolName)

theorem key_eq_iff {a b : CandidateHit F} :
    a.key = b.key ↔ a.filePath = b.filePath ∧ a.symbolName = b.symbolName := by
  unfold CandidateHit.key
  rw [Prod.mk.injEq]

theorem mergeCandidate_eq (hit : CandidateHit F) (candidates : List (CandidateHit F)) :
    mergeCandidate sidecars hit candidates =
      FirstAppearance.mergeOne CandidateHit.key (absorb sidecars) hit candidates := by
  induction candidates with
  | nil => rfl
  | cons existing rest ih =>
    unfold mergeCandidate FirstAppearance.mergeOne
    by_cases h : existing.key = hit.key
    · rw [if_pos (key_eq_iff.mp h), if_pos h]
    · rw [if_neg fun hboth => h (key_eq_iff.mpr hboth), if_neg h, ih]

/-- Adding labels changes nothing but the provenance. -/
theorem foldl_addProvenance (labels : List String) (hit : CandidateHit F) :
    labels.foldl CandidateHit.addProvenance hit =
      { hit with provenance := (labels.foldl CandidateHit.addProvenance hit).provenance } := by
  induction labels generalizing hit with
  | nil => rfl
  | cons label labels ih =>
    rw [List.foldl_cons, ih (hit.addProvenance label)]
    unfold CandidateHit.addProvenance
    split <;> rfl

theorem mem_addProvenance {hit : CandidateHit F} {label l : String} :
    l ∈ (hit.addProvenance label).provenance ↔ l ∈ hit.provenance ∨ l = label := by
  unfold CandidateHit.addProvenance
  split
  · rename_i h
    constructor
    · exact .inl
    · rintro (hl | rfl)
      · exact hl
      · exact h
  · rw [List.mem_append, List.mem_singleton]

theorem nodup_addProvenance_iff {hit : CandidateHit F} {label : String} :
    (hit.addProvenance label).provenance.Nodup ↔ hit.provenance.Nodup := by
  unfold CandidateHit.addProvenance
  split
  · exact Iff.rfl
  · rename_i hnew
    change (hit.provenance ++ [label]).Nodup ↔ _
    constructor
    · exact List.Nodup.of_append_left
    · intro h
      rw [← List.concat_eq_append]
      exact h.concat hnew

theorem mem_foldl_addProvenance {labels : List String} {hit : CandidateHit F} {l : String} :
    l ∈ (labels.foldl CandidateHit.addProvenance hit).provenance ↔
      l ∈ hit.provenance ∨ l ∈ labels := by
  induction labels generalizing hit with
  | nil => exact ⟨.inl, fun h => h.resolve_right List.not_mem_nil⟩
  | cons label labels ih => rw [List.foldl_cons, ih, mem_addProvenance, List.mem_cons, or_assoc]

theorem nodup_foldl_addProvenance_iff {labels : List String} {hit : CandidateHit F} :
    (labels.foldl CandidateHit.addProvenance hit).provenance.Nodup ↔ hit.provenance.Nodup := by
  induction labels generalizing hit with
  | nil => exact Iff.rfl
  | cons label labels ih => exact ih.trans nodup_addProvenance_iff

theorem absorb_key (existing hit : CandidateHit F) :
    (absorb sidecars existing hit).key = existing.key := by
  unfold absorb CandidateHit.key
  rw [foldl_addProvenance]

theorem absorb_score (existing hit : CandidateHit F) :
    (absorb sidecars existing hit).score = sidecars.scores.max existing.score hit.score := by
  unfold absorb
  rw [foldl_addProvenance]

theorem mem_absorb_provenance {existing hit : CandidateHit F} {l : String} :
    l ∈ (absorb sidecars existing hit).provenance ↔ l ∈ existing.provenance ∨ l ∈ hit.provenance :=
  mem_foldl_addProvenance

/-! ## All hits with one key -/

/-- What `f32::max` guarantees. -/
structure PicksGreater (max : F → F → F) (le : F → F → Prop) : Prop where
  refl : ∀ a, le a a
  trans : ∀ a b c, le a b → le b c → le a c
  left : ∀ a b, le a (max a b)
  right : ∀ a b, le b (max a b)
  either : ∀ a b, max a b = a ∨ max a b = b

/-- What a candidate that stands for these hits has of each of them. -/
structure StandsFor (le : F → F → Prop) (candidate : CandidateHit F)
    (hits : List (CandidateHit F)) :
    Prop where
  attained : ∃ hit ∈ hits, hit.score = candidate.score
  greatest : ∀ hit ∈ hits, le hit.score candidate.score
  provenance : ∀ label, label ∈ candidate.provenance ↔ ∃ hit ∈ hits, label ∈ hit.provenance
  nodup : candidate.provenance.Nodup ↔ ∀ first ∈ hits.head?, first.provenance.Nodup
  nodeId : candidate.nodeId = hits.findSome? (·.nodeId)
  startLine : candidate.startLine = hits.findSome? (·.startLine)
  fileRole : candidate.fileRole = hits.findSome? (·.fileRole)
  scipHopDistance : candidate.scipHopDistance = hits.findSome? (·.scipHopDistance)

theorem StandsFor.single {le : F → F → Prop} (hrefl : ∀ a, le a a) (hit : CandidateHit F) :
    StandsFor le hit [hit] := by
  have hfirst : ∀ {β : Type} (field : CandidateHit F → Option β),
      field hit = [hit].findSome? field := fun field => by
    rw [List.findSome?_cons]
    cases field hit with
    | none => rfl
    | some b => rfl
  refine ⟨⟨hit, List.mem_cons_self, rfl⟩, ?_, ?_, ?_, hfirst _, hfirst _, hfirst _, hfirst _⟩
  · intro other hother
    obtain rfl := List.mem_singleton.mp hother
    exact hrefl _
  · intro label
    constructor
    · exact fun hl => ⟨hit, List.mem_cons_self, hl⟩
    · rintro ⟨other, hother, hl⟩
      obtain rfl := List.mem_singleton.mp hother
      exact hl
  · rw [List.head?_cons]
    exact ⟨fun h first hfirst => Option.some.inj hfirst ▸ h, fun h => h hit rfl⟩

theorem StandsFor.absorb {le : F → F → Prop} (hmax : PicksGreater sidecars.scores.max le)
    {candidate hit : CandidateHit F} {hits : List (CandidateHit F)}
    (h : StandsFor le candidate hits) :
    StandsFor le (CodeStory.Retrieval.absorb sidecars candidate hit) (hits ++ [hit]) := by
  have hfield : ∀ {β : Type} (field : CandidateHit F → Option β),
      field candidate = hits.findSome? field →
        (field candidate).or (field hit) = (hits ++ [hit]).findSome? field := fun field heq => by
    rw [List.findSome?_append, heq, List.findSome?_cons]
    cases field hit with
    | none => rfl
    | some b => rfl
  constructor
  · rw [absorb_score]
    rcases hmax.either candidate.score hit.score with heq | heq
    · obtain ⟨other, hother, hscore⟩ := h.attained
      exact ⟨other, List.mem_append_left _ hother, hscore.trans heq.symm⟩
    · exact ⟨hit, List.mem_append_right _ List.mem_cons_self, heq.symm⟩
  · intro other hother
    rw [absorb_score]
    rcases List.mem_append.mp hother with hother | hother
    · exact hmax.trans _ _ _ (h.greatest other hother) (hmax.left _ _)
    · obtain rfl := List.mem_singleton.mp hother
      exact hmax.right _ _
  · intro label
    rw [mem_absorb_provenance, h.provenance]
    constructor
    · rintro (⟨other, hother, hl⟩ | hl)
      · exact ⟨other, List.mem_append_left _ hother, hl⟩
      · exact ⟨hit, List.mem_append_right _ List.mem_cons_self, hl⟩
    · rintro ⟨other, hother, hl⟩
      rcases List.mem_append.mp hother with hother | hother
      · exact .inl ⟨other, hother, hl⟩
      · obtain rfl := List.mem_singleton.mp hother
        exact .inr hl
  · have hne : hits ≠ [] := by
      obtain ⟨other, hother, -⟩ := h.attained
      exact List.ne_nil_of_mem hother
    rw [List.head?_append_of_ne_nil _ hne, ← h.nodup]
    exact nodup_foldl_addProvenance_iff
  · unfold CodeStory.Retrieval.absorb
    rw [foldl_addProvenance]
    exact hfield (·.nodeId) h.nodeId
  · unfold CodeStory.Retrieval.absorb
    rw [foldl_addProvenance]
    exact hfield (·.startLine) h.startLine
  · unfold CodeStory.Retrieval.absorb
    rw [foldl_addProvenance]
    exact hfield (·.fileRole) h.fileRole
  · unfold CodeStory.Retrieval.absorb
    rw [foldl_addProvenance]
    exact hfield (·.scipHopDistance) h.scipHopDistance

theorem StandsFor.foldl {le : F → F → Prop} (hmax : PicksGreater sidecars.scores.max le)
    {candidate : CandidateHit F} {hits : List (CandidateHit F)} (h : StandsFor le candidate hits)
    (later : List (CandidateHit F)) :
    StandsFor le (later.foldl (CodeStory.Retrieval.absorb sidecars) candidate) (hits ++ later) := by
  induction later generalizing candidate hits with
  | nil =>
    rw [List.append_nil]
    exact h
  | cons hit later ih =>
    have hstep : StandsFor le (CodeStory.Retrieval.absorb sidecars candidate hit) (hits ++ [hit]) :=
      h.absorb hmax
    have hrest := ih hstep
    rw [List.append_assoc] at hrest
    exact hrest

/-! ## Any number of stages -/

variable (sidecars)

/-- One turn of `merge_candidates` with its counter. -/
def mergeCounting (state : List (CandidateHit F) × Nat) (hit : CandidateHit F) :
    List (CandidateHit F) × Nat :=
  (mergeCandidate sidecars hit state.1,
    if ∃ existing ∈ state.1, existing.key = hit.key then state.2 else state.2 + 1)

/-- `merge_candidates` with the number it returns: the hits that were no duplicates. -/
def mergeCandidatesCounted (candidates incoming : List (CandidateHit F)) :
    List (CandidateHit F) × Nat :=
  incoming.foldl (mergeCounting sidecars) (candidates, 0)

/-- The candidates after all stages and the counts of each. -/
def mergeStages (stages : List (List (CandidateHit F))) : List (CandidateHit F) × List Nat :=
  stages.foldl
    (fun (candidates, counts) hits =>
      let merged := mergeCandidatesCounted sidecars candidates hits
      (merged.1, counts ++ [merged.2]))
    ([], [])

theorem mergeCandidates_eq (candidates incoming : List (CandidateHit F)) :
    mergeCandidates sidecars candidates incoming =
      FirstAppearance.mergeAll CandidateHit.key (absorb sidecars) candidates incoming := by
  unfold mergeCandidates FirstAppearance.mergeAll
  congr
  funext acc hit
  exact mergeCandidate_eq hit acc

theorem counted_foldl (incoming : List (CandidateHit F))
    (state : List (CandidateHit F) × Nat) :
    (incoming.foldl (mergeCounting sidecars) state).1 =
        mergeCandidates sidecars state.1 incoming ∧
      state.1.length + (incoming.foldl (mergeCounting sidecars) state).2 =
        (incoming.foldl (mergeCounting sidecars) state).1.length + state.2 := by
  induction incoming generalizing state with
  | nil => exact ⟨rfl, rfl⟩
  | cons hit incoming ih =>
    rw [List.foldl_cons]
    obtain ⟨hlist, hcount⟩ := ih (mergeCounting sidecars state hit)
    refine ⟨hlist, ?_⟩
    have hlength := FirstAppearance.length_mergeOne CandidateHit.key (absorb sidecars) hit state.1
    rw [← mergeCandidate_eq] at hlength
    have hfirst : (mergeCounting sidecars state hit).1 = mergeCandidate sidecars hit state.1 := rfl
    have hsecond : (mergeCounting sidecars state hit).2 =
        if ∃ existing ∈ state.1, existing.key = hit.key then state.2 else state.2 + 1 := rfl
    rw [hfirst, hlength, hsecond] at hcount
    by_cases hknown : ∃ existing ∈ state.1, existing.key = hit.key
    · rw [if_pos hknown, if_pos hknown] at hcount
      omega
    · rw [if_neg hknown, if_neg hknown] at hcount
      omega

theorem mergeCandidatesCounted_spec (candidates incoming : List (CandidateHit F)) :
    (mergeCandidatesCounted sidecars candidates incoming).1 =
        mergeCandidates sidecars candidates incoming ∧
      candidates.length + (mergeCandidatesCounted sidecars candidates incoming).2 =
        (mergeCandidatesCounted sidecars candidates incoming).1.length :=
  counted_foldl sidecars incoming (candidates, 0)

theorem mergeStages_concat (stages : List (List (CandidateHit F))) (hits : List (CandidateHit F)) :
    mergeStages sidecars (stages ++ [hits]) =
      ((mergeCandidatesCounted sidecars (mergeStages sidecars stages).1 hits).1,
        (mergeStages sidecars stages).2 ++
          [(mergeCandidatesCounted sidecars (mergeStages sidecars stages).1 hits).2]) := by
  unfold mergeStages
  rw [List.foldl_append]
  rfl

/-- The batches do not matter, and the counts add up. -/
theorem mergeStages_spec (stages : List (List (CandidateHit F))) :
    (mergeStages sidecars stages).1 = mergeCandidates sidecars [] stages.flatten ∧
      (mergeStages sidecars stages).2.sum = (mergeStages sidecars stages).1.length := by
  induction stages using List.reverseRecOn with
  | nil => exact ⟨rfl, rfl⟩
  | append_singleton stages hits ih =>
    obtain ⟨hlist, hcount⟩ := mergeCandidatesCounted_spec sidecars
      (mergeStages sidecars stages).1 hits
    rw [mergeStages_concat]
    constructor
    · dsimp only
      rw [hlist, ih.1, mergeCandidates_eq, mergeCandidates_eq, mergeCandidates_eq,
        List.flatten_append, List.flatten_singleton, FirstAppearance.mergeAll_append]
    · dsimp only
      rw [List.sum_append, List.sum_singleton, ih.2]
      exact hcount

variable {sidecars}

theorem gathered_standsFor {le : F → F → Prop} (hmax : PicksGreater sidecars.scores.max le)
    {hits : List (CandidateHit F)} {key : String × Option String} {candidate : CandidateHit F}
    (h : FirstAppearance.gathered CandidateHit.key (absorb sidecars) hits key = some candidate) :
    StandsFor le candidate (hits.filter fun hit => hit.key = key) := by
  unfold FirstAppearance.gathered at h
  split at h
  · cases h
  · rename_i first later heq
    obtain rfl := Option.some.inj h
    rw [heq]
    exact (StandsFor.single hmax.refl first).foldl hmax later

/-- After any stages the candidates have different keys, in the order in which these first
appeared; each stands for all the hits with its key; the counts add up to the number of candidates;
and the same hits in other batches give the same candidates. The labels of a candidate are
different when those of its first hit are. -/
theorem stages_accumulate {le : F → F → Prop} (hmax : PicksGreater sidecars.scores.max le)
    (stages : List (List (CandidateHit F))) :
    let accumulated := (mergeStages sidecars stages).1
    (accumulated.map CandidateHit.key).Nodup ∧
      accumulated.map CandidateHit.key =
        FirstAppearance.firsts (stages.flatten.map CandidateHit.key) ∧
      (∀ key, (∃ candidate ∈ accumulated, candidate.key = key) ↔
        ∃ hit ∈ stages.flatten, hit.key = key) ∧
      (∀ candidate ∈ accumulated,
        StandsFor le candidate (stages.flatten.filter fun hit => hit.key = candidate.key)) ∧
      (mergeStages sidecars stages).2.sum = accumulated.length ∧
      ∀ batches : List (List (CandidateHit F)), batches.flatten = stages.flatten →
        (mergeStages sidecars batches).1 = accumulated := by
  dsimp only
  obtain ⟨hlist, hcounts⟩ := mergeStages_spec sidecars stages
  have hmerged := FirstAppearance.mergeAll_merged CandidateHit.key (absorb sidecars)
    (fun e a _ => absorb_key e a) stages.flatten
  rw [← mergeCandidates_eq, ← hlist] at hmerged
  refine ⟨?_, hmerged.keys, ?_, ?_, hcounts, ?_⟩
  · rw [hmerged.keys]
    exact FirstAppearance.nodup_firsts _
  · intro key
    rw [← List.mem_map, hmerged.keys, FirstAppearance.mem_firsts, List.mem_map]
  · intro candidate hmem
    exact gathered_standsFor hmax (hmerged.entries candidate hmem)
  · intro batches hflatten
    rw [hlist, (mergeStages_spec sidecars batches).1, hflatten]

/-- Scores that are whole numbers, and no search. -/
def wholeScores : Sidecars Nat where
  scores :=
    { zero := 0, massFloor := 0, marginalGainThreshold := 0, add := (· + ·), sub := (· - ·),
      div := (· / ·), max := max, le := fun a b => decide (a ≤ b), lt := fun a b => decide (a < b) }
  chars := ⟨Char.isUpper, Char.isLower, Char.isAlphanum⟩
  queryFingerprint := id
  lexicalSearch _ _ _ _ := .ok []
  semanticSearch _ _ _ _ := .ok []
  scipAnchor _ _ _ _ := .ok []
  scipExpand _ _ _ _ := .ok []
  fileRoles _ _ _ := none
  classifyPath _ := .source
  rankCandidates _ hits := hits

def hitFrom (label : String) (score : Nat) : CandidateHit Nat where
  nodeId := none
  filePath := "src/lib.rs"
  symbolName := some "run"
  startLine := none
  score := score
  source := .lexical
  provenance := [label]
  fileRole := none
  scipHopDistance := none
  rankFeatures := none

theorem two_lanes_accumulate :
    (mergeStages wholeScores [[hitFrom "lexical_source" 2], [hitFrom "exact" 5]]).2.sum =
      (mergeStages wholeScores [[hitFrom "lexical_source" 2], [hitFrom "exact" 5]]).1.length ∧
    ∀ candidate ∈
        (mergeStages wholeScores [[hitFrom "lexical_source" 2], [hitFrom "exact" 5]]).1,
      StandsFor (· ≤ ·) candidate
        ([[hitFrom "lexical_source" 2], [hitFrom "exact" 5]].flatten.filter fun hit =>
          hit.key = candidate.key) := by
  have hmax : PicksGreater wholeScores.scores.max (· ≤ ·) :=
    ⟨Nat.le_refl, fun _ _ _ => Nat.le_trans, Nat.le_max_left, Nat.le_max_right,
      fun a b => (Nat.le_total b a).imp Nat.max_eq_left Nat.max_eq_right⟩
  obtain ⟨-, -, -, hstands, hsum, -⟩ := stages_accumulate hmax
    [[hitFrom "lexical_source" 2], [hitFrom "exact" 5]]
  exact ⟨hsum, hstands⟩

/-- The first hit with a key is kept as it comes. -/
theorem repeated_label_stays :
    ¬ ∀ (stages : List (List (CandidateHit Nat))),
      ∀ candidate ∈ (mergeStages wholeScores stages).1, candidate.provenance.Nodup := by
  intro h
  have hkept := h [[{ hitFrom "exact" 5 with provenance := ["exact", "exact"] }]] _
    List.mem_cons_self
  exact absurd hkept (by decide)

end CodeStory.Retrieval
