import CodeStory.Retrieval.Ranker

/-!
# Primary code at the front of a ranking

What the caps for primary code leave of the order between primary candidates and the others.
The cap of dense candidates can lower the best primary candidate after the others were placed
just below it, and then one of them comes first.
-/

set_option autoImplicit false

namespace CodeStory.Retrieval

/-! ## The front of a sorted list -/

instance : Std.TransCmp compareRanked :=
  have : Std.TransCmp fun left right : Candidate => compare right.score left.score :=
    inferInstanceAs (Std.TransCmp fun left right => compareOn CandidateHit.score right left)
  inferInstanceAs (Std.TransCmp (compareLex
    (fun left right : Candidate => compare right.score left.score)
    (compareLex (compareOn fileRoleSortRank) (compareLex (compareOn sourceSortRank)
      (compareLex (compareOn CandidateHit.filePath) (compareOn CandidateHit.symbolName))))))

theorem score_le_of_isLE {left right : Candidate} (h : (compareRanked left right).isLE) :
    right.score ≤ left.score := by
  by_contra hlt
  have hgt : compareRanked left right = .gt := by
    unfold compareRanked
    rw [compare_gt_iff_gt.mpr (not_le.mp hlt)]
    rfl
  rw [hgt] at h
  exact absurd h (by decide)

theorem fileRoleSortRank_lt {primary other : Candidate} (hprimary : isPrimary primary = true)
    (hother : isPrimary other = false) : fileRoleSortRank primary < fileRoleSortRank other := by
  unfold isPrimary at hprimary hother
  unfold fileRoleSortRank
  cases hp : effectiveFileRole primary <;> rw [hp] at hprimary <;>
    cases ho : effectiveFileRole other <;> rw [ho] at hother <;>
    simp_all [FileRole.isPrimary]

/-- Between candidates of one score a primary one comes first. -/
theorem not_isLE_of_score_eq {primary other : Candidate} (hprimary : isPrimary primary = true)
    (hother : isPrimary other = false) (hscore : other.score = primary.score) :
    ¬ (compareRanked other primary).isLE := by
  have hgt : compareRanked other primary = .gt := by
    unfold compareRanked
    rw [compare_eq_iff_eq.mpr hscore.symm,
      compare_gt_iff_gt.mpr (fileRoleSortRank_lt hprimary hother)]
    rfl
  rw [hgt]
  decide

theorem head_sortBy_isLE {l : List Candidate} {first : Candidate}
    (hfirst : (Selection.sortBy compareRanked l).head? = some first) :
    first ∈ l ∧ ∀ c ∈ l, (compareRanked first c).isLE := by
  have hsorted := @Selection.pairwise_sortBy _ compareRanked _ l
  have hperm := @Selection.perm_sortBy _ compareRanked l
  cases hlist : Selection.sortBy compareRanked l with
  | nil =>
    rw [hlist] at hfirst
    exact absurd hfirst (by simp)
  | cons head rest =>
    rw [hlist] at hfirst hsorted hperm
    obtain rfl := Option.some.inj hfirst
    refine ⟨hperm.mem_iff.mp List.mem_cons_self, ?_⟩
    intro c hc
    rcases List.mem_cons.mp (hperm.mem_iff.mpr hc) with rfl | hrest
    · exact Ordering.isLE_of_eq_eq Std.ReflCmp.compare_self
    · exact (List.pairwise_cons.mp hsorted).1 c hrest

/-- A primary candidate comes first exactly when each of the others has a primary one that
scores at least as much. -/
theorem first_isPrimary_iff {l : List Candidate} (hne : l ≠ []) :
    (∃ first, (Selection.sortBy compareRanked l).head? = some first ∧ isPrimary first = true) ↔
      ∀ other ∈ l, isPrimary other = false →
        ∃ primary ∈ l, isPrimary primary = true ∧ other.score ≤ primary.score := by
  constructor
  · rintro ⟨first, hfirst, hprimary⟩ other hother _
    obtain ⟨hmem, hle⟩ := head_sortBy_isLE hfirst
    exact ⟨first, hmem, hprimary, score_le_of_isLE (hle other hother)⟩
  · intro h
    obtain ⟨first, hfirst⟩ : ∃ first, (Selection.sortBy compareRanked l).head? = some first := by
      cases hlist : Selection.sortBy compareRanked l with
      | nil =>
        have hperm := @Selection.perm_sortBy _ compareRanked l
        rw [hlist] at hperm
        exact absurd hperm.nil_eq.symm hne
      | cons head rest => exact ⟨head, rfl⟩
    obtain ⟨hmem, hle⟩ := head_sortBy_isLE hfirst
    refine ⟨first, hfirst, ?_⟩
    by_contra hnot
    have hother : isPrimary first = false := by simpa using hnot
    obtain ⟨primary, hprimaryMem, hprimary, hscore⟩ := h first hmem hother
    have hback := score_le_of_isLE (hle primary hprimaryMem)
    exact not_isLE_of_score_eq hprimary hother (le_antisymm hscore hback)
      (hle primary hprimaryMem)

/-! ## What the caps do to a candidate -/

theorem filter_map_fixed {f : Candidate → Candidate} {p : Candidate → Bool}
    (hp : ∀ c, p (f c) = p c) (hf : ∀ c, p c = true → f c = c) (l : List Candidate) :
    (l.map f).filter p = l.filter p := by
  induction l with
  | nil => rfl
  | cons c rest ih =>
    rw [List.map_cons, List.filter_cons, List.filter_cons, ih, hp]
    split
    · rename_i hc
      rw [hf c hc]
    · rfl

/-- The cap of the candidates that are not primary. -/
def capOthers (bestPrimary : ℚ) (candidate : Candidate) : Candidate :=
  if isPrimary candidate then candidate
  else { candidate with score := cappedScore bestPrimary candidate }

theorem isPrimary_capOthers (bestPrimary : ℚ) (candidate : Candidate) :
    isPrimary (capOthers bestPrimary candidate) = isPrimary candidate := by
  unfold capOthers
  split
  · rfl
  · rfl

theorem source_capOthers (bestPrimary : ℚ) (candidate : Candidate) :
    (capOthers bestPrimary candidate).source = candidate.source := by
  unfold capOthers
  split
  · rfl
  · rfl

/-- The anchor of the second cap is the one from before the first. -/
theorem strongLexicalAnchor_capOthers (bestPrimary : ℚ) (candidates : List Candidate)
    (tokens : List Token) :
    strongLexicalAnchor (candidates.map (capOthers bestPrimary)) tokens =
      strongLexicalAnchor candidates tokens := by
  unfold strongLexicalAnchor
  rw [List.filter_filter, List.filter_filter]
  rw [filter_map_fixed]
  · intro c
    rw [isPrimary_capOthers, source_capOthers]
  · intro c hc
    have hprimary : isPrimary c = true := (Bool.and_eq_true_iff.mp hc).1
    unfold capOthers
    rw [if_pos hprimary]

theorem strongLexicalAnchor_mem {candidates : List Candidate} {tokens : List Token}
    {anchor : Nat × ℚ} (h : strongLexicalAnchor candidates tokens = some anchor) :
    ∃ c ∈ candidates, isPrimary c = true ∧ c.source = .lexical ∧ c.score = anchor.2 := by
  obtain ⟨c, hc, hanchor⟩ := List.mem_filterMap.mp (Selection.maxBy_mem h)
  obtain ⟨hc, hprimary⟩ := List.mem_filter.mp hc
  obtain ⟨hmem, hlexical⟩ := List.mem_filter.mp hc
  refine ⟨c, hmem, hprimary, of_decide_eq_true hlexical, ?_⟩
  dsimp only at hanchor
  split at hanchor
  · exact congrArg Prod.snd (Option.some.inj hanchor)
  · exact absurd hanchor (by simp)

/-- A weak dense candidate, given whether there is an anchor. -/
def isWeak (anchor : Option (Nat × ℚ)) (tokens : List Token) (candidate : Candidate) : Bool :=
  anchor.any fun anchor => isWeakDense anchor tokens candidate

/-- A weak dense candidate at the score of the anchor or above it. -/
def isDemoted (anchor : Option (Nat × ℚ)) (tokens : List Token) (candidate : Candidate) : Bool :=
  anchor.any fun anchor => isWeakDense anchor tokens candidate && anchor.2 ≤ candidate.score

/-- Every candidate that is neither primary nor a weak dense one meets, at the height the first
cap gives it, a primary candidate that the second cap does not demote. -/
def PrimaryStaysOnTop (tokens : List Token) (candidates : List Candidate) : Prop :=
  ∀ other ∈ candidates, isPrimary other = false →
    isWeak (strongLexicalAnchor candidates tokens) tokens other = false →
    ∃ primary ∈ candidates, isPrimary primary = true ∧
      isDemoted (strongLexicalAnchor candidates tokens) tokens primary = false ∧
      cappedScore ((topScore (candidates.filter isPrimary)).getD 0) other ≤ primary.score

instance (tokens : List Token) (candidates : List Candidate) :
    Decidable (PrimaryStaysOnTop tokens candidates) :=
  inferInstanceAs (Decidable (∀ other ∈ candidates, _))

/-- Both caps on one candidate. -/
def capped (bestPrimary : ℚ) (anchor : Option (Nat × ℚ)) (tokens : List Token)
    (candidate : Candidate) : Candidate :=
  match anchor with
  | none => capOthers bestPrimary candidate
  | some anchor =>
    if isWeakDense anchor tokens (capOthers bestPrimary candidate) ∧
        anchor.2 ≤ (capOthers bestPrimary candidate).score then
      { capOthers bestPrimary candidate with score := belowScore anchor.2 }
    else capOthers bestPrimary candidate

theorem caps_eq_map {candidates : List Candidate} {bestPrimary : ℚ} (tokens : List Token)
    (hbest : topScore (candidates.filter isPrimary) = some bestPrimary) :
    capDenseBelowStrongLexicalSource (capNonPrimaryBelowBestPrimary candidates) tokens =
      candidates.map (capped bestPrimary (strongLexicalAnchor candidates tokens) tokens) := by
  have hfirst : capNonPrimaryBelowBestPrimary candidates =
      candidates.map (capOthers bestPrimary) := by
    unfold capNonPrimaryBelowBestPrimary
    rw [hbest]
    rfl
  unfold capDenseBelowStrongLexicalSource
  rw [hfirst, strongLexicalAnchor_capOthers]
  cases strongLexicalAnchor candidates tokens with
  | none => rfl
  | some anchor =>
    dsimp only
    rw [List.map_map]
    rfl

theorem isWeakDense_capOthers (bestPrimary : ℚ) (anchor : Nat × ℚ) (tokens : List Token)
    (candidate : Candidate) :
    isWeakDense anchor tokens (capOthers bestPrimary candidate) =
      isWeakDense anchor tokens candidate := by
  unfold capOthers
  split
  · rfl
  · rfl

theorem isPrimary_capped (bestPrimary : ℚ) (anchor : Option (Nat × ℚ)) (tokens : List Token)
    (candidate : Candidate) :
    isPrimary (capped bestPrimary anchor tokens candidate) = isPrimary candidate := by
  unfold capped
  cases anchor with
  | none => exact isPrimary_capOthers bestPrimary candidate
  | some anchor =>
    dsimp only
    split
    · exact isPrimary_capOthers bestPrimary candidate
    · exact isPrimary_capOthers bestPrimary candidate

/-- A primary candidate that is not demoted keeps its score. -/
theorem score_capped_primary {bestPrimary : ℚ} {anchor : Option (Nat × ℚ)} {tokens : List Token}
    {candidate : Candidate} (hprimary : isPrimary candidate = true)
    (hkept : isDemoted anchor tokens candidate = false) :
    (capped bestPrimary anchor tokens candidate).score = candidate.score := by
  have hfirst : capOthers bestPrimary candidate = candidate := if_pos hprimary
  unfold capped
  rw [hfirst]
  cases anchor with
  | none => rfl
  | some anchor =>
    dsimp only
    rw [if_neg]
    rintro ⟨hweak, hscore⟩
    have hdemoted : isDemoted (some anchor) tokens candidate = true := by
      simp [isDemoted, hweak, hscore]
    exact absurd (hkept.symm.trans hdemoted) (by decide)

theorem score_capped_other {bestPrimary : ℚ} {anchor : Option (Nat × ℚ)} {tokens : List Token}
    {candidate : Candidate} (hother : isPrimary candidate = false)
    (hstrong : isWeak anchor tokens candidate = false) :
    (capped bestPrimary anchor tokens candidate).score = cappedScore bestPrimary candidate := by
  have hfirst : (capOthers bestPrimary candidate).score = cappedScore bestPrimary candidate := by
    unfold capOthers
    rw [if_neg (by simp [hother])]
  unfold capped
  cases anchor with
  | none => exact hfirst
  | some anchor =>
    dsimp only
    rw [if_neg]
    · exact hfirst
    · rintro ⟨hweak, _⟩
      rw [isWeakDense_capOthers] at hweak
      have hany : isWeak (some anchor) tokens candidate = true := hweak
      exact absurd (hstrong.symm.trans hany) (by decide)

theorem belowScore_le {score : ℚ} (h : 0 ≤ score) : belowScore score ≤ score := by
  unfold belowScore
  apply max_le
  · linarith
  · exact h

/-- A weak dense candidate ends no higher than the anchor. -/
theorem score_capped_weak {bestPrimary : ℚ} {anchor : Nat × ℚ} {tokens : List Token}
    {candidate : Candidate} (hweak : isWeakDense anchor tokens candidate = true)
    (hanchor : 0 ≤ anchor.2) :
    (capped bestPrimary (some anchor) tokens candidate).score ≤ anchor.2 := by
  unfold capped
  dsimp only
  split
  · exact belowScore_le hanchor
  · rename_i hnot
    rw [isWeakDense_capOthers] at hnot
    by_contra hgt
    exact hnot ⟨hweak, le_of_lt (not_le.mp hgt)⟩

theorem isWeak_of_isDemoted {anchor : Option (Nat × ℚ)} {tokens : List Token}
    {candidate : Candidate} (h : isDemoted anchor tokens candidate = true) :
    isWeak anchor tokens candidate = true := by
  cases anchor with
  | none => exact h
  | some anchor => exact (Bool.and_eq_true_iff.mp h).1

/-- A weak dense candidate ends no higher than the anchor, which is primary, lexical and
therefore never demoted. -/
theorem exists_primary_of_weak {candidates : List Candidate} {tokens : List Token}
    (hscores : ∀ c ∈ candidates, 0 ≤ c.score) {weak : Candidate}
    (hweak : isWeak (strongLexicalAnchor candidates tokens) tokens weak = true)
    (bestPrimary : ℚ) :
    ∃ primary ∈ candidates, isPrimary primary = true ∧
      isDemoted (strongLexicalAnchor candidates tokens) tokens primary = false ∧
      (capped bestPrimary (strongLexicalAnchor candidates tokens) tokens weak).score ≤
        primary.score := by
  cases hanchor : strongLexicalAnchor candidates tokens with
  | none =>
    rw [hanchor] at hweak
    exact absurd hweak (by simp [isWeak])
  | some anchor =>
    rw [hanchor] at hweak
    obtain ⟨c, hc, hprimary, hlexical, hscore⟩ := strongLexicalAnchor_mem hanchor
    refine ⟨c, hc, hprimary, ?_, ?_⟩
    · simp [isDemoted, isWeakDense, hlexical]
    · rw [hscore]
      exact score_capped_weak hweak (hscore ▸ hscores c hc)

theorem caps_keep_primary_first_iff {candidates : List Candidate} (tokens : List Token)
    (hscores : ∀ c ∈ candidates, 0 ≤ c.score) {bestPrimary : ℚ}
    (hbest : topScore (candidates.filter isPrimary) = some bestPrimary) :
    (∀ other ∈ candidates.map (capped bestPrimary (strongLexicalAnchor candidates tokens) tokens),
      isPrimary other = false →
      ∃ primary ∈ candidates.map
          (capped bestPrimary (strongLexicalAnchor candidates tokens) tokens),
        isPrimary primary = true ∧ other.score ≤ primary.score) ↔
      PrimaryStaysOnTop tokens candidates := by
  have hgetD : (topScore (candidates.filter isPrimary)).getD 0 = bestPrimary := by
    rw [hbest]
    rfl
  unfold PrimaryStaysOnTop
  rw [hgetD]
  constructor
  · intro h other hother hnot hstrong
    obtain ⟨final, hfinal, hprimary, hscore⟩ := h _ (List.mem_map_of_mem hother)
      ((isPrimary_capped _ _ _ other).trans hnot)
    obtain ⟨primary, hmem, rfl⟩ := List.mem_map.mp hfinal
    rw [isPrimary_capped] at hprimary
    rw [score_capped_other hnot hstrong] at hscore
    cases hdemoted : isDemoted (strongLexicalAnchor candidates tokens) tokens primary with
    | false =>
      rw [score_capped_primary hprimary hdemoted] at hscore
      exact ⟨primary, hmem, hprimary, hdemoted, hscore⟩
    | true =>
      obtain ⟨c, hc, hcPrimary, hkept, hcScore⟩ :=
        exists_primary_of_weak hscores (isWeak_of_isDemoted hdemoted) bestPrimary
      exact ⟨c, hc, hcPrimary, hkept, hscore.trans hcScore⟩
  · intro h final hfinal hnot
    obtain ⟨other, hother, rfl⟩ := List.mem_map.mp hfinal
    rw [isPrimary_capped] at hnot
    cases hweak : isWeak (strongLexicalAnchor candidates tokens) tokens other with
    | false =>
      obtain ⟨primary, hmem, hprimary, hkept, hscore⟩ := h other hother hnot hweak
      refine ⟨_, List.mem_map_of_mem hmem, (isPrimary_capped _ _ _ _).trans hprimary, ?_⟩
      rw [score_capped_other hnot hweak, score_capped_primary hprimary hkept]
      exact hscore
    | true =>
      obtain ⟨c, hc, hcPrimary, hkept, hcScore⟩ :=
        exists_primary_of_weak hscores hweak bestPrimary
      refine ⟨_, List.mem_map_of_mem hc, (isPrimary_capped _ _ _ _).trans hcPrimary, ?_⟩
      rw [score_capped_primary hcPrimary hkept]
      exact hcScore

/-! ## The ranking -/

section Ranking
variable {chars : CharClasses} {features : QueryFeatures} {candidates : List Candidate}

theorem topScore_mem {l : List Candidate} {top : ℚ} (h : topScore l = some top) :
    ∃ c ∈ l, c.score = top :=
  List.mem_map.mp (Selection.maxBy_mem h)

theorem topScore_of_mem {l : List Candidate} {c : Candidate} (h : c ∈ l) :
    ∃ top, topScore l = some top := by
  apply Option.ne_none_iff_exists'.mp
  intro hnone
  have hempty : l = [] := List.map_eq_nil_iff.mp (Selection.maxBy_eq_none_iff.mp hnone)
  rw [hempty] at h
  exact absurd h List.not_mem_nil

theorem minRankScore_nonneg (shape : QueryShape) : 0 ≤ minRankScore shape := by
  cases shape <;> unfold minRankScore <;> norm_num

theorem survivors_score_nonneg : ∀ c ∈ survivors chars features candidates, 0 ≤ c.score := by
  intro c hc
  have hmin := of_decide_eq_true (List.mem_filter.mp hc).2
  exact (minRankScore_nonneg features.shape).trans hmin

theorem structuralCap_score_nonneg {l : List Candidate} (h : ∀ c ∈ l, 0 ≤ c.score) :
    ∀ c ∈ applyStructuralCodeIntentCap l, 0 ≤ c.score := by
  intro c hc
  unfold applyStructuralCodeIntentCap at hc
  split at hc
  · exact h c hc
  · rename_i top htop
    obtain ⟨c', hc', rfl⟩ := List.mem_map.mp hc
    split
    · obtain ⟨graph, hgraph, rfl⟩ := topScore_mem htop
      exact h graph (List.mem_filter.mp hgraph).1
    · exact h c' hc'

theorem structurallyCapped_score_nonneg :
    ∀ c ∈ structurallyCapped chars features candidates, 0 ≤ c.score := by
  unfold structurallyCapped
  dsimp only
  split
  · exact structuralCap_score_nonneg survivors_score_nonneg
  · exact survivors_score_nonneg

theorem exists_primary_structuralCap {l : List Candidate} {c : Candidate} (hc : c ∈ l)
    (hprimary : isPrimary c = true) :
    ∃ c' ∈ applyStructuralCodeIntentCap l, isPrimary c' = true := by
  unfold applyStructuralCodeIntentCap
  split
  · exact ⟨c, hc, hprimary⟩
  · refine ⟨_, List.mem_map_of_mem hc, ?_⟩
    split
    · exact hprimary
    · exact hprimary

/-- Once a primary candidate has survived, one comes first exactly when the caps leave one on
top. -/
theorem primary_first_iff (chars : CharClasses) (features : QueryFeatures)
    (candidates : List Candidate)
    (hprefers : prefersPrimaryCodeEvidence features.shape
      (tokenize chars features.rawQuery) = true)
    (hsurvivor : ∃ c ∈ survivors chars features candidates, isPrimary c = true ∧ 0 < c.score) :
    (∃ first, (rankCandidates chars features candidates).head? = some first ∧
      isPrimary first = true) ↔
      PrimaryStaysOnTop (tokenize chars features.rawQuery)
        (structurallyCapped chars features candidates) := by
  obtain ⟨survivor, hmem, hprimary, _⟩ := hsurvivor
  obtain ⟨c, hc, hcPrimary⟩ : ∃ c ∈ structurallyCapped chars features candidates,
      isPrimary c = true := by
    unfold structurallyCapped
    dsimp only
    split
    · exact exists_primary_structuralCap hmem hprimary
    · exact ⟨survivor, hmem, hprimary⟩
  obtain ⟨bestPrimary, hbest⟩ := topScore_of_mem (List.mem_filter.mpr ⟨hc, hcPrimary⟩)
  unfold rankCandidates
  dsimp only
  rw [if_pos hprefers, caps_eq_map _ hbest, first_isPrimary_iff (List.ne_nil_of_mem
    (List.mem_map_of_mem hc)), caps_keep_primary_first_iff _ structurallyCapped_score_nonneg hbest]

end Ranking

/-- The character classes on ASCII. -/
def asciiClasses : CharClasses := ⟨Char.isUpper, Char.isLower, Char.isAlphanum⟩

def eventQuery : QueryFeatures := classifyQuery asciiClasses "explain request event json output"

/-- A dense source, a lexical test and a lexical source with three strong hits. -/
def eventCandidates : List Candidate :=
  [{ nodeId := none, filePath := "src/request/dispatch.rs", symbolName := some "explain",
     startLine := none, score := 1, source := .semantic, provenance := [],
     fileRole := some .source, scipHopDistance := none, rankFeatures := none },
   { nodeId := none, filePath := "tests/request_event_json_output.rs",
     symbolName := some "explain", startLine := none, score := 1, source := .lexical,
     provenance := [], fileRole := some .test, scipHopDistance := none, rankFeatures := none },
   { nodeId := none, filePath := "src/event_json.rs", symbolName := some "output",
     startLine := none, score := 1 / 10, source := .lexical, provenance := [],
     fileRole := some .source, scipHopDistance := none, rankFeatures := none }]

theorem primary_first_iff_event :
    (∃ first, (rankCandidates asciiClasses eventQuery (eventCandidates.drop 1)).head? =
      some first ∧ isPrimary first = true) ↔
      PrimaryStaysOnTop (tokenize asciiClasses eventQuery.rawQuery)
        (structurallyCapped asciiClasses eventQuery (eventCandidates.drop 1)) :=
  primary_first_iff asciiClasses eventQuery (eventCandidates.drop 1) (by decide +kernel)
    (by decide +kernel)

/-- The dense source is best and is then capped below the lexical one; the test was placed
between them. -/
theorem test_ranks_before_sources :
    prefersPrimaryCodeEvidence eventQuery.shape (tokenize asciiClasses eventQuery.rawQuery) =
      true ∧
    (∃ c ∈ survivors asciiClasses eventQuery eventCandidates, isPrimary c = true ∧ 0 < c.score) ∧
    ¬ ∃ first, (rankCandidates asciiClasses eventQuery eventCandidates).head? = some first ∧
      isPrimary first = true := by
  refine ⟨by decide +kernel, by decide +kernel, ?_⟩
  rintro ⟨first, hfirst, hprimary⟩
  have hhead : (rankCandidates asciiClasses eventQuery eventCandidates).head?.map isPrimary =
      some false := by decide +kernel
  rw [hfirst] at hhead
  exact absurd (hprimary.symm.trans (Option.some.inj hhead)) (by decide)

end CodeStory.Retrieval
