import CodeStory.Packet.CitationCap

/-!
# What the cap on a packet's citations keeps

What one visit of a citation can do, and from it what holds after a whole pass: nothing is kept
twice or made up, the bound on their number holds, and the protected citations stay. The bound on
files holds as long as every swap against a citation of the same claim key leaves room for the
newcomer's file.
-/

set_option autoImplicit false

namespace CodeStory.Packet

universe u v

variable {S : Type u} {R : Type v} [LT S] [DecidableLT S]
variable {reading : CitationReading S R} {protectedCitationKeys : Finset String}
variable {limits : PacketBudgetLimits}

/-! ## What a replacement finds -/

section Replacement

variable {priority : AgentCitation S R → Nat → Option Nat} {kept kept' : List (AgentCitation S R)}
variable {candidate : AgentCitation S R}

theorem considerReplacement_found {entries : List (AgentCitation S R × Nat)}
    {before : Option (Nat × Nat × S)} {index found : Nat} {rank : S}
    (h : entries.foldl (considerReplacement priority) before = some (index, found, rank)) :
    before = some (index, found, rank) ∨
      ∃ existing, (existing, index) ∈ entries ∧ priority existing index = some found := by
  induction entries generalizing before with
  | nil => exact .inl h
  | cons entry entries ih =>
    rcases ih h with hbefore | ⟨existing, hmem, hpriority⟩
    · unfold considerReplacement at hbefore
      split at hbefore
      · exact .inl hbefore
      · rename_i p hp
        split at hbefore
        · obtain ⟨rfl, rfl, rfl⟩ := hbefore
          exact .inr ⟨entry.1, List.mem_cons_self, hp⟩
        · exact .inl hbefore
    · exact .inr ⟨existing, List.mem_cons_of_mem _ hmem, hpriority⟩

theorem replaceBest_eq_some (h : replaceBest priority kept candidate = some kept') :
    ∃ index existing, kept[index]? = some existing ∧ (priority existing index).isSome ∧
      kept' = kept.set index candidate := by
  obtain ⟨⟨index, found, rank⟩, hfold, rfl⟩ := Option.map_eq_some_iff.mp h
  rcases considerReplacement_found hfold with hnone | ⟨existing, hmem, hpriority⟩
  · exact absurd hnone (by simp)
  · refine ⟨index, existing, List.mem_zipIdx_iff_getElem?.mp hmem, ?_, rfl⟩
    rw [hpriority]
    rfl

/-- What the two siblings that are given the limits have checked. -/
def FittingSwap (reading : CitationReading S R) (protectedCitationKeys : Finset String)
    (limits : PacketBudgetLimits) (kept : List (AgentCitation S R)) (candidate : AgentCitation S R)
    (kept' : List (AgentCitation S R)) : Prop :=
  ∃ index existing, kept[index]? = some existing ∧
    packetCitationIsProtected protectedCitationKeys existing = false ∧
    packetFileFitsLimitAfterReplacement reading (reading.file candidate) kept index
      limits.maxFiles ∧ kept' = kept.set index candidate

theorem sameRole_fittingSwap
    (h : replaceWeakerSameRoleOrLowPriorityCitation reading protectedCitationKeys limits kept
      candidate = some kept') :
    FittingSwap reading protectedCitationKeys limits kept candidate kept' := by
  obtain ⟨index, existing, hget, hsome, rfl⟩ := replaceBest_eq_some h
  unfold sameRolePriority at hsome
  split at hsome
  · exact absurd hsome (by simp)
  · rename_i hspare
    split at hsome
    · exact absurd hsome (by simp)
    · rename_i hfits
      exact ⟨index, existing, hget, Bool.eq_false_iff.mpr hspare, not_not.mp hfits, rfl⟩

theorem overrepresented_fittingSwap
    (h : replaceOverrepresentedRoleCitation reading protectedCitationKeys limits kept
      candidate = some kept') :
    FittingSwap reading protectedCitationKeys limits kept candidate kept' := by
  unfold replaceOverrepresentedRoleCitation at h
  split at h
  · cases h
  · split at h
    · cases h
    · obtain ⟨index, existing, hget, hsome, rfl⟩ := replaceBest_eq_some h
      unfold overrepresentedPriority at hsome
      split at hsome
      · exact absurd hsome (by simp)
      · rename_i hspare
        split at hsome
        · exact absurd hsome (by simp)
        · split at hsome
          · exact absurd hsome (by simp)
          · split at hsome
            · exact absurd hsome (by simp)
            · rename_i hfits
              exact ⟨index, existing, hget, Bool.eq_false_iff.mpr hspare, not_not.mp hfits, rfl⟩

omit [LT S] [DecidableLT S] in
theorem duplicateClaim_eq_some {claimKey : String} {index : Nat}
    (h : replaceWeakerDuplicateClaimCitation reading protectedCitationKeys kept claimKey
      candidate = some index) :
    ∃ existing, kept[index]? = some existing ∧
      packetCitationIsProtected protectedCitationKeys existing = false := by
  unfold replaceWeakerDuplicateClaimCitation at h
  split at h
  · cases h
  · split at h
    · cases h
    · rename_i existing hget
      split at h
      · cases h
      · rename_i hspare
        split at h
        · obtain rfl := Option.some.inj h
          exact ⟨existing, hget, Bool.eq_false_iff.mpr hspare⟩
        · cases h

omit [LT S] [DecidableLT S] in
theorem duplicateClaimIndex_eq_some {st : CapState S R} {index : Nat}
    (h : st.duplicateClaimIndex reading protectedCitationKeys candidate = some index) :
    ∃ existing, st.kept[index]? = some existing ∧
      packetCitationIsProtected protectedCitationKeys existing = false := by
  unfold CapState.duplicateClaimIndex at h
  split at h
  · cases h
  · split at h
    · exact duplicateClaim_eq_some h
    · cases h

end Replacement

/-! ## One visit -/

/-- What a visit can do: keep the citation where there is room, put it in the place of one that is
not protected, or defer it. -/
inductive Outcome (reading : CitationReading S R) (protectedCitationKeys : Finset String)
    (limits : PacketBudgetLimits) (st : CapState S R) (citation : AgentCitation S R)
    (after : CapState S R) : Prop
  | kept (hroom : st.kept.length < limits.maxAnchors)
      (hfits : packetFileFitsLimit (reading.file citation) st.files limits.maxFiles)
      (hkept : after.kept = st.kept ++ [citation])
      (hfiles : after.files = (reading.file citation).toFinset ∪ st.files)
      (hdeferred : after.deferred = st.deferred)
  | replaced (index : Nat) (existing : AgentCitation S R) (hold : st.kept[index]? = some existing)
      (hspare : packetCitationIsProtected protectedCitationKeys existing = false)
      (hfits : packetFileFitsLimitAfterReplacement reading (reading.file citation) st.kept index
          limits.maxFiles ∨
        ¬ st.admitsProtected reading protectedCitationKeys limits citation ∧
          st.duplicateClaimIndex reading protectedCitationKeys citation = some index)
      (hkept : after.kept = st.kept.set index citation)
      (hfiles : after.files = reading.filesOf after.kept)
      (hdeferred : after.deferred = st.deferred)
  | deferred (hkept : after.kept = st.kept) (hfiles : after.files = st.files)
      (hdeferred : after.deferred = st.deferred ++ [citation])

variable {st : CapState S R} {citation : AgentCitation S R}

omit [LT S] [DecidableLT S] in
theorem FittingSwap.outcome {kept' : List (AgentCitation S R)}
    (h : FittingSwap reading protectedCitationKeys limits st.kept citation kept') :
    Outcome reading protectedCitationKeys limits st citation
      (st.rebuildPacketCapTracking reading kept') := by
  obtain ⟨index, existing, hold, hspare, hfits, rfl⟩ := h
  exact .replaced index existing hold hspare (.inl hfits) rfl rfl rfl

theorem visit_outcome (reading : CitationReading S R) (protectedCitationKeys : Finset String)
    (limits : PacketBudgetLimits) (st : CapState S R) (citation : AgentCitation S R) :
    Outcome reading protectedCitationKeys limits st citation
      (st.visit reading protectedCitationKeys limits citation) := by
  unfold CapState.visit
  split
  · rename_i hadmits
    exact .kept hadmits.2.1 hadmits.2.2 rfl rfl rfl
  · rename_i hadmits
    split
    · rename_i index hindex
      obtain ⟨existing, hold, hspare⟩ := duplicateClaimIndex_eq_some hindex
      exact .replaced index existing hold hspare (.inr ⟨hadmits, hindex⟩) rfl rfl rfl
    · split
      · rename_i kept' hswap
        apply FittingSwap.outcome
        unfold CapState.sameRoleSwap at hswap
        split at hswap
        · exact sameRole_fittingSwap hswap
        · cases hswap
      · split
        · rename_i kept' hswap
          apply FittingSwap.outcome
          unfold CapState.overrepresentedSwap at hswap
          split at hswap
          · exact overrepresented_fittingSwap hswap
          · cases hswap
        · split
          · rename_i hadmits
            exact .kept hadmits.1 hadmits.2.2 rfl rfl rfl
          · exact .deferred rfl rfl rfl

/-! ## The first loop -/

/-- What holds of every state of the first loop after the citations that have been visited. -/
structure CapState.Sound (reading : CitationReading S R) (limits : PacketBudgetLimits)
    (st : CapState S R) (visited : List (AgentCitation S R)) : Prop where
  files : st.files = reading.filesOf st.kept
  within : st.kept.length ≤ limits.maxAnchors
  drawn : TaggedPool.Drawn st.kept st.deferred visited

theorem CapState.Sound.visit {visited : List (AgentCitation S R)}
    (h : st.Sound reading limits visited) (citation : AgentCitation S R) :
    (st.visit reading protectedCitationKeys limits citation).Sound reading limits
      (visited ++ [citation]) := by
  cases visit_outcome reading protectedCitationKeys limits st citation with
  | kept hroom hfits hkept hfiles hdeferred =>
    constructor
    · rw [hfiles, hkept, h.files]
      exact TaggedPool.tags_concat.symm
    · rw [hkept, List.length_append, List.length_singleton]
      omega
    · rw [hkept, hdeferred]
      exact h.drawn.push citation
  | replaced index existing hold hspare hfits hkept hfiles hdeferred =>
    constructor
    · exact hfiles
    · rw [hkept, List.length_set]
      exact h.within
    · rw [hkept, hdeferred]
      exact h.drawn.replace hold citation
  | deferred hkept hfiles hdeferred =>
    constructor
    · rw [hfiles, hkept]
      exact h.files
    · rw [hkept]
      exact h.within
    · rw [hkept, hdeferred]
      exact h.drawn.defer citation

theorem visitAll_concat (visited : List (AgentCitation S R)) (citation : AgentCitation S R) :
    CapState.visitAll reading protectedCitationKeys limits (visited ++ [citation]) =
      (CapState.visitAll reading protectedCitationKeys limits visited).visit reading
        protectedCitationKeys limits citation := by
  unfold CapState.visitAll
  rw [List.foldl_append]
  rfl

variable (reading protectedCitationKeys limits) in
theorem visitAll_sound (visited : List (AgentCitation S R)) :
    (CapState.visitAll reading protectedCitationKeys limits visited).Sound reading limits
      visited := by
  induction visited using List.reverseRecOn with
  | nil => exact ⟨rfl, Nat.zero_le _, TaggedPool.Drawn.nil⟩
  | append_singleton visited citation ih =>
    rw [visitAll_concat]
    exact ih.visit citation

/-! ## The bound on files -/

/-- A swap against a citation of the same claim key that would fail the check its two siblings
make. -/
def CapState.OverflowingSwap (reading : CitationReading S R) (protectedCitationKeys : Finset String)
    (limits : PacketBudgetLimits) (st : CapState S R) (citation : AgentCitation S R) : Prop :=
  ¬ st.admitsProtected reading protectedCitationKeys limits citation ∧
    ∃ index, st.duplicateClaimIndex reading protectedCitationKeys citation = some index ∧
      ¬ packetFileFitsLimitAfterReplacement reading (reading.file citation) st.kept index
        limits.maxFiles

theorem visit_overflowing (h : st.OverflowingSwap reading protectedCitationKeys limits citation) :
    limits.maxFiles < (reading.filesOf
      (st.visit reading protectedCitationKeys limits citation).kept).card := by
  obtain ⟨hadmits, index, hindex, hfits⟩ := h
  obtain ⟨existing, hold, -⟩ := duplicateClaimIndex_eq_some hindex
  have hkept : (st.visit reading protectedCitationKeys limits citation).kept =
      st.kept.set index citation := by
    unfold CapState.visit
    rw [if_neg hadmits, hindex]
    rfl
  have hlt : index < st.kept.length := (List.getElem?_eq_some_iff.mp hold).1
  rw [hkept]
  unfold CitationReading.filesOf
  rw [TaggedPool.tags_set hlt]
  exact TaggedPool.lt_card_union hfits

theorem visit_files_le {visited : List (AgentCitation S R)} (hst : st.Sound reading limits visited)
    (hle : (reading.filesOf st.kept).card ≤ limits.maxFiles)
    (h : ¬ st.OverflowingSwap reading protectedCitationKeys limits citation) :
    (reading.filesOf (st.visit reading protectedCitationKeys limits citation).kept).card ≤
      limits.maxFiles := by
  cases visit_outcome reading protectedCitationKeys limits st citation with
  | kept hroom hfits hkept hfiles hdeferred =>
    rw [hkept]
    rw [hst.files] at hfits
    exact TaggedPool.card_tags_concat_le hle hfits
  | replaced index existing hold hspare hfits hkept hfiles hdeferred =>
    have hlt : index < st.kept.length := (List.getElem?_eq_some_iff.mp hold).1
    rw [hkept]
    apply (TaggedPool.card_tags_set_le_iff hle hlt).mpr
    rcases hfits with hfits | ⟨hadmits, hindex⟩
    · exact hfits
    · exact by_contra fun hno => h ⟨hadmits, index, hindex, hno⟩
  | deferred hkept hfiles hdeferred =>
    rw [hkept]
    exact hle

/-- Every such swap of the pass over these citations leaves room for the newcomer's file. -/
def SwapsFit (reading : CitationReading S R) (protectedCitationKeys : Finset String)
    (limits : PacketBudgetLimits) (citations : List (AgentCitation S R)) : Prop :=
  ∀ visited citation later, citations = visited ++ citation :: later →
    ¬ (CapState.visitAll reading protectedCitationKeys limits visited).OverflowingSwap reading
      protectedCitationKeys limits citation

theorem SwapsFit.of_concat {visited : List (AgentCitation S R)}
    (h : SwapsFit reading protectedCitationKeys limits (visited ++ [citation])) :
    SwapsFit reading protectedCitationKeys limits visited := by
  intro earlier c later heq
  apply h earlier c (later ++ [citation])
  rw [heq, List.append_assoc]
  rfl

theorem visitAll_files_le {visited : List (AgentCitation S R)}
    (h : SwapsFit reading protectedCitationKeys limits visited) :
    (reading.filesOf (CapState.visitAll reading protectedCitationKeys limits visited).kept).card ≤
      limits.maxFiles := by
  induction visited using List.reverseRecOn with
  | nil => exact Nat.zero_le _
  | append_singleton visited citation ih =>
    rw [visitAll_concat]
    exact visit_files_le (visitAll_sound _ _ _ visited) (ih h.of_concat) (h visited citation [] rfl)

/-! ## The second loop -/

omit [LT S] [DecidableLT S] in
theorem fill_cases (st : CapState S R) (citation : AgentCitation S R) :
    st.fill reading limits citation = st ∨
      st.kept.length < limits.maxAnchors ∧
        packetFileFitsLimit (reading.file citation) st.files limits.maxFiles ∧
        (st.fill reading limits citation).kept = st.kept ++ [citation] ∧
        (st.fill reading limits citation).files =
          (reading.file citation).toFinset ∪ st.files := by
  unfold CapState.fill
  split
  · exact .inl rfl
  · rename_i hroom
    split
    · exact .inl rfl
    · rename_i hfits
      exact .inr ⟨by omega, not_not.mp hfits, rfl, rfl⟩

/-- What the second loop has made of the citations kept by the first one. -/
structure Filled (reading : CitationReading S R) (limits : PacketBudgetLimits)
    (before after : CapState S R) (offered : List (AgentCitation S R)) : Prop where
  files : after.files = reading.filesOf after.kept
  within : after.kept.length ≤ limits.maxAnchors
  added : ∃ taken, taken.Sublist offered ∧ after.kept = before.kept ++ taken
  files_le : (reading.filesOf before.kept).card ≤ limits.maxFiles →
    (reading.filesOf after.kept).card ≤ limits.maxFiles

omit [LT S] [DecidableLT S] in
theorem Filled.fill {before after : CapState S R} {offered : List (AgentCitation S R)}
    (h : Filled reading limits before after offered) (citation : AgentCitation S R) :
    Filled reading limits before (after.fill reading limits citation) (offered ++ [citation]) := by
  obtain ⟨taken, htaken, hadded⟩ := h.added
  rcases fill_cases after citation with heq | ⟨hroom, hfits, hkept, hfiles⟩
  · rw [heq]
    refine ⟨h.files, h.within, ⟨taken, ?_, hadded⟩, h.files_le⟩
    exact htaken.trans (List.sublist_append_left _ _)
  · refine ⟨?_, ?_, ⟨taken ++ [citation], htaken.append (List.Sublist.refl _), ?_⟩, ?_⟩
    · rw [hfiles, hkept, h.files]
      exact TaggedPool.tags_concat.symm
    · rw [hkept, List.length_append, List.length_singleton]
      omega
    · rw [hkept, hadded, List.append_assoc]
    · intro hbefore
      rw [hkept]
      rw [h.files] at hfits
      exact TaggedPool.card_tags_concat_le (h.files_le hbefore) hfits

omit [LT S] [DecidableLT S] in
theorem filled_foldl {before : CapState S R} (hfiles : before.files = reading.filesOf before.kept)
    (hwithin : before.kept.length ≤ limits.maxAnchors) (offered : List (AgentCitation S R)) :
    Filled reading limits before (offered.foldl (CapState.fill reading limits) before) offered := by
  induction offered using List.reverseRecOn with
  | nil =>
    exact ⟨hfiles, hwithin, ⟨[], List.Sublist.refl _, (List.append_nil _).symm⟩, id⟩
  | append_singleton offered citation ih =>
    rw [List.foldl_append]
    exact ih.fill citation

omit [LT S] [DecidableLT S] in
theorem filter_parts_perm (p q : AgentCitation S R → Bool) (l : List (AgentCitation S R)) :
    (l.filter (fun c => p c && !q c) ++ l.filter fun c => p c && q c).Perm (l.filter p) := by
  have hnot : l.filter (fun c => p c && !q c) = (l.filter p).filter fun c => !q c := by
    rw [List.filter_filter]
    exact List.filter_congr fun c _ => Bool.and_comm _ _
  have hyes : l.filter (fun c => p c && q c) = (l.filter p).filter q := by
    rw [List.filter_filter]
    exact List.filter_congr fun c _ => Bool.and_comm _ _
  rw [hnot, hyes]
  exact List.perm_append_comm.trans (List.filter_append_perm q (l.filter p))

omit [LT S] [DecidableLT S] in
theorem deferredInOrder_perm (st : CapState S R) :
    (deferredInOrder reading st).Perm st.deferred := by
  unfold deferredInOrder
  dsimp only
  rw [List.append_assoc]
  refine ((filter_parts_perm _ _ _).append (filter_parts_perm _ _ _)).trans ?_
  exact List.perm_append_comm.trans (List.filter_append_perm _ _)

/-! ## The whole cap -/

omit [LT S] [DecidableLT S] in
variable (protectedCitationKeys) in
theorem prioritize_perm (citations : List (AgentCitation S R)) :
    (prioritizeProtectedCitations protectedCitationKeys citations).Perm citations :=
  List.perm_insertionSort _ _

variable (reading protectedCitationKeys limits)

theorem cap_filled (citations : List (AgentCitation S R)) :
    ∃ after : CapState S R,
      (capCitationsWithProtected reading protectedCitationKeys limits citations).1 = after.kept ∧
      Filled reading limits (CapState.visitAll reading protectedCitationKeys limits
          (prioritizeProtectedCitations protectedCitationKeys citations)) after
        (deferredInOrder reading (CapState.visitAll reading protectedCitationKeys limits
          (prioritizeProtectedCitations protectedCitationKeys citations))) := by
  have hsound := visitAll_sound reading protectedCitationKeys limits
    (prioritizeProtectedCitations protectedCitationKeys citations)
  exact ⟨_, rfl, filled_foldl hsound.files hsound.within _⟩

theorem cap_subperm (citations : List (AgentCitation S R)) :
    (capCitationsWithProtected reading protectedCitationKeys limits citations).1.Subperm
      citations := by
  obtain ⟨after, heq, hfilled⟩ := cap_filled reading protectedCitationKeys limits citations
  obtain ⟨taken, htaken, hkept⟩ := hfilled.added
  have hdrawn := (visitAll_sound reading protectedCitationKeys limits
    (prioritizeProtectedCitations protectedCitationKeys citations)).drawn
  rw [heq, hkept]
  refine List.Subperm.trans ?_ (hdrawn.trans (prioritize_perm _ citations).subperm)
  exact (List.subperm_append_left _).mpr
    (htaken.subperm.trans (deferredInOrder_perm _).subperm)

theorem cap_length_le (citations : List (AgentCitation S R)) :
    (capCitationsWithProtected reading protectedCitationKeys limits citations).1.length ≤
      limits.maxAnchors := by
  obtain ⟨after, heq, hfilled⟩ := cap_filled reading protectedCitationKeys limits citations
  rw [heq]
  exact hfilled.within

/-- The packet counts as truncated exactly when a citation has been left out. -/
theorem cap_truncated_iff (citations : List (AgentCitation S R)) :
    (capCitationsWithProtected reading protectedCitationKeys limits citations).2 = true ↔
      ¬ citations.Subperm
        (capCitationsWithProtected reading protectedCitationKeys limits citations).1 := by
  have hsub := cap_subperm reading protectedCitationKeys limits citations
  have hflag : (capCitationsWithProtected reading protectedCitationKeys limits citations).2 = true ↔
      (capCitationsWithProtected reading protectedCitationKeys limits citations).1.length <
        citations.length := decide_eq_true_iff
  rw [hflag]
  constructor
  · intro hlt hall
    have := hall.length_le
    omega
  · intro hmissing
    by_contra hge
    exact hmissing (hsub.perm_of_length_le (by omega)).symm.subperm

/-- The second loop neither adds a file beyond the bound nor frees one. -/
theorem cap_files_le_iff (citations : List (AgentCitation S R)) :
    (reading.filesOf
        (capCitationsWithProtected reading protectedCitationKeys limits citations).1).card ≤
      limits.maxFiles ↔
    (reading.filesOf (CapState.visitAll reading protectedCitationKeys limits
        (prioritizeProtectedCitations protectedCitationKeys citations)).kept).card ≤
      limits.maxFiles := by
  obtain ⟨after, heq, hfilled⟩ := cap_filled reading protectedCitationKeys limits citations
  obtain ⟨taken, -, hkept⟩ := hfilled.added
  rw [heq]
  constructor
  · intro hle
    refine (Finset.card_le_card ?_).trans hle
    rw [hkept]
    exact TaggedPool.tags_mono (List.subset_append_left _ _)
  · exact hfilled.files_le

omit [LT S] [DecidableLT S] in
theorem prioritize_pairwise (citations : List (AgentCitation S R)) :
    (prioritizeProtectedCitations protectedCitationKeys citations).Pairwise
      (Selection.RankLe (packetCitationProtectionRank protectedCitationKeys)) :=
  List.pairwise_insertionSort _ _

omit [LT S] [DecidableLT S] in
variable {protectedCitationKeys} in
theorem prioritize_of_append {citations visited later : List (AgentCitation S R)}
    (h : prioritizeProtectedCitations protectedCitationKeys citations = visited ++ later) :
    prioritizeProtectedCitations protectedCitationKeys visited = visited := by
  have hsorted := prioritize_pairwise protectedCitationKeys citations
  rw [h] at hsorted
  exact (List.pairwise_append.mp hsorted).1.insertionSort_eq

/-- Every citation kept is one of the input and none is kept twice, their number is within the
bound, and the packet counts as truncated exactly when a citation is missing. After every prefix of
the pass the files are within their bound exactly when each swap against a citation of the same
claim key leaves room for the newcomer's file. -/
theorem cap_respects_limits (citations : List (AgentCitation S R)) :
    let cap := capCitationsWithProtected reading protectedCitationKeys limits
    let candidates := prioritizeProtectedCitations protectedCitationKeys citations
    (cap citations).1.Subperm citations ∧
      (cap citations).1.length ≤ limits.maxAnchors ∧
      ((cap citations).2 = true ↔ ¬ citations.Subperm (cap citations).1) ∧
      (SwapsFit reading protectedCitationKeys limits candidates →
        (reading.filesOf (cap citations).1).card ≤ limits.maxFiles) ∧
      ((∀ visited later, candidates = visited ++ later →
          (reading.filesOf (cap visited).1).card ≤ limits.maxFiles) ↔
        SwapsFit reading protectedCitationKeys limits candidates) := by
  refine ⟨cap_subperm _ _ _ citations, cap_length_le _ _ _ citations,
    cap_truncated_iff _ _ _ citations, ?_, ?_, ?_⟩
  · intro hfit
    exact (cap_files_le_iff _ _ _ citations).mpr (visitAll_files_le hfit)
  · intro hle visited citation later heq hover
    have heq' : prioritizeProtectedCitations protectedCitationKeys citations =
        (visited ++ [citation]) ++ later := by
      rw [List.append_assoc]
      exact heq
    have hcard := (cap_files_le_iff _ _ _ _).mp (hle (visited ++ [citation]) later heq')
    rw [prioritize_of_append heq', visitAll_concat] at hcard
    have := visit_overflowing hover
    omega
  · intro hfit visited later heq
    apply (cap_files_le_iff _ _ _ visited).mpr
    rw [prioritize_of_append heq]
    apply visitAll_files_le
    intro earlier citation rest hvisited
    apply hfit earlier citation (rest ++ later)
    rw [heq, hvisited, List.append_assoc]
    rfl

/-! A packet may span one file and two classes of a document are kept: that the first one is also
defined in a source file puts a second file in the packet. -/

def documentReading : CitationReading Nat Unit where
  packetEvidenceRole citation :=
    if citation.displayName = "SourceGroup" then some .sourceGroupConfiguration
    else some .indexingWorkQueue
  packetClaimKeyForCitation role citation :=
    (if role = .sourceGroupConfiguration then "source-group configuration"
      else "indexing work queue") ++
      ":" ++ String.ofList (normalizeIdentifier citation.displayName.toList)
  retrievalFileRoleFromPath path := if path = "docs/app.rs" then .docs else .source
  packetDisplayPath := id

def classAt (nodeId displayName filePath : String) : AgentCitation Nat Unit where
  nodeId := nodeId
  displayName := displayName
  kind := .classNode
  filePath := some filePath
  line := some 1
  score := 1
  origin := .indexedSymbol
  resolvable := true
  coverageRole := none
  rest := ()

theorem claim_swap_adds_a_file :
    (capCitationsWithProtected documentReading ∅ ⟨8, 1⟩
      [classAt "1" "BuildIndex" "docs/app.rs", classAt "2" "SourceGroup" "docs/app.rs",
        classAt "3" "BuildIndex" "src/app.rs"]).1.map (·.nodeId) = ["3", "2"] ∧
    ¬ (documentReading.filesOf (capCitationsWithProtected documentReading ∅ ⟨8, 1⟩
      [classAt "1" "BuildIndex" "docs/app.rs", classAt "2" "SourceGroup" "docs/app.rs",
        classAt "3" "BuildIndex" "src/app.rs"]).1).card ≤ 1 := by
  decide

end CodeStory.Packet
