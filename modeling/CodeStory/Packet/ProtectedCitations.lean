import CodeStory.Packet.CapLimits

/-!
# Protected citations survive the cap

The exact probes and the citations with a protected key are visited first, in that order. As long
as they fit on their own they are all admitted, and from then on every replacement is made behind
them.
-/

set_option autoImplicit false

namespace CodeStory.Packet

universe u v

variable {S : Type u} {R : Type v}
variable (reading : CitationReading S R) (protectedCitationKeys : Finset String)
variable (limits : PacketBudgetLimits)

/-! ## The order of the visits -/

/-- The exact probes. -/
def exactProbes (citations : List (AgentCitation S R)) : List (AgentCitation S R) :=
  citations.filter fun citation => packetCitationProtectionRank protectedCitationKeys citation = 0

/-- The other protected citations. -/
def keyProtected (citations : List (AgentCitation S R)) : List (AgentCitation S R) :=
  citations.filter fun citation => packetCitationProtectionRank protectedCitationKeys citation = 1

def protectedCitations (citations : List (AgentCitation S R)) : List (AgentCitation S R) :=
  citations.filter (packetCitationIsProtected protectedCitationKeys)

variable {protectedCitationKeys}

variable (protectedCitationKeys) in
theorem rank_le_two (citation : AgentCitation S R) :
    packetCitationProtectionRank protectedCitationKeys citation ≤ 2 := by
  unfold packetCitationProtectionRank
  split
  · omega
  · split <;> omega

theorem rank_eq_two {citation : AgentCitation S R}
    (h : packetCitationIsProtected protectedCitationKeys citation = false) :
    packetCitationProtectionRank protectedCitationKeys citation = 2 := by
  have hge := of_decide_eq_false h
  have := rank_le_two protectedCitationKeys citation
  omega

theorem protected_sorted (citations : List (AgentCitation S R)) :
    (protectedCitations protectedCitationKeys citations).insertionSort
        (Selection.RankLe (packetCitationProtectionRank protectedCitationKeys)) =
      exactProbes protectedCitationKeys citations ++
        keyProtected protectedCitationKeys citations := by
  have hprobes : (protectedCitations protectedCitationKeys citations).filter
      (fun c => packetCitationProtectionRank protectedCitationKeys c < 1) =
        exactProbes protectedCitationKeys citations := by
    unfold protectedCitations exactProbes
    rw [List.filter_filter]
    apply List.filter_congr
    intro c _
    unfold packetCitationIsProtected
    rw [← Bool.decide_and]
    apply decide_eq_decide.mpr
    omega
  have hkeys : (protectedCitations protectedCitationKeys citations).filter
      (fun c => ¬ packetCitationProtectionRank protectedCitationKeys c < 1) =
        keyProtected protectedCitationKeys citations := by
    unfold protectedCitations keyProtected
    rw [List.filter_filter]
    apply List.filter_congr
    intro c _
    unfold packetCitationIsProtected
    rw [← Bool.decide_and]
    apply decide_eq_decide.mpr
    omega
  rw [Selection.insertionSort_split _ 1, hprobes, hkeys]
  have hzero : ∀ c ∈ exactProbes protectedCitationKeys citations,
      packetCitationProtectionRank protectedCitationKeys c = 0 :=
    fun c hc => of_decide_eq_true (List.mem_filter.mp hc).2
  have hone : ∀ c ∈ keyProtected protectedCitationKeys citations,
      packetCitationProtectionRank protectedCitationKeys c = 1 :=
    fun c hc => of_decide_eq_true (List.mem_filter.mp hc).2
  rw [Selection.insertionSort_of_constant _ hzero, Selection.insertionSort_of_constant _ hone]

/-- The exact probes are visited first, then the others that are protected. -/
theorem prioritize_eq (citations : List (AgentCitation S R)) :
    prioritizeProtectedCitations protectedCitationKeys citations =
      exactProbes protectedCitationKeys citations ++ keyProtected protectedCitationKeys citations ++
        citations.filter fun c => !packetCitationIsProtected protectedCitationKeys c := by
  have hplain : citations.filter
      (fun c => ¬ packetCitationProtectionRank protectedCitationKeys c < 2) =
        citations.filter fun c => !packetCitationIsProtected protectedCitationKeys c :=
    List.filter_congr fun c _ => decide_not
  have htwo : ∀ c ∈ citations.filter fun c => !packetCitationIsProtected protectedCitationKeys c,
      packetCitationProtectionRank protectedCitationKeys c = 2 := by
    intro c hc
    apply rank_eq_two
    exact Bool.not_eq_eq_eq_not.mp (List.mem_filter.mp hc).2
  unfold prioritizeProtectedCitations
  rw [Selection.insertionSort_split _ 2, hplain, Selection.insertionSort_of_constant _ htwo]
  exact congrArg (· ++ _) (protected_sorted citations)

variable (protectedCitationKeys) in
theorem protected_prioritize (citations : List (AgentCitation S R)) :
    protectedCitations protectedCitationKeys
        (prioritizeProtectedCitations protectedCitationKeys citations) =
      exactProbes protectedCitationKeys citations ++
        keyProtected protectedCitationKeys citations := by
  have hfront : ∀ c ∈ exactProbes protectedCitationKeys citations ++
      keyProtected protectedCitationKeys citations,
      packetCitationIsProtected protectedCitationKeys c = true := by
    intro c hc
    rcases List.mem_append.mp hc with hc | hc
    · have hrank := of_decide_eq_true (List.mem_filter.mp hc).2
      exact decide_eq_true (by omega)
    · have hrank := of_decide_eq_true (List.mem_filter.mp hc).2
      exact decide_eq_true (by omega)
  have hbehind : ∀ c ∈ citations.filter fun c => !packetCitationIsProtected protectedCitationKeys c,
      ¬ packetCitationIsProtected protectedCitationKeys c = true := by
    intro c hc
    exact Bool.eq_false_iff.mp (Bool.not_eq_eq_eq_not.mp (List.mem_filter.mp hc).2)
  rw [prioritize_eq]
  unfold protectedCitations
  rw [List.filter_append, List.filter_eq_self.mpr hfront, List.filter_eq_nil_iff.mpr hbehind,
    List.append_nil]

/-! ## The first loop -/

section Visits

variable [LT S] [DecidableLT S]
variable {reading limits} {st : CapState S R} {citation : AgentCitation S R}

/-- A visit of a citation that is not protected changes only what is kept behind the protected
ones. -/
theorem visit_behind {front others : List (AgentCitation S R)}
    (hkept : st.kept = front ++ others)
    (hfront : ∀ c ∈ front, packetCitationIsProtected protectedCitationKeys c = true)
    (hothers : ∀ c ∈ others, packetCitationIsProtected protectedCitationKeys c = false)
    (hplain : packetCitationIsProtected protectedCitationKeys citation = false) :
    ∃ others', (st.visit reading protectedCitationKeys limits citation).kept = front ++ others' ∧
      ∀ c ∈ others', packetCitationIsProtected protectedCitationKeys c = false := by
  cases visit_outcome reading protectedCitationKeys limits st citation with
  | kept hroom hfits hkept' hfiles hdeferred =>
    refine ⟨others ++ [citation], ?_, ?_⟩
    · rw [hkept', hkept, List.append_assoc]
    · intro c hc
      rcases List.mem_append.mp hc with hc | hc
      · exact hothers c hc
      · obtain rfl := List.mem_singleton.mp hc
        exact hplain
  | replaced index existing hold hspare hfits hkept' hfiles hdeferred =>
    have hbehind : front.length ≤ index := by
      by_contra hlt
      rw [hkept, List.getElem?_append_left (by omega)] at hold
      have hprotected := hfront existing (List.mem_of_getElem? hold)
      rw [hspare] at hprotected
      cases hprotected
    refine ⟨others.set (index - front.length) citation, ?_, ?_⟩
    · rw [hkept', hkept, List.set_append_right _ _ hbehind]
    · intro c hc
      rcases List.mem_or_eq_of_mem_set hc with hc | rfl
      · exact hothers c hc
      · exact hplain
  | deferred hkept' hfiles hdeferred => exact ⟨others, hkept'.trans hkept, hothers⟩

theorem visit_protected (hprotected : packetCitationIsProtected protectedCitationKeys citation)
    (hroom : st.kept.length < limits.maxAnchors)
    (hfits : packetFileFitsLimit (reading.file citation) st.files limits.maxFiles) :
    (st.visit reading protectedCitationKeys limits citation).kept = st.kept ++ [citation] := by
  unfold CapState.visit
  rw [if_pos ⟨hprotected, hroom, hfits⟩]
  rfl

/-- What is kept are the protected citations visited so far and others behind them. -/
theorem visitAll_protected {visited : List (AgentCitation S R)}
    (hsorted : visited.Pairwise
      (Selection.RankLe (packetCitationProtectionRank protectedCitationKeys)))
    (hcount : (protectedCitations protectedCitationKeys visited).length ≤ limits.maxAnchors)
    (hfiles : (reading.filesOf (protectedCitations protectedCitationKeys visited)).card ≤
      limits.maxFiles) :
    ∃ others, (CapState.visitAll reading protectedCitationKeys limits visited).kept =
        protectedCitations protectedCitationKeys visited ++ others ∧
      ∀ c ∈ others, packetCitationIsProtected protectedCitationKeys c = false := by
  induction visited using List.reverseRecOn with
  | nil => exact ⟨[], rfl, fun c hc => absurd hc List.not_mem_nil⟩
  | append_singleton visited citation ih =>
    have happend : protectedCitations protectedCitationKeys (visited ++ [citation]) =
        protectedCitations protectedCitationKeys visited ++
          protectedCitations protectedCitationKeys [citation] := List.filter_append _ _
    obtain ⟨hbefore, -, hlast⟩ := List.pairwise_append.mp hsorted
    rw [happend] at hcount hfiles ⊢
    rw [List.length_append] at hcount
    obtain ⟨others, hkept, hothers⟩ := ih hbefore (by omega)
      ((Finset.card_le_card (TaggedPool.tags_mono (List.subset_append_left _ _))).trans hfiles)
    have hsound := visitAll_sound reading protectedCitationKeys limits visited
    rw [visitAll_concat]
    by_cases hprotected : packetCitationIsProtected protectedCitationKeys citation = true
    · -- the order puts no unprotected citation before it, so nothing stands behind the others yet
      have hall : ∀ c ∈ visited, packetCitationIsProtected protectedCitationKeys c = true := by
        intro c hc
        have hle : packetCitationProtectionRank protectedCitationKeys c ≤
            packetCitationProtectionRank protectedCitationKeys citation :=
          hlast c hc citation List.mem_cons_self
        have hlt := of_decide_eq_true hprotected
        exact decide_eq_true (by omega)
      have hnone : others = [] := by
        apply List.eq_nil_iff_forall_not_mem.mpr
        intro c hc
        have hkeptc : c ∈ (CapState.visitAll reading protectedCitationKeys limits
          visited).kept := by
          rw [hkept]
          exact List.mem_append_right _ hc
        have hvisited := hsound.drawn.subset (List.mem_append_left _ hkeptc)
        have hno := hothers c hc
        rw [hall c hvisited] at hno
        cases hno
      have hone : protectedCitations protectedCitationKeys [citation] = [citation] :=
        List.filter_cons_of_pos hprotected
      rw [hnone, List.append_nil] at hkept
      rw [hone] at hcount hfiles ⊢
      rw [List.length_singleton] at hcount
      refine ⟨[], ?_, fun c hc => absurd hc List.not_mem_nil⟩
      rw [List.append_nil, visit_protected hprotected, hkept]
      · rw [hkept]
        omega
      · rw [hsound.files, hkept]
        by_contra hno
        have := TaggedPool.lt_card_union hno
        unfold CitationReading.filesOf at hfiles
        rw [TaggedPool.tags_concat] at hfiles
        exact absurd hfiles (Nat.not_le.mpr this)
    · have hplain := Bool.eq_false_iff.mpr hprotected
      have hnone : protectedCitations protectedCitationKeys [citation] = [] :=
        List.filter_cons_of_neg hprotected
      rw [hnone, List.append_nil]
      exact visit_behind hkept (fun c hc => (List.mem_filter.mp hc).2) hothers hplain

/-! ## The whole cap -/

variable (reading protectedCitationKeys limits)

/-- Nothing protected is deferred. -/
theorem deferred_unprotected {visited : List (AgentCitation S R)}
    (hsorted : visited.Pairwise
      (Selection.RankLe (packetCitationProtectionRank protectedCitationKeys)))
    (hcount : (protectedCitations protectedCitationKeys visited).length ≤ limits.maxAnchors)
    (hfiles : (reading.filesOf (protectedCitations protectedCitationKeys visited)).card ≤
      limits.maxFiles) :
    ∀ c ∈ (CapState.visitAll reading protectedCitationKeys limits visited).deferred,
      packetCitationIsProtected protectedCitationKeys c = false := by
  obtain ⟨others, hkept, -⟩ := visitAll_protected hsorted hcount hfiles
  have hdrawn := (visitAll_sound reading protectedCitationKeys limits visited).drawn
  have hle := hdrawn.countP_le (packetCitationIsProtected protectedCitationKeys)
  have hfront : (protectedCitations protectedCitationKeys visited).countP
      (packetCitationIsProtected protectedCitationKeys) =
        (protectedCitations protectedCitationKeys visited).length :=
    List.countP_eq_length.mpr fun c hc => (List.mem_filter.mp hc).2
  have hall : visited.countP (packetCitationIsProtected protectedCitationKeys) =
      (protectedCitations protectedCitationKeys visited).length := List.countP_eq_length_filter
  rw [hkept, List.countP_append, List.countP_append, hfront, hall] at hle
  have hnone : (CapState.visitAll reading protectedCitationKeys limits visited).deferred.countP
      (packetCitationIsProtected protectedCitationKeys) = 0 := by omega
  intro c hc
  exact Bool.eq_false_iff.mpr (List.countP_eq_zero.mp hnone c hc)

/-- If the protected citations fit on their own, the cap keeps them all: the exact probes first,
then the others, and the rest behind them; and at no point of the pass is one that has been visited
not kept. -/
theorem protected_citations_survive (citations : List (AgentCitation S R))
    (hcount : (protectedCitations protectedCitationKeys citations).length ≤ limits.maxAnchors)
    (hfiles : (reading.filesOf (protectedCitations protectedCitationKeys citations)).card ≤
      limits.maxFiles) :
    (∃ others,
      (capCitationsWithProtected reading protectedCitationKeys limits citations).1 =
        exactProbes protectedCitationKeys citations ++
          keyProtected protectedCitationKeys citations ++ others ∧
      ∀ c ∈ others, packetCitationIsProtected protectedCitationKeys c = false) ∧
    ∀ visited later,
      prioritizeProtectedCitations protectedCitationKeys citations = visited ++ later →
      ∃ others, (CapState.visitAll reading protectedCitationKeys limits visited).kept =
          protectedCitations protectedCitationKeys visited ++ others ∧
        ∀ c ∈ others, packetCitationIsProtected protectedCitationKeys c = false := by
  have hperm := (prioritize_perm protectedCitationKeys citations).filter
    (packetCitationIsProtected protectedCitationKeys)
  have hsorted := prioritize_pairwise protectedCitationKeys citations
  have hfront := protected_prioritize protectedCitationKeys citations
  have hcount' : (protectedCitations protectedCitationKeys
      (prioritizeProtectedCitations protectedCitationKeys citations)).length ≤
        limits.maxAnchors := hperm.length_eq.trans_le hcount
  have hfiles' : (reading.filesOf (protectedCitations protectedCitationKeys
      (prioritizeProtectedCitations protectedCitationKeys citations))).card ≤
        limits.maxFiles := (congrArg Finset.card (TaggedPool.tags_congr hperm)).trans_le hfiles
  constructor
  · obtain ⟨after, heq, hfilled⟩ := cap_filled reading protectedCitationKeys limits citations
    obtain ⟨taken, htaken, hadded⟩ := hfilled.added
    obtain ⟨others, hkept, hothers⟩ := visitAll_protected hsorted hcount' hfiles'
    refine ⟨others ++ taken, ?_, ?_⟩
    · rw [heq, hadded, hkept, hfront, List.append_assoc]
    · intro c hc
      rcases List.mem_append.mp hc with hc | hc
      · exact hothers c hc
      · apply deferred_unprotected reading protectedCitationKeys limits hsorted hcount' hfiles'
        exact (deferredInOrder_perm _).mem_iff.mp (htaken.subset hc)
  · intro visited later heq
    rw [heq] at hsorted hcount' hfiles'
    have hpart : (protectedCitations protectedCitationKeys visited).Sublist
        (protectedCitations protectedCitationKeys (visited ++ later)) :=
      (List.sublist_append_left _ _).filter _
    apply visitAll_protected (List.pairwise_append.mp hsorted).1
    · exact hpart.length_le.trans hcount'
    · exact (Finset.card_le_card (TaggedPool.tags_mono hpart.subset)).trans hfiles'

end Visits

theorem probe_survives :
    ∃ others, (capCitationsWithProtected documentReading {"2\tsrc/groups.rs\t1"} ⟨2, 2⟩
      [classAt "1" "BuildIndex" "docs/app.rs", classAt "2" "SourceGroup" "src/groups.rs",
        { classAt "3" "BuildIndex" "src/app.rs" with
          coverageRole := some "explicit exact probe" }]).1 =
      [{ classAt "3" "BuildIndex" "src/app.rs" with
          coverageRole := some "explicit exact probe" }] ++
        [classAt "2" "SourceGroup" "src/groups.rs"] ++ others := by
  have h := (protected_citations_survive documentReading {"2\tsrc/groups.rs\t1"} ⟨2, 2⟩
    [classAt "1" "BuildIndex" "docs/app.rs", classAt "2" "SourceGroup" "src/groups.rs",
      { classAt "3" "BuildIndex" "src/app.rs" with
        coverageRole := some "explicit exact probe" }] (by decide) (by decide)).1
  obtain ⟨others, hkept, -⟩ := h
  exact ⟨others, hkept⟩

end CodeStory.Packet
