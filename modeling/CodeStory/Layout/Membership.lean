import CodeStory.Layout.Groups

/-!
# Members and made-up hosts

What extracting the members leaves: every member is listed by the host that it was last given, and
the hosts that are made up have different ids and different labels in lower case.
-/

set_option autoImplicit false

namespace CodeStory.Layout

open CodeStory.Graph (EdgeKind NodeKind)

section Rule
variable {nodes : List GraphNode}

/-- Extraction adds members of the graph and makes up hosts for the labels of members. -/
theorem extractMembers_rule {P : MemberExtraction → Prop} (edges : List GraphEdge) (hempty : P {})
    (hadd : ∀ extraction hostId, ∀ node ∈ nodes, P extraction →
      P (extraction.addMember hostId node))
    (hmake : ∀ extraction label, ∀ node ∈ nodes, P extraction →
      P { extraction with
        syntheticHosts :=
          if extraction.syntheticHosts.any (·.id = (syntheticHost label node).id) then
            extraction.syntheticHosts
          else extraction.syntheticHosts ++ [syntheticHost label node] }) :
    P (extractMembers nodes edges) := by
  have hedges : P (edges.foldl (visitMemberEdge nodes) {}) := by
    have hfold : ∀ (edges : List GraphEdge) (extraction : MemberExtraction), P extraction →
        P (edges.foldl (visitMemberEdge nodes) extraction) := by
      intro edges
      induction edges with
      | nil => exact fun _ h => h
      | cons edge edges ih =>
        intro extraction h
        apply ih
        unfold visitMemberEdge
        split
        · exact h
        · rename_i member host hspec
          exact hadd extraction host.id member (memberAndHost_spec hspec).1 h
    exact hfold edges {} hempty
  have hnodes : ∀ (rest : List GraphNode) (search : HostSearch), rest ⊆ nodes →
      P search.extraction → P (rest.foldl visitQualifiedNode search).extraction := by
    intro rest
    induction rest with
    | nil => exact fun _ _ h => h
    | cons node rest ih =>
      intro search hsub h
      have hnode := hsub List.mem_cons_self
      apply ih _ (fun other hother => hsub (List.mem_cons_of_mem _ hother))
      unfold visitQualifiedNode
      split
      · exact h
      · split
        · exact h
        · rename_i label _
          split
          · exact hadd _ _ node hnode h
          · exact hadd _ _ node hnode (hmake _ label node hnode h)
  exact hnodes nodes _ (fun _ h => h) hedges

end Rule

/-! ## Listed members -/

structure Listed (nodes : List GraphNode) (extraction : MemberExtraction) : Prop where
  listed : ∀ id host, extraction.memberHostById.get id = some host →
    ∃ members, extraction.membersByHost.get host = some members ∧ id ∈ members.map (·.id)
  genuine : ∀ host members, extraction.membersByHost.get host = some members →
    ∀ member ∈ members, ∃ node ∈ nodes, member = canonicalMember node ∧
      (extraction.memberHostById.get node.id).isSome
  distinct : ∀ host members, extraction.membersByHost.get host = some members →
    (members.map (·.id)).Nodup

theorem Listed.addMember {nodes : List GraphNode} {extraction : MemberExtraction}
    (h : Listed nodes extraction) (hostId : String) {node : GraphNode} (hnode : node ∈ nodes) :
    Listed nodes (extraction.addMember hostId node) := by
  have hkeep : ∀ {id : String}, (extraction.memberHostById.get id).isSome →
      ((extraction.memberHostById.put node.id hostId).get id).isSome := by
    intro id hid
    rw [SortedMap.get_put]
    split
    · rfl
    · exact hid
  have hown : ((extraction.memberHostById.put node.id hostId).get node.id).isSome := by
    rw [SortedMap.get_put, if_pos rfl]
    rfl
  unfold MemberExtraction.addMember
  dsimp only
  by_cases hknown : ((extraction.membersByHost.get hostId).getD []).any (·.id = node.id) = true
  · rw [if_pos hknown]
    refine ⟨fun id host hget => ?_, fun host members hget member hmember => ?_, h.distinct⟩
    · rw [SortedMap.get_put] at hget
      split at hget
      · rename_i hid
        obtain rfl := Option.some.inj hget
        cases hmembers : extraction.membersByHost.get hostId with
        | none =>
          rw [hmembers] at hknown
          cases hknown
        | some members =>
          rw [hmembers] at hknown
          obtain ⟨member, hmember, heq⟩ := List.any_eq_true.mp hknown
          refine ⟨members, rfl, List.mem_map.mpr ⟨member, hmember, ?_⟩⟩
          exact (of_decide_eq_true heq).trans hid.symm
      · exact h.listed id host hget
    · obtain ⟨other, hother, heq, hsome⟩ := h.genuine host members hget member hmember
      exact ⟨other, hother, heq, hkeep hsome⟩
  · rw [if_neg hknown]
    refine ⟨fun id host hget => ?_, fun host members hget member hmember => ?_,
      fun host members hget => ?_⟩
    · rw [SortedMap.get_put] at hget
      rw [SortedMap.get_put]
      split at hget
      · rename_i hid
        obtain rfl := Option.some.inj hget
        refine ⟨_, if_pos rfl, ?_⟩
        rw [List.map_append, hid]
        exact List.mem_append_right _ List.mem_cons_self
      · obtain ⟨members, hmembers, hmem⟩ := h.listed id host hget
        split
        · rename_i hhost
          refine ⟨_, rfl, ?_⟩
          rw [← hhost, hmembers, List.map_append]
          exact List.mem_append_left _ hmem
        · exact ⟨members, hmembers, hmem⟩
    · rw [SortedMap.get_put] at hget
      split at hget
      · rw [← Option.some.inj hget] at hmember
        rcases List.mem_append.mp hmember with hmember | hmember
        · cases hmembers : extraction.membersByHost.get hostId with
          | none =>
            rw [hmembers] at hmember
            cases hmember
          | some members =>
            rw [hmembers] at hmember
            obtain ⟨other, hother, heq, hsome⟩ := h.genuine hostId members hmembers member hmember
            exact ⟨other, hother, heq, hkeep hsome⟩
        · exact ⟨node, hnode, List.mem_singleton.mp hmember, hown⟩
      · obtain ⟨other, hother, heq, hsome⟩ := h.genuine host members hget member hmember
        exact ⟨other, hother, heq, hkeep hsome⟩
    · rw [SortedMap.get_put] at hget
      split at hget
      · rw [← Option.some.inj hget, List.map_append, List.nodup_append]
        refine ⟨?_, List.nodup_singleton _, ?_⟩
        · cases hmembers : extraction.membersByHost.get hostId with
          | none => exact List.nodup_nil
          | some members => exact h.distinct hostId members hmembers
        · intro a ha b hb heq
          obtain rfl := List.mem_singleton.mp hb
          obtain ⟨member, hmember, hid⟩ := List.mem_map.mp ha
          apply hknown
          exact List.any_eq_true.mpr ⟨member, hmember, decide_eq_true (hid.trans heq)⟩
      · exact h.distinct host members hget

theorem listed_extractMembers (nodes : List GraphNode) (edges : List GraphEdge) :
    Listed nodes (extractMembers nodes edges) := by
  apply extractMembers_rule
  · refine ⟨fun _ _ h => ?_, fun _ _ h => ?_, fun _ _ h => ?_⟩
    · cases h
    · cases h
    · cases h
  · exact fun _ hostId node hnode h => h.addMember hostId hnode
  · exact fun _ _ _ _ h => ⟨h.listed, h.genuine, h.distinct⟩

/-! ## Made-up hosts -/

structure Made (hosts : List GraphNode) : Prop where
  distinct : (hosts.map (·.id)).Nodup
  kind : ∀ host ∈ hosts, host.kind = .classNode
  id : ∀ host ∈ hosts, host.id = syntheticHostId host.label

theorem made_extractMembers (nodes : List GraphNode) (edges : List GraphEdge) :
    Made (extractMembers nodes edges).syntheticHosts := by
  apply extractMembers_rule (P := fun extraction => Made extraction.syntheticHosts)
  · exact ⟨List.nodup_nil, fun _ h => absurd h List.not_mem_nil,
      fun _ h => absurd h List.not_mem_nil⟩
  · exact fun _ _ _ _ h => h
  · intro extraction label node _ h
    dsimp only
    by_cases hknown : extraction.syntheticHosts.any (·.id = (syntheticHost label node).id) = true
    · rw [if_pos hknown]
      exact h
    · rw [if_neg hknown]
      refine ⟨?_, fun host hhost => ?_, fun host hhost => ?_⟩
      · rw [List.map_append, List.nodup_append]
        refine ⟨h.distinct, List.nodup_singleton _, ?_⟩
        intro a ha b hb heq
        obtain rfl := List.mem_singleton.mp hb
        obtain ⟨host, hhost, hid⟩ := List.mem_map.mp ha
        apply hknown
        exact List.any_eq_true.mpr ⟨host, hhost, decide_eq_true (hid.trans heq)⟩
      · rcases List.mem_append.mp hhost with hhost | hhost
        · exact h.kind host hhost
        · rw [List.mem_singleton.mp hhost]
          rfl
      · rcases List.mem_append.mp hhost with hhost | hhost
        · exact h.id host hhost
        · rw [List.mem_singleton.mp hhost]
          rfl

/-! ## Slugs -/

theorem asciiLower_cases (c : Char) :
    SqlText.asciiLower c = c ∧ ¬ ('A' ≤ c ∧ c ≤ 'Z') ∨
      65 ≤ c.toNat ∧ c.toNat ≤ 90 ∧ (SqlText.asciiLower c).toNat = c.toNat + 32 := by
  unfold SqlText.asciiLower
  by_cases hupper : 'A' ≤ c ∧ c ≤ 'Z'
  · have hlow : 65 ≤ c.toNat := UInt32.le_iff_toNat_le.mp hupper.1
    have hhigh : c.toNat ≤ 90 := UInt32.le_iff_toNat_le.mp hupper.2
    have hvalid : (c.toNat + 32).isValidChar := Or.inl (by omega)
    rw [if_pos hupper]
    refine .inr ⟨hlow, hhigh, ?_⟩
    unfold Char.ofNat
    rw [dif_pos hvalid]
    rfl
  · rw [if_neg hupper]
    exact .inl ⟨rfl, hupper⟩

theorem isWhiteSpace_asciiLower (c : Char) :
    Text.isWhiteSpace (SqlText.asciiLower c) = Text.isWhiteSpace c := by
  have hletter : ∀ {d : Char}, 65 ≤ d.toNat → d.toNat ≤ 122 → Text.isWhiteSpace d = false := by
    intro d hlow hhigh
    unfold Text.isWhiteSpace
    simp only [Bool.or_eq_false_iff, Bool.and_eq_false_imp, decide_eq_true_eq,
      decide_eq_false_iff_not, beq_eq_false_iff_ne]
    omega
  rcases asciiLower_cases c with ⟨hsame, -⟩ | ⟨hlow, hhigh, hlower⟩
  · rw [hsame]
  · rw [hletter (by omega) (by omega), hletter hlow (by omega)]

theorem asciiLower_asciiLower (c : Char) :
    SqlText.asciiLower (SqlText.asciiLower c) = SqlText.asciiLower c := by
  rcases asciiLower_cases (SqlText.asciiLower c) with ⟨hsame, -⟩ | ⟨hlow, hhigh, -⟩
  · exact hsame
  · rcases asciiLower_cases c with ⟨hsame, hupper⟩ | ⟨hlow', hhigh', hlower⟩
    · rw [hsame] at hlow hhigh
      exact absurd ⟨UInt32.le_iff_toNat_le.mpr hlow, UInt32.le_iff_toNat_le.mpr hhigh⟩ hupper
    · omega

theorem foldl_slugChar_lower (chars : List Char) (slug : List Char × Bool) :
    (chars.map SqlText.asciiLower).foldl slugChar slug = chars.foldl slugChar slug := by
  induction chars generalizing slug with
  | nil => rfl
  | cons c chars ih =>
    have hstep : slugChar slug (SqlText.asciiLower c) = slugChar slug c := by
      unfold slugChar
      rw [asciiLower_asciiLower]
    rw [List.map_cons, List.foldl_cons, List.foldl_cons, hstep, ih]

theorem trim_lower (label : String) :
    (Text.trim label).toList.map SqlText.asciiLower =
      ((((label.toList.map SqlText.asciiLower).dropWhile Text.isWhiteSpace).reverse.dropWhile
        Text.isWhiteSpace).reverse) := by
  have hspace : Text.isWhiteSpace ∘ SqlText.asciiLower = Text.isWhiteSpace :=
    funext isWhiteSpace_asciiLower
  unfold Text.trim
  rw [String.toList_ofList, List.dropWhile_map, hspace, ← List.map_reverse, List.dropWhile_map,
    hspace, ← List.map_reverse]

/-- The slug of a label does not depend on the case of its letters. -/
theorem syntheticHostId_of_lower {label label' : String}
    (h : SqlText.lower label = SqlText.lower label') :
    syntheticHostId label = syntheticHostId label' := by
  have hlower : label.toList.map SqlText.asciiLower = label'.toList.map SqlText.asciiLower :=
    String.ofList_injective h
  have hfold : (Text.trim label).toList.foldl slugChar ([], false) =
      (Text.trim label').toList.foldl slugChar ([], false) := by
    rw [← foldl_slugChar_lower, trim_lower, hlower, ← trim_lower, foldl_slugChar_lower]
  unfold syntheticHostId slugOf
  rw [hfold]

/-- Made-up hosts that would be merged are one. -/
theorem Made.eq_of_keyOf {hosts : List GraphNode} (h : Made hosts)
    {depthOf : String → Option Int} {center key : String} {host host' : GraphNode}
    (hhost : host ∈ hosts) (hhost' : host' ∈ hosts) (hkey : keyOf depthOf center host = some key)
    (hkey' : keyOf depthOf center host' = some key) : host = host' := by
  have hlabel : ∀ made ∈ hosts, keyOf depthOf center made = some key →
      key = "CLASS:" ++ SqlText.lower made.label := by
    intro made hmade hmadeKey
    unfold keyOf dedupeKeyForNode at hmadeKey
    rw [h.kind made hmade] at hmadeKey
    split at hmadeKey
    · cases hmadeKey
    · exact (Option.some.inj hmadeKey).symm
  have hlabels := (hlabel host hhost hkey).symm.trans (hlabel host' hhost' hkey')
  have hlower : SqlText.lower host.label = SqlText.lower host'.label := by
    have hchars := congrArg String.toList hlabels
    rw [String.toList_append, String.toList_append] at hchars
    exact String.toList_inj.mp (List.append_cancel_left hchars)
  apply List.inj_on_of_nodup_map h.distinct hhost hhost'
  rw [h.id host hhost, h.id host' hhost', syntheticHostId_of_lower hlower]

end CodeStory.Layout
