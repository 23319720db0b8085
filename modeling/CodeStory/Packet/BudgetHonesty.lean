import CodeStory.Packet.MarkdownTruncation

/-!
# What a packet's budget says about its size

The size is recorded inside what it measures; four rounds are enough to get it right. Whether
the markers of an oversized packet tell the truth depends on the last rebuild, after which the
size is recorded but not compared with the limit again.
-/

set_option autoImplicit false

namespace CodeStory.Packet

open JsonLength RecordedLength

universe u v

variable {S : Type u} {R : Type v}

theorem toNat_toU32 {n : Nat} : (toU32 n).toNat = min n u32Max := by
  unfold toU32 u32Max
  rw [UInt32.toNat_ofNat']
  omega

theorem toU32_toNat (n : UInt32) : toU32 n.toNat = n := by
  have hsize : n.toNat < 2 ^ 32 := n.toNat_lt
  apply UInt32.toNat_inj.mp
  rw [toNat_toU32]
  unfold u32Max
  omega

/-! ## Recording the size -/

namespace AgentPacket
variable {packet : AgentPacket S R}

@[simp] theorem withOutputBytes_withOutputBytes (n m : UInt32) :
    (packet.withOutputBytes n).withOutputBytes m = packet.withOutputBytes m := rfl

@[simp] theorem budget_withBudget (budget : PacketBudget) :
    (packet.withBudget budget).budget = budget := rfl

@[simp] theorem outputBytes_withOutputBytes (n : UInt32) :
    (packet.withOutputBytes n).budget.used.outputBytes = n := rfl

theorem withOutputBytes_self :
    packet.withOutputBytes packet.budget.used.outputBytes = packet := rfl

end AgentPacket

section Refresh
variable {packetLen : AgentPacket S R → Nat} {packet : AgentPacket S R}

variable (packetLen packet) in
/-- Nothing but the recorded size changes, and what is returned is the length. -/
theorem refreshRounds_spec (rounds : Nat) :
    (refreshRounds packetLen rounds packet).2 =
        packetLen (refreshRounds packetLen rounds packet).1 ∧
      ∃ n, (refreshRounds packetLen rounds packet).1 = packet.withOutputBytes n := by
  induction rounds generalizing packet with
  | zero => exact ⟨rfl, _, rfl⟩
  | succ rounds ih =>
    unfold refreshRounds
    dsimp only
    split
    · exact ⟨rfl, _, rfl⟩
    · obtain ⟨hlen, n, hn⟩ := ih (packet.withOutputBytes (toU32 (packetLen packet)))
      exact ⟨hlen, n, hn⟩

variable {others : Nat}
  (hlen : ∀ n, packetLen (packet.withOutputBytes n) = lengthStating others n.toNat)

include hlen in
/-- Only a size of 32 bits can be recorded. -/
theorem others_lt_of_recorded {n : UInt32}
    (h : n.toNat = packetLen (packet.withOutputBytes n)) : others + 10 < 2 ^ 32 := by
  rw [hlen] at h
  unfold lengthStating at h
  have hn : n.toNat < 2 ^ 32 := n.toNat_lt
  by_cases hlarge : 10 ^ 9 ≤ n.toNat
  · have hten := ten_le_decimalLength hlarge
    omega
  · have hten : decimalLength n.toNat ≤ 10 := decimalLength_le_ten (by omega)
    omega

theorem toNat_toU32_lengthStating (hsmall : others + 10 < 2 ^ 32) {n : Nat} (hn : n < 10 ^ 10) :
    (toU32 (lengthStating others n)).toNat = lengthStating others n := by
  have hrange := (lengthStating_range others hn).2
  rw [toNat_toU32]
  unfold u32Max
  omega

include hlen in
/-- Rounds go through the lengths that are stated one after the other. -/
theorem refreshRounds_eq (hsmall : others + 10 < 2 ^ 32) (rounds : Nat) :
    refreshRounds packetLen rounds packet =
      (packet.withOutputBytes
        (toU32 ((lengthStating others)^[rounds] packet.budget.used.outputBytes.toNat)),
        (lengthStating others)^[rounds + 1] packet.budget.used.outputBytes.toNat) := by
  induction rounds generalizing packet with
  | zero =>
    rw [Function.iterate_zero_apply, toU32_toNat, AgentPacket.withOutputBytes_self]
    exact congrArg (Prod.mk packet) (hlen packet.budget.used.outputBytes)
  | succ rounds ih =>
    have hself := hlen packet.budget.used.outputBytes
    rw [AgentPacket.withOutputBytes_self] at hself
    have hexact := toNat_toU32_lengthStating hsmall
      (show packet.budget.used.outputBytes.toNat < 10 ^ 10 by
        have := packet.budget.used.outputBytes.toNat_lt; omega)
    unfold refreshRounds
    dsimp only
    rw [hself]
    split
    · rename_i hdone
      have hfixed : lengthStating others packet.budget.used.outputBytes.toNat =
          packet.budget.used.outputBytes.toNat := by
        rw [← hexact, ← hdone]
      rw [Function.iterate_fixed hfixed, Function.iterate_fixed hfixed, toU32_toNat,
        AgentPacket.withOutputBytes_self, hfixed]
    · have hlater : ∀ m n, packetLen ((packet.withOutputBytes m).withOutputBytes n) =
          lengthStating others n.toNat := fun _ n => hlen n
      rw [ih (hlater _), AgentPacket.outputBytes_withOutputBytes, hexact,
        AgentPacket.withOutputBytes_withOutputBytes, ← Function.iterate_succ_apply,
        ← Function.iterate_succ_apply]

include hlen in
theorem refresh_settles (hsmall : others + 10 < 2 ^ 32) :
    (refreshPacketOutputBytes packetLen packet).1.budget.used.outputBytes.toNat =
      packetLen (refreshPacketOutputBytes packetLen packet).1 := by
  have hsize : packet.budget.used.outputBytes.toNat < 10 ^ 10 := by
    have := packet.budget.used.outputBytes.toNat_lt
    omega
  have hothers : others + 10 < 10 ^ 10 := by omega
  have hexact := toNat_toU32_lengthStating hsmall (iterate_lengthStating_lt others hothers hsize 3)
  rw [← Function.iterate_succ_apply' (lengthStating others)] at hexact
  unfold refreshPacketOutputBytes
  rw [refreshRounds_eq hlen hsmall, hlen, AgentPacket.outputBytes_withOutputBytes, hexact]
  exact (congrArg (lengthStating others) (lengthStating_settles others hothers hsize)).symm

include hlen in
/-- The size is recorded as it is exactly when it fits into 32 bits whatever is recorded. -/
theorem refresh_settles_iff :
    (refreshPacketOutputBytes packetLen packet).1.budget.used.outputBytes.toNat =
        packetLen (refreshPacketOutputBytes packetLen packet).1 ↔ others + 10 < 2 ^ 32 := by
  constructor
  · intro h
    obtain ⟨-, n, hn⟩ := refreshRounds_spec packetLen packet 4
    unfold refreshPacketOutputBytes at h
    rw [hn] at h
    exact others_lt_of_recorded hlen h
  · exact refresh_settles hlen

end Refresh

/-- From any recorded size the four rounds end with the length, recorded and returned. -/
theorem refresh_records_the_length (packetLen : AgentPacket S R → Nat) (packet : AgentPacket S R)
    (others : Nat)
    (hlen : ∀ n, packetLen (packet.withOutputBytes n) = others + decimalLength n.toNat)
    (hsmall : ∀ n, packetLen (packet.withOutputBytes n) < 2 ^ 32) :
    let refreshed := refreshPacketOutputBytes packetLen packet
    refreshed.2 = packetLen refreshed.1 ∧
      refreshed.1.budget.used.outputBytes.toNat = packetLen refreshed.1 ∧
      ∃ n, refreshed.1 = packet.withOutputBytes n := by
  obtain ⟨hreturned, n, hn⟩ := refreshRounds_spec packetLen packet 4
  have hothers : others + 10 < 2 ^ 32 := by
    have hlast := hsmall (toU32 u32Max)
    rw [hlen, toNat_toU32] at hlast
    have hten : 10 ≤ decimalLength (min u32Max u32Max) := ten_le_decimalLength (by decide)
    omega
  exact ⟨hreturned, refresh_settles hlen hothers, n, hn⟩

/-- A packet of which nothing but the recorded size is looked at. -/
def measuredPacket (outputBytes : UInt32) : AgentPacket Unit Unit where
  answer := wideAnswer
  budget := ⟨.compact, ⟨13, 13, 12, 20, 512⟩, ⟨0, 0, 0, 0, outputBytes⟩, false, [], none⟩
  sufficiency := ⟨[], [], none, ()⟩
  retrievalTraceSummary := ⟨wideAnswer.retrievalTrace, 0, 0, 0⟩
  rest := ()

/-- With 996 other bytes both 999 and 1000 are lengths; from above it is the latter. -/
theorem refresh_near_a_power_of_ten :
    (refreshPacketOutputBytes (fun packet : AgentPacket Unit Unit =>
        996 + decimalLength packet.budget.used.outputBytes.toNat) (measuredPacket 123456)).2 =
      1000 ∧
    ∃ n, (refreshPacketOutputBytes (fun packet : AgentPacket Unit Unit =>
        996 + decimalLength packet.budget.used.outputBytes.toNat) (measuredPacket 123456)).1 =
      (measuredPacket 123456).withOutputBytes n := by
  have hsmall : ∀ n : UInt32, 996 + decimalLength n.toNat < 2 ^ 32 := by
    intro n
    have hten := decimalLength_le_ten (show n.toNat < 10 ^ 10 by have := n.toNat_lt; omega)
    omega
  refine ⟨by decide, ?_⟩
  exact (refresh_records_the_length (fun packet : AgentPacket Unit Unit =>
    996 + decimalLength packet.budget.used.outputBytes.toNat) (measuredPacket 123456) 996
      (fun _ => rfl) hsmall).2.2

/-! ## The budget of the packet that is left -/

section Honest
variable (rules : BudgetRules S R)

/-- What the budget says about the size is so. -/
def HonestBudget (packet : AgentPacket S R) : Prop :=
  let len := rules.json.serializedPacketLen packet
  let limit := packet.budget.limits.maxOutputBytes.toNat
  packet.budget.used.outputBytes.toNat = len ∧
    (limit < len → packet.budget.truncated = true ∧
      "output_bytes" ∈ packet.budget.omittedSections ∧
        "packet_payload" ∈ packet.budget.omittedSections) ∧
    ("output_bytes" ∉ packet.budget.omittedSections →
      "packet_payload" ∉ packet.budget.omittedSections → len ≤ limit)

/-- The bytes of a packet without the digits of the size that it records. -/
def bytesBesideSize (packet : AgentPacket S R) : Nat :=
  rules.json.serializedPacketLen (packet.withOutputBytes 0) - 1

theorem serializedPacketLen_withBudget (packet : AgentPacket S R) (a b : PacketBudget) :
    rules.json.serializedPacketLen (packet.withBudget a) + JsonParts.budget b =
      rules.json.serializedPacketLen (packet.withBudget b) + JsonParts.budget a :=
  objectLength_replace [_] "budget" _ _ (_ :: _ :: rules.json.members packet.rest)

theorem serializedPacketLen_withOutputBytes (packet : AgentPacket S R) (n : UInt32) :
    rules.json.serializedPacketLen (packet.withOutputBytes n) =
      lengthStating (bytesBesideSize rules packet) n.toNat := by
  let used (m : UInt32) : PacketBudgetUsage := { packet.budget.used with outputBytes := m }
  let budget (m : UInt32) : PacketBudget := { packet.budget with used := used m }
  have hzero : decimalLength (0 : UInt32).toNat = 1 := by decide
  have hused : JsonParts.used (used n) + decimalLength (0 : UInt32).toNat =
      JsonParts.used (used 0) + decimalLength n.toNat :=
    objectLength_replace [_, _, _, _] "output_bytes" _ _ []
  have hbudget : JsonParts.budget (budget n) + JsonParts.used (used 0) =
      JsonParts.budget (budget 0) + JsonParts.used (used n) :=
    objectLength_replace [_, _] "used" _ _ [_, _, _]
  have hpacket : rules.json.serializedPacketLen (packet.withOutputBytes n) +
        JsonParts.budget (budget 0) =
      rules.json.serializedPacketLen (packet.withOutputBytes 0) + JsonParts.budget (budget n) :=
    serializedPacketLen_withBudget rules packet _ _
  have hpos : 2 ≤ rules.json.serializedPacketLen (packet.withOutputBytes 0) :=
    two_le_objectLength _
  unfold bytesBesideSize lengthStating
  omega

/-- The bytes of the parts that a rebuild replaces. -/
def dependentBytes (packet : AgentPacket S R) : Nat :=
  rules.json.sufficiency packet.sufficiency + rules.json.traceSummary packet.retrievalTraceSummary

/-- The bytes of what a rebuild puts in their place. -/
def rebuiltDependentBytes (packet : AgentPacket S R) : Nat :=
  rules.json.sufficiency (rules.rebuiltSufficiency packet) +
    rules.json.traceSummary (BudgetRules.rebuiltTraceSummary packet)

/-- The packet, stating the bound as its size, leaves as much of the bound as the parts that depend
on the budget grow by when they are rebuilt. -/
def RebuildFits (bound : Nat) (packet : AgentPacket S R) : Prop :=
  lengthStating (bytesBesideSize rules packet) bound + rebuiltDependentBytes rules packet ≤
    bound + dependentBytes rules packet

theorem bytesBesideSize_rebuild (packet : AgentPacket S R) :
    bytesBesideSize rules (rules.rebuildPacketBudgetDependents packet) +
        dependentBytes rules packet =
      bytesBesideSize rules packet + rebuiltDependentBytes rules packet := by
  let blank := packet.withOutputBytes 0
  let summarised : AgentPacket S R :=
    { blank with retrievalTraceSummary := BudgetRules.rebuiltTraceSummary packet }
  let rebuilt : AgentPacket S R :=
    { summarised with sufficiency := rules.rebuiltSufficiency packet }
  have hsummary : rules.json.serializedPacketLen summarised +
        rules.json.traceSummary packet.retrievalTraceSummary =
      rules.json.serializedPacketLen blank +
        rules.json.traceSummary (BudgetRules.rebuiltTraceSummary packet) :=
    objectLength_replace [_, _, _] "retrieval_trace_summary" _ _ (rules.json.members packet.rest)
  have hsufficiency : rules.json.serializedPacketLen rebuilt +
        rules.json.sufficiency packet.sufficiency =
      rules.json.serializedPacketLen summarised +
        rules.json.sufficiency (rules.rebuiltSufficiency packet) :=
    objectLength_replace [_, _] "sufficiency" _ _ (_ :: rules.json.members packet.rest)
  have hbytes : bytesBesideSize rules packet = rules.json.serializedPacketLen blank - 1 := rfl
  have hrebuilt : bytesBesideSize rules (rules.rebuildPacketBudgetDependents packet) =
      rules.json.serializedPacketLen rebuilt - 1 := rfl
  have hpos : 2 ≤ rules.json.serializedPacketLen blank := two_le_objectLength _
  have hpos' : 2 ≤ rules.json.serializedPacketLen rebuilt := two_le_objectLength _
  unfold dependentBytes rebuiltDependentBytes
  omega

variable {rules} in
theorem rebuildFits_iff {bound : Nat} {packet : AgentPacket S R} :
    RebuildFits rules bound packet ↔
      lengthStating (bytesBesideSize rules (rules.rebuildPacketBudgetDependents packet)) bound ≤
        bound := by
  have hbytes := bytesBesideSize_rebuild rules packet
  unfold RebuildFits lengthStating
  omega

/-! ## Markers -/

section Markers
variable (budget : PacketBudget)

theorem mem_pushOmittedSection {name other : String} :
    other ∈ (budget.pushOmittedSection name).omittedSections ↔
      other ∈ budget.omittedSections ∨ other = name := by
  unfold PacketBudget.pushOmittedSection
  split
  · rename_i hin
    constructor
    · exact Or.inl
    · rintro (hother | rfl)
      · exact hother
      · exact hin
  · dsimp only
    rw [(List.perm_insertionSort _ _).mem_iff, List.mem_append, List.mem_singleton]

@[simp] theorem limits_pushOmittedSection (name : String) :
    (budget.pushOmittedSection name).limits = budget.limits := by
  unfold PacketBudget.pushOmittedSection
  split <;> rfl

@[simp] theorem truncated_pushOmittedSection (name : String) :
    (budget.pushOmittedSection name).truncated = budget.truncated := by
  unfold PacketBudget.pushOmittedSection
  split <;> rfl

theorem overLimit_spec :
    budget.overLimit.limits = budget.limits ∧ budget.overLimit.truncated = true ∧
      "output_bytes" ∈ budget.overLimit.omittedSections ∧
        "packet_payload" ∈ budget.overLimit.omittedSections := by
  unfold PacketBudget.overLimit
  refine ⟨?_, ?_, ?_, ?_⟩
  · rw [limits_pushOmittedSection, limits_pushOmittedSection]
  · rw [truncated_pushOmittedSection, truncated_pushOmittedSection]
  · apply (mem_pushOmittedSection _).mpr
    exact Or.inl ((mem_pushOmittedSection _).mpr (Or.inr rfl))
  · exact (mem_pushOmittedSection _).mpr (Or.inr rfl)

@[simp] theorem used_withinLimit : budget.withinLimit.used = budget.used := rfl

theorem withinLimit_spec :
    budget.withinLimit.limits = budget.limits ∧
      "output_bytes" ∉ budget.withinLimit.omittedSections ∧
        "packet_payload" ∉ budget.withinLimit.omittedSections := by
  unfold PacketBudget.withinLimit PacketBudget.removeOmittedSection
  refine ⟨rfl, ?_, ?_⟩
  · intro hin
    have hfirst := (List.mem_filter.mp hin).1
    have hne := of_decide_eq_true (List.mem_filter.mp hfirst).2
    exact hne rfl
  · intro hin
    have hne := of_decide_eq_true (List.mem_filter.mp hin).2
    exact hne rfl

end Markers

/-! ## The limit stays -/

section Limits

theorem limits_foldl_push (names : List String) (budget : PacketBudget) :
    (names.foldl PacketBudget.pushOmittedSection budget).limits = budget.limits := by
  induction names generalizing budget with
  | nil => rfl
  | cons name names ih => rw [List.foldl_cons, ih, limits_pushOmittedSection]

theorem refresh_spec (packet : AgentPacket S R) :
    (rules.refresh packet).2 = rules.json.serializedPacketLen (rules.refresh packet).1 ∧
      ∃ n, (rules.refresh packet).1 = packet.withOutputBytes n :=
  refreshRounds_spec rules.json.serializedPacketLen packet 4

theorem refresh_limits (packet : AgentPacket S R) :
    (rules.refresh packet).1.budget.limits = packet.budget.limits := by
  obtain ⟨-, n, hn⟩ := refresh_spec rules packet
  rw [hn]
  rfl

theorem trimPass_limits {overBy : Nat} {packet trimmed : AgentPacket S R}
    (h : rules.trimPass overBy packet = some trimmed) :
    trimmed.budget.limits = packet.budget.limits := by
  unfold BudgetRules.trimPass at h
  dsimp only at h
  split at h
  · obtain rfl := Option.some.inj h
    exact limits_foldl_push _ packet.budget
  · split at h
    · obtain rfl := Option.some.inj h
      exact limits_pushOmittedSection packet.budget _
    · split at h
      · obtain rfl := Option.some.inj h
        exact limits_pushOmittedSection packet.budget _
      · cases h

theorem trimPasses_limits (passes : Nat) (packet : AgentPacket S R) :
    (rules.trimPasses passes packet).budget.limits = packet.budget.limits := by
  induction passes generalizing packet with
  | zero => rfl
  | succ passes ih =>
    unfold BudgetRules.trimPasses
    dsimp only
    have hmarked : ((rules.refresh packet).1.withBudget
        (rules.refresh packet).1.budget.overLimit).budget.limits = packet.budget.limits :=
      (overLimit_spec _).1.trans (refresh_limits rules packet)
    split
    · exact refresh_limits rules packet
    · split
      · rename_i trimmed htrimmed
        rw [ih, trimPass_limits rules htrimmed, hmarked]
      · exact hmarked

theorem trimmed_limits (packet : AgentPacket S R) :
    (rules.trimmed packet).1.budget.limits = packet.budget.limits := by
  unfold BudgetRules.trimmed
  rw [refresh_limits, trimPasses_limits]

end Limits

theorem outputBytes_refresh_iff (packet : AgentPacket S R) :
    (rules.refresh packet).1.budget.used.outputBytes.toNat = (rules.refresh packet).2 ↔
      bytesBesideSize rules packet + 10 < 2 ^ 32 := by
  rw [(refresh_spec rules packet).1]
  exact refresh_settles_iff (serializedPacketLen_withOutputBytes rules packet)

/-- Where the rounds end with the length of the packet. -/
theorem refresh_of_bytes {packet : AgentPacket S R} {others : Nat} {n : UInt32}
    (h : bytesBesideSize rules packet = others) (hsmall : others + 10 < 2 ^ 32)
    (hrounds : (lengthStating others)^[4] packet.budget.used.outputBytes.toNat = n.toNat)
    (hlength : lengthStating others n.toNat = n.toNat) :
    rules.refresh packet = (packet.withOutputBytes n, n.toNat) := by
  subst h
  have hrefresh := refreshRounds_eq (serializedPacketLen_withOutputBytes rules packet) hsmall 4
  rw [Function.iterate_succ_apply' _ 4, hrounds, toU32_toNat, hlength] at hrefresh
  exact hrefresh

/-- A recorded size within a bound has no more digits than the bound, also where it is wrong. -/
theorem digits_recorded_le {packet : AgentPacket S R} {bound : Nat}
    (h : (rules.refresh packet).2 ≤ bound) :
    decimalLength (rules.refresh packet).1.budget.used.outputBytes.toNat ≤
      decimalLength bound := by
  by_cases hsmall : bytesBesideSize rules packet + 10 < 2 ^ 32
  · rw [(outputBytes_refresh_iff rules packet).mpr hsmall]
    exact decimalLength_mono h
  · obtain ⟨hreturned, n, hn⟩ := refresh_spec rules packet
    have hrecorded := (rules.refresh packet).1.budget.used.outputBytes.toNat_lt
    rw [hreturned, hn, serializedPacketLen_withOutputBytes] at h
    unfold lengthStating at h
    exact (decimalLength_le_ten (by omega)).trans (ten_le_decimalLength (by omega))

/-- From a size with few enough digits, the size ends within a bound exactly when there is room to
state the bound. -/
theorem refresh_le_iff {packet : AgentPacket S R} {bound : Nat}
    (hsmall : bytesBesideSize rules packet + 10 < 2 ^ 32)
    (hdigits : decimalLength packet.budget.used.outputBytes.toNat ≤ decimalLength bound) :
    (rules.refresh packet).2 ≤ bound ↔
      lengthStating (bytesBesideSize rules packet) bound ≤ bound := by
  have hsize : packet.budget.used.outputBytes.toNat < 10 ^ 10 := by
    have := packet.budget.used.outputBytes.toNat_lt
    omega
  have hothers : bytesBesideSize rules packet + 10 < 10 ^ 10 := by omega
  have hrounds := congrArg Prod.snd
    (refreshRounds_eq (serializedPacketLen_withOutputBytes rules packet) hsmall 4)
  have hreturned : (rules.refresh packet).2 = _ := hrounds
  rw [hreturned]
  constructor
  · refine lengthStating_le_of_fixed _ ?_
    exact lengthStating_settles _ hothers (iterate_lengthStating_lt _ hothers hsize 2)
  · intro hfits
    exact iterate_lengthStating_le _ hfits hdigits 4

/-- Recording the size leaves the markers and the limit alone. -/
theorem honestBudget_refresh_iff (packet : AgentPacket S R) :
    HonestBudget rules (rules.refresh packet).1 ↔
      bytesBesideSize rules packet + 10 < 2 ^ 32 ∧
        (packet.budget.limits.maxOutputBytes.toNat < (rules.refresh packet).2 →
          packet.budget.truncated = true ∧ "output_bytes" ∈ packet.budget.omittedSections ∧
            "packet_payload" ∈ packet.budget.omittedSections) ∧
        ("output_bytes" ∉ packet.budget.omittedSections →
          "packet_payload" ∉ packet.budget.omittedSections →
            (rules.refresh packet).2 ≤ packet.budget.limits.maxOutputBytes.toNat) := by
  have hsize := outputBytes_refresh_iff rules packet
  obtain ⟨hreturned, n, hn⟩ := refresh_spec rules packet
  unfold HonestBudget
  dsimp only
  rw [← hreturned, hsize, hn]
  exact Iff.rfl

/-- The budget is honest exactly when the last rebuild of a packet that trimming brought within its
limit grows it by no more than is left of the limit, and the size fits into 32 bits. -/
theorem budget_is_honest_iff (packet : AgentPacket S R) :
    HonestBudget rules (rules.enforcePacketOutputBudget packet) ↔
      RebuildFits rules u32Max (rules.remarked packet) ∧
        ((rules.trimmed packet).2 ≤ packet.budget.limits.maxOutputBytes.toNat →
          RebuildFits rules packet.budget.limits.maxOutputBytes.toNat (rules.remarked packet)) := by
  have hlimit : (rules.trimmed packet).1.budget.limits = packet.budget.limits :=
    trimmed_limits rules packet
  have hsmall : RebuildFits rules u32Max (rules.remarked packet) ↔
      bytesBesideSize rules (rules.rebuildPacketBudgetDependents (rules.remarked packet)) + 10 <
        2 ^ 32 := by
    have hten : decimalLength u32Max = 10 := by decide
    rw [rebuildFits_iff]
    unfold lengthStating
    rw [hten]
    unfold u32Max
    omega
  have hbudget : (rules.rebuildPacketBudgetDependents (rules.remarked packet)).budget =
      (rules.remarked packet).budget := rfl
  rw [hsmall]
  refine (honestBudget_refresh_iff rules _).trans (and_congr_right fun hfits => ?_)
  rw [hbudget]
  by_cases hover : packet.budget.limits.maxOutputBytes.toNat < (rules.trimmed packet).2
  · have hmarked : (rules.remarked packet).budget = (rules.trimmed packet).1.budget.overLimit := by
      unfold BudgetRules.remarked
      dsimp only
      rw [hlimit, if_pos hover, AgentPacket.budget_withBudget]
    obtain ⟨-, hflag, hbytes, hpayload⟩ := overLimit_spec (rules.trimmed packet).1.budget
    rw [hmarked]
    constructor
    · intro _ hwithin
      omega
    · intro _
      exact ⟨fun _ => ⟨hflag, hbytes, hpayload⟩, fun hnot => absurd hbytes hnot⟩
  · have hwithin : (rules.trimmed packet).2 ≤ packet.budget.limits.maxOutputBytes.toNat :=
      Nat.le_of_not_lt hover
    have hmarked : (rules.remarked packet).budget =
        (rules.trimmed packet).1.budget.withinLimit := by
      unfold BudgetRules.remarked
      dsimp only
      rw [hlimit, if_neg hover, AgentPacket.budget_withBudget]
    have hrecorded : (rules.rebuildPacketBudgetDependents (rules.remarked packet)).budget.used =
        (rules.trimmed packet).1.budget.used := by
      rw [hbudget, hmarked, used_withinLimit]
    have hdigits : decimalLength (rules.rebuildPacketBudgetDependents
        (rules.remarked packet)).budget.used.outputBytes.toNat ≤
          decimalLength packet.budget.limits.maxOutputBytes.toNat := by
      rw [hrecorded]
      exact digits_recorded_le rules hwithin
    obtain ⟨hsame, hbytes, hpayload⟩ := withinLimit_spec (rules.trimmed packet).1.budget
    rw [rebuildFits_iff, ← refresh_le_iff rules hfits hdigits, hmarked, hsame, hlimit]
    constructor
    · rintro ⟨-, hrebuilt⟩ _
      exact hrebuilt hbytes hpayload
    · intro hrebuilt
      refine ⟨fun hlarge => ?_, fun _ _ => hrebuilt hwithin⟩
      have hrebuilt := hrebuilt hwithin
      omega

section Passes
variable {packet refreshed next : AgentPacket S R} {len passes : Nat}
  (hrefresh : rules.refresh packet = (refreshed, len))

include hrefresh

theorem trimPasses_of_over (hover : refreshed.budget.limits.maxOutputBytes.toNat < len)
    (hpass : rules.trimPass (len - refreshed.budget.limits.maxOutputBytes.toNat)
      (refreshed.withBudget refreshed.budget.overLimit) = some next) :
    rules.trimPasses (passes + 1) packet = rules.trimPasses passes next := by
  conv => lhs; unfold BudgetRules.trimPasses
  dsimp only
  rw [hrefresh, if_neg (Nat.not_le.mpr hover), hpass]

theorem trimPasses_of_within (hwithin : len ≤ refreshed.budget.limits.maxOutputBytes.toNat) :
    rules.trimPasses (passes + 1) packet = refreshed := by
  unfold BudgetRules.trimPasses
  dsimp only
  rw [hrefresh, if_pos hwithin]

end Passes

theorem enforced_of_refresh {packet rebuilt enforced : AgentPacket S R} {len : Nat}
    (hrebuilt : rules.rebuildPacketBudgetDependents (rules.remarked packet) = rebuilt)
    (hrefresh : rules.refresh rebuilt = (enforced, len)) :
    rules.enforcePacketOutputBudget packet = enforced := by
  unfold BudgetRules.enforcePacketOutputBudget
  rw [hrebuilt, hrefresh]

end Honest

section Inputs

/-- A partial answer: there is a gap to report once the packet was truncated. -/
def partialRules : BudgetRules Unit (List (String × Nat)) where
  json := ⟨id, fun _ => 0⟩
  buildPacketSufficiency := fun _ _ budget =>
    let gap := "Packet was truncated by Compact budget: ".toList ++
      ", ".toList.intercalate (budget.omittedSections.map (·.toList)) ++ ".".toList
    ⟨["crates/codestory-runtime/src/agent/packet_budget.rs".toList],
      ["crates/codestory-runtime/src/agent/packet_budget.rs".toList], none,
      [("status", stringLength "partial"),
        ("gaps", arrayLength (if budget.truncated then [quotedLength gap] else []))]⟩

def partialAnswer : AgentAnswer Unit (List (String × Nat)) where
  sections := []
  citations := []
  graphs := []
  retrievalTrace := ⟨[], 0, none, false, 0, [], [], [], [], none, []⟩
  rest := []

def partialBudget : PacketBudget :=
  ⟨.compact, ⟨13, 13, 12, 20, 880⟩, ⟨0, 0, 0, 0, 0⟩, false, [], none⟩

/-- A packet that is over its limit only by the paths that need not be opened. -/
def partialPacket : AgentPacket Unit (List (String × Nat)) where
  answer := partialAnswer
  budget := partialBudget
  sufficiency := partialRules.buildPacketSufficiency [] partialAnswer partialBudget
  retrievalTraceSummary := packetRetrievalTraceSummary partialAnswer
  rest := []

/-- What trimming leaves of it. -/
def shortenedPacket : AgentPacket Unit (List (String × Nat)) :=
  { partialPacket with
    budget := (PacketBudget.mk .compact ⟨13, 13, 12, 20, 880⟩ ⟨0, 0, 0, 0, 861⟩ true
      ["avoid_opening", "output_bytes", "packet_payload"] none)
    sufficiency := partialPacket.sufficiency.clearAvoidOpening }

/-- What the last rebuild makes of that. -/
def reportedPacket : AgentPacket Unit (List (String × Nat)) :=
  partialRules.rebuildPacketBudgetDependents
    (shortenedPacket.withBudget shortenedPacket.budget.withinLimit)

theorem bytesBesideSize_shortenedPacket : bytesBesideSize partialRules shortenedPacket = 858 := by
  decide +kernel

theorem refresh_shortenedPacket {n : UInt32} (h : (lengthStating 858)^[4] n.toNat = 861) :
    partialRules.refresh (shortenedPacket.withOutputBytes n) = (shortenedPacket, 861) :=
  @refresh_of_bytes _ _ partialRules (shortenedPacket.withOutputBytes n) 858 861
    bytesBesideSize_shortenedPacket (by decide) h (by decide +kernel)

theorem trimmed_partialPacket : partialRules.trimmed partialPacket = (shortenedPacket, 861) := by
  have hrefresh := @refresh_of_bytes _ _ partialRules partialPacket 918 921
    (by decide +kernel) (by decide) (by decide +kernel) (by decide +kernel)
  have hpasses : partialRules.trimPasses 8 partialPacket = shortenedPacket := by
    rw [trimPasses_of_over partialRules hrefresh (by decide)
      (show _ = some (shortenedPacket.withOutputBytes 921) from rfl)]
    exact trimPasses_of_within partialRules
      (@refresh_shortenedPacket 921 (by decide +kernel)) (by decide)
  unfold BudgetRules.trimmed
  rw [hpasses]
  exact @refresh_shortenedPacket 861 (by decide)

/-- Trimmed it has 861 bytes, and the report of the gap makes that 885. -/
theorem partial_packet_exceeds_unmarked :
    (partialRules.trimmed partialPacket).2 = 861 ∧
      (partialRules.enforcePacketOutputBudget partialPacket).budget.limits.maxOutputBytes = 880 ∧
      partialRules.json.serializedPacketLen
        (partialRules.enforcePacketOutputBudget partialPacket) = 885 ∧
      (partialRules.enforcePacketOutputBudget partialPacket).budget.omittedSections =
        ["avoid_opening"] ∧
      ¬ HonestBudget partialRules (partialRules.enforcePacketOutputBudget partialPacket) := by
  have hmarked : partialRules.remarked partialPacket =
      shortenedPacket.withBudget shortenedPacket.budget.withinLimit := by
    unfold BudgetRules.remarked
    rw [trimmed_partialPacket]
    rfl
  have hbytes : bytesBesideSize partialRules reportedPacket = 882 := by decide
  have hrebuilt : partialRules.rebuildPacketBudgetDependents
      (partialRules.remarked partialPacket) = reportedPacket := by
    rw [hmarked]
    rfl
  have henforced : partialRules.enforcePacketOutputBudget partialPacket =
      reportedPacket.withOutputBytes 885 := by
    apply enforced_of_refresh partialRules hrebuilt
    have hrounds : (lengthStating 882)^[4] 861 = 885 := by decide
    exact @refresh_of_bytes _ _ partialRules reportedPacket 882 885 hbytes (by decide) hrounds
      (by decide)
  have hlen : partialRules.json.serializedPacketLen (reportedPacket.withOutputBytes 885) = 885 := by
    rw [serializedPacketLen_withOutputBytes, hbytes]
    decide
  have homitted : (reportedPacket.withOutputBytes 885).budget.omittedSections =
      ["avoid_opening"] := by
    decide
  rw [trimmed_partialPacket, henforced, hlen, homitted]
  refine ⟨rfl, rfl, rfl, rfl, fun hhonest => ?_⟩
  have hover := hhonest.2.2 (by decide) (by decide)
  rw [hlen] at hover
  exact absurd hover (by decide)

end Inputs

end CodeStory.Packet
