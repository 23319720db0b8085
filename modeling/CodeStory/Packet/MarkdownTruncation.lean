import CodeStory.Packet.OutputBudget

/-!
# Cutting markdown makes an answer shorter

Half of the characters go and a fixed suffix comes. Of more than 256 bytes the half that goes
has more than the 48 that the suffix takes in JSON, however wide the characters are.
-/

set_option autoImplicit false

namespace CodeStory.Packet

open JsonLength
open Utf8Text (Text byteLen)

universe u v

/-! ## One text -/

theorem byteLen_le_four_mul (text : Text) : byteLen text ≤ 4 * text.length := by
  induction text with
  | nil => exact Nat.le_refl 0
  | cons c text ih =>
    have hc : c.utf8Size ≤ 4 := c.utf8Size_le_four
    rw [Utf8Text.byteLen_cons, List.length_cons]
    omega

theorem length_le_byteLen (text : Text) : text.length ≤ byteLen text := by
  induction text with
  | nil => exact Nat.le_refl 0
  | cons c text ih =>
    have hc : 0 < c.utf8Size := c.utf8Size_pos
    rw [Utf8Text.byteLen_cons, List.length_cons]
    omega

theorem textLength_suffix : textLength packetMarkdownTruncationSuffix = 48 := by
  unfold packetMarkdownTruncationSuffix
  rw [String.toList_ofList]
  decide

/-- The half that goes is longer than the suffix: narrow characters are many, and if they are
few then the half that stays is small. -/
theorem suffix_lt_dropped {markdown : Text} (h : markdownTruncationFloorBytes < byteLen markdown) :
    48 < byteLen (markdown.drop (markdown.length / 2)) := by
  unfold markdownTruncationFloorBytes at h
  have hsplit : byteLen (markdown.take (markdown.length / 2)) +
      byteLen (markdown.drop (markdown.length / 2)) = byteLen markdown := by
    rw [← Utf8Text.byteLen_append, List.take_append_drop]
  have hkept := byteLen_le_four_mul (markdown.take (markdown.length / 2))
  have hdropped := length_le_byteLen (markdown.drop (markdown.length / 2))
  rw [List.length_take] at hkept
  rw [List.length_drop] at hdropped
  omega

theorem textLength_truncateMarkdownBlock_lt {markdown : Text}
    (h : markdownTruncationFloorBytes < byteLen markdown) :
    textLength (truncateMarkdownBlock markdown) < textLength markdown := by
  have hdropped := suffix_lt_dropped h
  have hescaped := byteLen_le_textLength (markdown.drop (markdown.length / 2))
  have hsplit : textLength (markdown.take (markdown.length / 2)) +
      textLength (markdown.drop (markdown.length / 2)) = textLength markdown := by
    rw [← textLength_append, List.take_append_drop]
  unfold truncateMarkdownBlock
  rw [textLength_append, textLength_suffix]
  omega

theorem JsonParts.block_markdown_lt {kept markdown : Text}
    (h : textLength kept < textLength markdown) :
    JsonParts.block (.markdown kept) < JsonParts.block (.markdown markdown) := by
  unfold block quotedLength objectLength arrayLength
  simp only [List.map_cons, List.map_nil, List.sum_cons, List.sum_nil, List.length_cons,
    List.length_nil]
  omega

variable {S : Type u} {R : Type v}

/-! ## One block of an answer -/

namespace AgentAnswer
variable {answer : AgentAnswer S R} {sectionIndex blockIndex : Nat}

theorem sections_setBlock (block : AgentResponseBlock) (i : Nat) :
    (answer.setBlock sectionIndex blockIndex block).sections[i]? =
      (answer.sections[i]?).map fun responseSection =>
        if sectionIndex = i then
          { responseSection with blocks := responseSection.blocks.set blockIndex block }
        else responseSection := by
  unfold setBlock
  dsimp only
  rw [List.getElem?_modify]
  rfl

theorem sections_setBlock_ne (block : AgentResponseBlock) {i : Nat} (h : i ≠ sectionIndex) :
    (answer.setBlock sectionIndex blockIndex block).sections[i]? = answer.sections[i]? := by
  rw [sections_setBlock]
  simp only [if_neg (Ne.symm h), Option.map_id_fun']
  rfl

theorem block?_setBlock_ne (block : AgentResponseBlock) {i j : Nat}
    (h : (i, j) ≠ (sectionIndex, blockIndex)) :
    (answer.setBlock sectionIndex blockIndex block).block? i j = answer.block? i j := by
  unfold block?
  by_cases hi : i = sectionIndex
  · subst hi
    have hj : blockIndex ≠ j := by
      rintro rfl
      exact h rfl
    rw [sections_setBlock]
    cases answer.sections[i]? with
    | none => rfl
    | some responseSection =>
      simp only [Option.map_some, Option.bind_some, if_true]
      exact List.getElem?_set_ne hj
  · rw [sections_setBlock_ne block hi]

theorem block?_setBlock {old : AgentResponseBlock} (block : AgentResponseBlock)
    (h : answer.block? sectionIndex blockIndex = some old) :
    (answer.setBlock sectionIndex blockIndex block).block? sectionIndex blockIndex =
      some block := by
  obtain ⟨responseSection, hsection, hblock⟩ := Option.bind_eq_some_iff.mp h
  unfold block?
  rw [sections_setBlock, hsection]
  simp only [Option.map_some, Option.bind_some, if_true]
  exact List.getElem?_set_self (List.getElem?_eq_some_iff.mp hblock).1

/-- A shorter block in its place makes the answer shorter. -/
theorem answer_setBlock_lt (json : JsonParts S R) {old block : AgentResponseBlock}
    (h : answer.block? sectionIndex blockIndex = some old)
    (hlt : JsonParts.block block < JsonParts.block old) :
    json.answer (answer.setBlock sectionIndex blockIndex block) < json.answer answer := by
  obtain ⟨responseSection, hsection, hblock⟩ := Option.bind_eq_some_iff.mp h
  obtain ⟨hi, hsectionAt⟩ := List.getElem?_eq_some_iff.mp hsection
  obtain ⟨hj, hblockAt⟩ := List.getElem?_eq_some_iff.mp hblock
  have hblocks : arrayLength ((responseSection.blocks.set blockIndex block).map JsonParts.block) <
      arrayLength (responseSection.blocks.map JsonParts.block) := by
    rw [List.map_set]
    apply arrayLength_set_lt (by rwa [List.length_map])
    rwa [List.getElem_map, hblockAt]
  have hshorter : JsonParts.responseSection
      { responseSection with blocks := responseSection.blocks.set blockIndex block } <
        JsonParts.responseSection responseSection := by
    unfold JsonParts.responseSection objectLength arrayLength
    unfold arrayLength at hblocks
    simp only [List.map_cons, List.map_nil, List.sum_cons, List.sum_nil, List.length_cons,
      List.length_nil] at hblocks ⊢
    omega
  have hsections : (answer.setBlock sectionIndex blockIndex block).sections =
      answer.sections.set sectionIndex
        { responseSection with blocks := responseSection.blocks.set blockIndex block } := by
    unfold setBlock
    dsimp only
    rw [List.modify_eq_set_getElem?, hsection]
    rfl
  unfold JsonParts.answer
  apply objectLength_cons_lt
  rw [hsections, List.map_set]
  apply arrayLength_set_lt (by rwa [List.length_map])
  rwa [List.getElem_map, hsectionAt]

/-! ## The block that is cut -/

/-- It is a markdown block, and long enough. -/
def IsCandidate (answer : AgentAnswer S R) (candidate : TruncationCandidate) : Prop :=
  ∃ markdown,
    answer.block? candidate.sectionIndex candidate.blockIndex = some (.markdown markdown) ∧
      candidate.len = byteLen markdown

theorem considerBlock_isCandidate {responseSection : AgentResponseSection} {i : Nat}
    (hsection : answer.sections[i]? = some responseSection)
    {found : Option TruncationCandidate} (hfound : ∀ c ∈ found, IsCandidate answer c)
    {entry : AgentResponseBlock × Nat} (hentry : entry ∈ responseSection.blocks.zipIdx) :
    ∀ c ∈ considerBlock responseSection.id i found entry, IsCandidate answer c := by
  obtain ⟨block, j⟩ := entry
  have hblock : responseSection.blocks[j]? = some block := List.mem_zipIdx_iff_getElem?.mp hentry
  have hat : answer.block? i j = some block := by
    unfold block?
    rw [hsection]
    exact hblock
  intro c hc
  unfold considerBlock at hc
  cases block with
  | mermaid graphId => exact hfound c hc
  | markdown markdown =>
    dsimp only at hc
    have hnew : ∀ {priority : Nat}, c = ⟨i, j, priority, byteLen markdown⟩ →
      IsCandidate answer c := by
      rintro priority rfl
      exact ⟨markdown, hat, rfl⟩
    split at hc
    · exact hfound c hc
    · split at hc
      · exact hnew (Option.mem_some.mp hc).symm
      · rename_i existing
        split at hc
        · exact hnew (Option.mem_some.mp hc).symm
        · exact hfound c hc

theorem nextMarkdownTruncationCandidate_spec :
    ∀ c ∈ answer.nextMarkdownTruncationCandidate, IsCandidate answer c := by
  unfold nextMarkdownTruncationCandidate
  refine List.foldlRecOn (motive := fun found => ∀ c ∈ found, IsCandidate answer c)
    answer.sections.zipIdx _ ?_ ?_
  · intro c hc
    cases hc
  · intro found hfound entry hentry
    have hsection : answer.sections[entry.2]? = some entry.1 :=
      List.mem_zipIdx_iff_getElem?.mp hentry
    refine List.foldlRecOn (motive := fun found => ∀ c ∈ found, IsCandidate answer c)
      entry.1.blocks.zipIdx _ hfound ?_
    intro found hfound block hblock
    exact considerBlock_isCandidate hsection hfound hblock

end AgentAnswer

/-! ## Rounds -/

theorem truncationRound_spec {json : JsonParts S R} {byteCap : Nat} {answer cut : AgentAnswer S R}
    (h : truncationRound json byteCap answer = some cut) :
    ∃ sectionIndex blockIndex markdown,
      answer.block? sectionIndex blockIndex = some (.markdown markdown) ∧
        markdownTruncationFloorBytes < byteLen markdown ∧
        cut = answer.setBlock sectionIndex blockIndex
          (.markdown (truncateMarkdownBlock markdown)) := by
  unfold truncationRound at h
  split at h
  · cases h
  split at h
  · cases h
  rename_i candidate hcandidate
  split at h
  · cases h
  rename_i hlen
  split at h
  · rename_i markdown hblock
    obtain ⟨other, hother, hotherLen⟩ :=
      AgentAnswer.nextMarkdownTruncationCandidate_spec candidate hcandidate
    obtain rfl : markdown = other := by
      rw [hblock] at hother
      cases hother
      rfl
    exact ⟨_, _, markdown, hblock, by omega, (Option.some.inj h).symm⟩
  · cases h

theorem truncationRound_lt {json : JsonParts S R} {byteCap : Nat} {answer cut : AgentAnswer S R}
    (h : truncationRound json byteCap answer = some cut) :
    json.answer cut < json.answer answer := by
  obtain ⟨sectionIndex, blockIndex, markdown, hblock, hlong, rfl⟩ := truncationRound_spec h
  apply AgentAnswer.answer_setBlock_lt json hblock
  exact JsonParts.block_markdown_lt (textLength_truncateMarkdownBlock_lt hlong)

/-- A round that truncates makes the answer shorter. It touches one block, of more than 256
bytes, of which it keeps a first part and puts the suffix after it. -/
theorem truncation_round_shrinks (json : JsonParts S R) {byteCap : Nat}
    {answer cut : AgentAnswer S R} (h : truncationRound json byteCap answer = some cut) :
    json.answer cut < json.answer answer ∧
      ∃ sectionIndex blockIndex kept dropped,
        answer.block? sectionIndex blockIndex = some (.markdown (kept ++ dropped)) ∧
        256 < byteLen (kept ++ dropped) ∧
        cut = answer.setBlock sectionIndex blockIndex
          (.markdown (kept ++ packetMarkdownTruncationSuffix)) ∧
        cut.block? sectionIndex blockIndex =
          some (.markdown (kept ++ packetMarkdownTruncationSuffix)) ∧
        (∀ i j, (i, j) ≠ (sectionIndex, blockIndex) → cut.block? i j = answer.block? i j) ∧
        (∀ i, i ≠ sectionIndex → cut.sections[i]? = answer.sections[i]?) := by
  refine ⟨truncationRound_lt h, ?_⟩
  obtain ⟨sectionIndex, blockIndex, markdown, hblock, hlong, rfl⟩ := truncationRound_spec h
  have hsplit : markdown.take (markdown.length / 2) ++ markdown.drop (markdown.length / 2) =
      markdown := List.take_append_drop _ _
  refine ⟨sectionIndex, blockIndex, markdown.take (markdown.length / 2),
    markdown.drop (markdown.length / 2), ?_, ?_, rfl, ?_, ?_, ?_⟩
  · rw [hsplit]
    exact hblock
  · rw [hsplit]
    exact hlong
  · exact AgentAnswer.block?_setBlock _ hblock
  · intro i j hne
    exact AgentAnswer.block?_setBlock_ne _ hne
  · intro i hne
    exact AgentAnswer.sections_setBlock_ne _ hne

/-- The answer of one section with one block, of 64 wide characters and a narrow one. -/
def wideAnswer : AgentAnswer Unit Unit where
  sections := [⟨"diagrams".toList, [], [.markdown (List.replicate 64 '😀' ++ ['a'])]⟩]
  citations := []
  graphs := []
  retrievalTrace := ⟨[], 0, none, false, 0, [], [], [], [], none, ()⟩
  rest := ()

def noMembers : JsonParts Unit Unit := ⟨fun _ => [], fun _ => 0⟩

/-- 33 of the 65 characters go. -/
theorem wide_round_shrinks :
    ∃ cut, truncationRound noMembers 0 wideAnswer = some cut ∧
      cut.block? 0 0 =
        some (.markdown (List.replicate 32 '😀' ++ packetMarkdownTruncationSuffix)) ∧
      noMembers.answer cut < noMembers.answer wideAnswer := by
  have hround : truncationRound noMembers 0 wideAnswer =
      some (wideAnswer.setBlock 0 0
        (.markdown (List.replicate 32 '😀' ++ packetMarkdownTruncationSuffix))) := by
    have hover : ¬ noMembers.answer wideAnswer ≤ 0 :=
      Nat.not_le.mpr (Nat.lt_of_lt_of_le Nat.two_pos (two_le_objectLength _))
    have hcandidate : wideAnswer.nextMarkdownTruncationCandidate = some ⟨0, 0, 0, 257⟩ := by
      decide
    unfold truncationRound
    rw [if_neg hover, hcandidate]
    rfl
  exact ⟨_, hround, rfl, (truncation_round_shrinks noMembers hround).1⟩

end CodeStory.Packet
