import Mathlib.Algebra.Ring.Nat
import CodeStory.Retrieval.QueryPlan

/-!
# The budgets of the stages

A plan gives every stage a time budget. Asked for less than they add up to, a broad query has
them scaled down. Sums are checked as in a debug build, where an overflow stops the program;
subtraction of natural numbers saturates, as `saturating_sub` does.
-/

set_option autoImplicit false

namespace CodeStory.Retrieval

structure BudgetedStage where
  stage : PlannedStage
  budgetMs : Nat
  deriving DecidableEq, Repr

def u64Max : Nat := 2 ^ 64 - 1

def saturatingMul (a b : Nat) : Nat := min (a * b) u64Max

def plannedBudget (stages : List BudgetedStage) : Nat := (stages.map (·.budgetMs)).sum

/-! ## Scaling -/

section Scale
variable (totalBudgetMs plannedTotal : Nat)

/-- The budget of a stage that others follow. -/
def scaledBudget (remaining stagesLeft : Nat) (stage : BudgetedStage) : Nat :=
  let scaled := saturatingMul stage.budgetMs totalBudgetMs / plannedTotal
  min (max scaled 1) (remaining - stagesLeft)

/-- The loop of `scale_stage_budgets`. -/
def scaleFrom : Nat → List BudgetedStage → List BudgetedStage
  | _, [] => []
  | remaining, [stage] => [{ stage with budgetMs := max remaining 1 }]
  | remaining, stage :: rest =>
    let budget := scaledBudget totalBudgetMs plannedTotal remaining rest.length stage
    { stage with budgetMs := budget } :: scaleFrom (remaining - budget) rest

/-- No subtraction of the loop saturates. -/
def SubtractionsFit : Nat → List BudgetedStage → Prop
  | _, [] => True
  | _, [_] => True
  | remaining, stage :: rest =>
    let budget := scaledBudget totalBudgetMs plannedTotal remaining rest.length stage
    rest.length ≤ remaining ∧ budget ≤ remaining ∧ SubtractionsFit (remaining - budget) rest

end Scale

/-- `none` where the sum overflows. -/
def scaleStageBudgets (stages : List BudgetedStage) (totalBudgetMs : Nat) :
    Option (List BudgetedStage) :=
  if plannedBudget stages ≤ u64Max then
    if stages = [] ∨ plannedBudget stages = 0 then some stages
    else
      some (scaleFrom totalBudgetMs (plannedBudget stages) (max totalBudgetMs stages.length) stages)
  else none

/-! ## What the loop hands out -/

section Loop
variable (totalBudgetMs plannedTotal : Nat)

/-- At least one, and one is left for each of the others. -/
theorem scaledBudget_bounds {remaining stagesLeft : Nat} (h : stagesLeft < remaining)
    (stage : BudgetedStage) :
    1 ≤ scaledBudget totalBudgetMs plannedTotal remaining stagesLeft stage ∧
      scaledBudget totalBudgetMs plannedTotal remaining stagesLeft stage ≤
        remaining - stagesLeft := by
  unfold scaledBudget
  dsimp only
  constructor
  · apply Nat.le_min.mpr
    exact ⟨Nat.le_max_right _ _, by omega⟩
  · exact Nat.min_le_right _ _

theorem scaleFrom_stages (remaining : Nat) (stages : List BudgetedStage) :
    (scaleFrom totalBudgetMs plannedTotal remaining stages).map (·.stage) =
      stages.map (·.stage) := by
  induction stages generalizing remaining with
  | nil => rfl
  | cons stage rest ih =>
    cases rest with
    | nil => rfl
    | cons next rest =>
      unfold scaleFrom
      dsimp only
      rw [List.map_cons, ih]
      rfl

/-- As long as every stage left can have one, all that remains is handed out. -/
theorem scaleFrom_spec {remaining : Nat} {stages : List BudgetedStage} (hne : stages ≠ [])
    (h : stages.length ≤ remaining) :
    (∀ stage ∈ scaleFrom totalBudgetMs plannedTotal remaining stages, 1 ≤ stage.budgetMs) ∧
      plannedBudget (scaleFrom totalBudgetMs plannedTotal remaining stages) = remaining ∧
      SubtractionsFit totalBudgetMs plannedTotal remaining stages := by
  induction stages generalizing remaining with
  | nil => exact absurd rfl hne
  | cons stage rest ih =>
    cases rest with
    | nil =>
      have hpos : max remaining 1 = remaining := by
        rw [List.length_singleton] at h
        omega
      unfold scaleFrom SubtractionsFit plannedBudget
      rw [hpos]
      refine ⟨?_, by simp, trivial⟩
      intro scaled hscaled
      rw [List.mem_singleton.mp hscaled]
      exact h
    | cons next rest =>
      have hlength : (next :: rest).length < remaining := by
        rw [List.length_cons] at h
        omega
      obtain ⟨hone, hroom⟩ := scaledBudget_bounds totalBudgetMs plannedTotal hlength stage
      unfold scaleFrom SubtractionsFit
      dsimp only
      generalize scaledBudget totalBudgetMs plannedTotal remaining (next :: rest).length stage =
        budget at *
      obtain ⟨hmin, hsum, hfit⟩ :=
        ih (List.cons_ne_nil next rest) (by omega : _ ≤ remaining - budget)
      refine ⟨?_, ?_, by omega, by omega, hfit⟩
      · intro scaled hscaled
        rcases List.mem_cons.mp hscaled with rfl | hscaled
        · exact hone
        · exact hmin scaled hscaled
      · have hcons : plannedBudget ({ stage with budgetMs := budget } ::
            scaleFrom totalBudgetMs plannedTotal (remaining - budget) (next :: rest)) =
              budget + plannedBudget
                (scaleFrom totalBudgetMs plannedTotal (remaining - budget) (next :: rest)) := rfl
        omega

end Loop

theorem scaleStageBudgets_eq {stages : List BudgetedStage} (totalBudgetMs : Nat)
    (hne : stages ≠ []) (hpos : 0 < plannedBudget stages)
    (hfits : plannedBudget stages ≤ u64Max) :
    scaleStageBudgets stages totalBudgetMs =
      some (scaleFrom totalBudgetMs (plannedBudget stages) (max totalBudgetMs stages.length)
        stages) := by
  have hcond : ¬ (stages = [] ∨ plannedBudget stages = 0) := by
    rintro (hnil | hzero)
    · exact hne hnil
    · omega
  unfold scaleStageBudgets
  rw [if_pos hfits, if_neg hcond]

/-- Every stage gets at least 1 ms, and together they get the total budget, or 1 ms each where
that is more. -/
theorem scaled_budgets_add_up {stages : List BudgetedStage} (totalBudgetMs : Nat)
    (hne : stages ≠ []) (hpos : 0 < plannedBudget stages)
    (hfits : plannedBudget stages ≤ u64Max) :
    ∃ scaled, scaleStageBudgets stages totalBudgetMs = some scaled ∧
      scaled.map (·.stage) = stages.map (·.stage) ∧
      (∀ stage ∈ scaled, 1 ≤ stage.budgetMs) ∧
      plannedBudget scaled = max totalBudgetMs stages.length ∧
      SubtractionsFit totalBudgetMs (plannedBudget stages) (max totalBudgetMs stages.length)
        stages := by
  refine ⟨scaleFrom totalBudgetMs (plannedBudget stages) (max totalBudgetMs stages.length) stages,
    scaleStageBudgets_eq totalBudgetMs hne hpos hfits, ?_, ?_⟩
  · exact scaleFrom_stages _ _ _ stages
  · exact scaleFrom_spec _ _ hne (Nat.le_max_right _ _)

def unevenStages : List BudgetedStage :=
  [⟨⟨.stage1Lexical, 48⟩, 500⟩, ⟨⟨.stage1bSemantic, 40⟩, 0⟩, ⟨⟨.stage2ScipExpand, 20⟩, 90⟩]

/-- The first product saturates, and the stage without a budget gets its millisecond. -/
theorem saturating_budgets_add_up :
    ∃ scaled, scaleStageBudgets unevenStages (2 ^ 60) = some scaled ∧
      (∀ stage ∈ scaled, 1 ≤ stage.budgetMs) ∧ plannedBudget scaled = 2 ^ 60 := by
  have hne : unevenStages ≠ [] := List.cons_ne_nil _ _
  obtain ⟨scaled, hscaled, -, hone, hsum, -⟩ :=
    scaled_budgets_add_up (2 ^ 60) hne (by decide) (by decide)
  exact ⟨scaled, hscaled, hone, hsum⟩

end CodeStory.Retrieval
