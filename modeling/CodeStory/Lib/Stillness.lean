import Mathlib.Data.List.Basic

/-!
# Alarms for what stands still

Readings come in the order of time, each with the key of what is watched, or with none while nothing
is. The alarm is raised at the first reading by which a key has stood for a given time.
-/

set_option autoImplicit false

namespace Stillness

universe u
variable {κ : Type u}

structure Reading (κ : Type u) where
  key : Option κ
  time : Nat
  deriving DecidableEq, Repr

/-- The key that stands, and since when. -/
abbrev Standing (κ : Type u) := Option (κ × Nat)

/-- Readings of one key, from a place on: all of these up to one that is late enough. -/
def Outstays (timeout : Nat) (key : κ) (since : Nat) (readings : List (Reading κ)) : Prop :=
  ∃ middle last after, readings = middle ++ last :: after ∧
    (∀ reading ∈ middle, reading.key = some key) ∧ last.key = some key ∧
      timeout ≤ last.time - since

/-- A stretch of readings of one key that lasts for the given time. -/
def Still (timeout : Nat) (readings : List (Reading κ)) : Prop :=
  ∃ key before first after, readings = before ++ first :: after ∧ first.key = some key ∧
    Outstays timeout key first.time after

variable {timeout since : Nat} {key : κ} {standing : Standing κ} {reading : Reading κ}
  {later : List (Reading κ)}

theorem outstays_cons :
    Outstays timeout key since (reading :: later) ↔ reading.key = some key ∧
      (timeout ≤ reading.time - since ∨ Outstays timeout key since later) := by
  constructor
  · rintro ⟨middle, last, after, heq, hmiddle, hlast, hlate⟩
    cases middle with
    | nil =>
      obtain ⟨rfl, rfl⟩ := List.cons.inj heq
      exact ⟨hlast, .inl hlate⟩
    | cons first middle =>
      obtain ⟨rfl, rfl⟩ := List.cons.inj heq
      obtain ⟨hfirst, hrest⟩ := List.forall_mem_cons.mp hmiddle
      exact ⟨hfirst, .inr ⟨middle, last, after, rfl, hrest, hlast, hlate⟩⟩
  · rintro ⟨hkey, hlate | ⟨middle, last, after, rfl, hmiddle, hlast, hlate⟩⟩
    · exact ⟨[], reading, later, rfl, fun _ h => absurd h List.not_mem_nil, hkey, hlate⟩
    · exact ⟨reading :: middle, last, after, rfl, List.forall_mem_cons.mpr ⟨hkey, hmiddle⟩, hlast,
        hlate⟩

theorem still_cons :
    Still timeout (reading :: later) ↔
      (∃ key, reading.key = some key ∧ Outstays timeout key reading.time later) ∨
        Still timeout later := by
  constructor
  · rintro ⟨key, before, first, after, heq, hfirst, hout⟩
    cases before with
    | nil =>
      obtain ⟨rfl, rfl⟩ := List.cons.inj heq
      exact .inl ⟨key, hfirst, hout⟩
    | cons other before =>
      obtain ⟨rfl, rfl⟩ := List.cons.inj heq
      exact .inr ⟨key, before, first, after, rfl, hfirst, hout⟩
  · rintro (⟨key, hkey, hout⟩ | ⟨key, before, first, after, rfl, hfirst, hout⟩)
    · exact ⟨key, [], reading, later, rfl, hkey, hout⟩
    · exact ⟨key, reading :: before, first, after, rfl, hfirst, hout⟩

/-- A later beginning outstays no earlier. -/
theorem Outstays.mono {since' : Nat} (h : Outstays timeout key since later) (hle : since' ≤ since) :
    Outstays timeout key since' later := by
  obtain ⟨middle, last, after, heq, hmiddle, hlast, hlate⟩ := h
  exact ⟨middle, last, after, heq, hmiddle, hlast, by omega⟩

/-- What stands has not begun after the readings to come. -/
def Standing.Begun (standing : Standing κ) (readings : List (Reading κ)) : Prop :=
  ∀ held ∈ standing, ∀ reading ∈ readings, held.2 ≤ reading.time

/-- In the order of time. -/
def InOrder (readings : List (Reading κ)) : Prop :=
  readings.Pairwise fun earlier later => earlier.time ≤ later.time

/-! ## Alarms -/

variable [DecidableEq κ]

def alarmed (timeout : Nat) (standing : Standing κ) (reading : Reading κ) : Bool :=
  standing.any fun held =>
    decide (reading.key = some held.1) && decide (timeout ≤ reading.time - held.2)

def advance (standing : Standing κ) (reading : Reading κ) : Standing κ :=
  match reading.key with
  | none => none
  | some key =>
    match standing with
    | none => some (key, reading.time)
    | some held => if key = held.1 then some held else some (key, reading.time)

/-- Whether an alarm is ever raised. -/
def alarms (timeout : Nat) : Standing κ → List (Reading κ) → Bool
  | _, [] => false
  | standing, reading :: later =>
    alarmed timeout standing reading || alarms timeout (advance standing reading) later

/-- The step of the induction: an alarm now, or what stands afterwards. -/
theorem alarmed_or_advance_iff (hbegun : standing.Begun (reading :: later)) :
    (alarmed timeout standing reading = true ∨
        (∃ held ∈ advance standing reading, Outstays timeout held.1 held.2 later) ∨
          Still timeout later) ↔
      (∃ held ∈ standing, Outstays timeout held.1 held.2 (reading :: later)) ∨
        Still timeout (reading :: later) := by
  unfold alarmed advance
  cases hkey : reading.key with
  | none =>
    cases standing with
    | none => simp [still_cons, hkey]
    | some held => simp [still_cons, outstays_cons, hkey]
  | some key =>
    cases standing with
    | none => simp [still_cons, hkey]
    | some held =>
      by_cases hsame : key = held.1
      · have hearlier : held.2 ≤ reading.time := hbegun held rfl reading List.mem_cons_self
        have hmono : Outstays timeout key reading.time later →
          Outstays timeout held.1 held.2 later :=
          fun h => hsame ▸ h.mono hearlier
        simp only [still_cons, outstays_cons, hkey, hsame, Option.any_some, decide_true,
          Bool.true_and, decide_eq_true_eq, if_true, Option.mem_def, Option.some.injEq,
          exists_eq_left', true_and]
        rw [← hsame]
        rw [← hsame] at hmono
        tauto
      · simp [still_cons, outstays_cons, hkey, hsame]

/-- Readings in order raise an alarm exactly if a key stands still among them, or what stood before
goes on to. -/
theorem alarms_iff_outstays (hbegun : standing.Begun later) (horder : InOrder later) :
    alarms timeout standing later = true ↔
      (∃ held ∈ standing, Outstays timeout held.1 held.2 later) ∨ Still timeout later := by
  induction later generalizing standing with
  | nil =>
    refine iff_of_false (by simp [alarms]) ?_
    rintro (⟨held, -, middle, last, after, heq, -⟩ | ⟨key, before, first, after, heq, -⟩)
    · exact absurd heq.symm (List.append_ne_nil_of_right_ne_nil _ (List.cons_ne_nil _ _))
    · exact absurd heq.symm (List.append_ne_nil_of_right_ne_nil _ (List.cons_ne_nil _ _))
  | cons reading later ih =>
    obtain ⟨hfirst, hrest⟩ := List.pairwise_cons.mp horder
    have hnext : (advance standing reading).Begun later := by
      intro held hheld other hmem
      unfold advance at hheld
      split at hheld
      · cases hheld
      · split at hheld
        · obtain rfl := Option.some.inj hheld
          exact hfirst other hmem
        · rename_i before
          split at hheld
          · obtain rfl := Option.some.inj hheld
            exact hbegun before rfl other (List.mem_cons_of_mem _ hmem)
          · obtain rfl := Option.some.inj hheld
            exact hfirst other hmem
    unfold alarms
    rw [Bool.or_eq_true, ih hnext hrest, alarmed_or_advance_iff hbegun]

/-- From nothing, an alarm is raised exactly if a key stands still for the given time. -/
theorem alarms_iff_still (horder : InOrder later) :
    alarms timeout none later = true ↔ Still timeout later := by
  have hbegun : Standing.Begun (none : Standing κ) later := fun _ h => nomatch h
  rw [alarms_iff_outstays hbegun horder]
  constructor
  · rintro (⟨held, hheld, -⟩ | hstill)
    · cases hheld
    · exact hstill
  · exact .inr

end Stillness
