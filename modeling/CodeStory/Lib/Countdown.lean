import CodeStory.Lib.Transition

/-!
# Systems that run down

A measure that every action of a kind lowers by one bounds the runs of these actions. If one of them
is enabled as long as the measure is positive, the runs that cannot be continued end where it is
zero.
-/

set_option autoImplicit false

namespace Transition

universe u v
variable {S : Type u} {A : Type v}

structure Countdown (step : S → A → Option S) (I : S → Prop) (kind : A → Prop) (measure : S → Nat) :
    Prop where
  keep : ∀ {s a t}, I s → step s a = some t → I t
  down : ∀ {s a t}, I s → kind a → step s a = some t → measure t + 1 = measure s
  enabled : ∀ {s}, I s → 0 < measure s → ∃ a t, kind a ∧ step s a = some t

namespace Countdown

variable {step : S → A → Option S} {I : S → Prop} {kind : A → Prop} {measure : S → Nat} {s t : S}
  {as : List A}

theorem length_add (h : Countdown step I kind measure) (hkind : ∀ a ∈ as, kind a) (hs : I s)
    (hrun : run step s as = some t) : I t ∧ as.length + measure t = measure s := by
  induction as generalizing s with
  | nil =>
    obtain rfl : s = t := Option.some.inj hrun
    exact ⟨hs, Nat.zero_add _⟩
  | cons a as ih =>
    obtain ⟨m, hm, hrun⟩ := exists_of_run_cons hrun
    have hdown := h.down hs (hkind a List.mem_cons_self) hm
    obtain ⟨ht, hlength⟩ := ih (fun b hb => hkind b (List.mem_cons_of_mem _ hb)) (h.keep hs hm) hrun
    refine ⟨ht, ?_⟩
    rw [List.length_cons]
    omega

theorem eq_zero_of_stuck (h : Countdown step I kind measure) (hs : I s)
    (hstuck : ∀ a, kind a → step s a = none) : measure s = 0 := by
  by_contra hpos
  obtain ⟨a, t, hkind, hstep⟩ := h.enabled hs (Nat.pos_of_ne_zero hpos)
  rw [hstuck a hkind] at hstep
  cases hstep

theorem exists_run (h : Countdown step I kind measure) (hs : I s) :
    ∃ as t, (∀ a ∈ as, kind a) ∧ run step s as = some t ∧ I t ∧ measure t = 0 := by
  generalize hn : measure s = n
  induction n generalizing s with
  | zero => exact ⟨[], s, (fun _ h => nomatch h), rfl, hs, hn⟩
  | succ n ih =>
    obtain ⟨a, m, hkind, hstep⟩ := h.enabled hs (by omega)
    have hdown := h.down hs hkind hstep
    obtain ⟨as, t, hkinds, hrun, ht, hzero⟩ := ih (h.keep hs hstep) (by omega)
    refine ⟨a :: as, t, ?_, ?_, ht, hzero⟩
    · intro b hb
      rcases List.mem_cons.mp hb with rfl | hb
      · exact hkind
      · exact hkinds b hb
    · unfold run
      rw [hstep]
      exact hrun

end Countdown

end Transition
