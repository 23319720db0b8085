import Mathlib.Logic.Basic
import Mathlib.Data.List.Basic

/-!
# Programs over an observable state and an uncontrolled world

A program asks the world for answers, reads the state, and replaces it one step at a
time. Every state that it passes through is visible from outside: it is what a crash
leaves behind, or what another party has already seen. `run` executes a program on one
script of answers; `wp` says what holds, for every script of admissible answers, of each
state passed through and of the state left by a result, by a failure, or by a computation
that got stuck because its fuel ran out.

`Keeps` is the frame rule: a program whose every step stays inside one reflexive and
transitive relation. `embed` runs a program on a component of a larger state.
-/

set_option autoImplicit false

universe u v w x

inductive Prog (W : Type u) (σ : Type v) (ε : Type w) (α : Type x) where
  | ret (a : α) : Prog W σ ε α
  | fail (e : ε) : Prog W σ ε α
  | stuck : Prog W σ ε α
  | ask (k : W → Prog W σ ε α) : Prog W σ ε α
  | get (k : σ → Prog W σ ε α) : Prog W σ ε α
  | set (s : σ) (k : Prog W σ ε α) : Prog W σ ε α

namespace Prog

variable {W : Type u} {σ : Type v} {ε : Type w} {α β : Type x}

def bind : Prog W σ ε α → (α → Prog W σ ε β) → Prog W σ ε β
  | ret a, f => f a
  | fail e, _ => fail e
  | stuck, _ => stuck
  | ask k, f => ask fun a => (k a).bind f
  | get k, f => get fun s => (k s).bind f
  | set s k, f => set s (k.bind f)

instance : Monad (Prog W σ ε) where
  pure := ret
  bind := bind

/-- Answer of the world, through a projection that picks the part that is asked for. -/
def query (f : W → α) : Prog W σ ε α := ask fun a => ret (f a)

def read (f : σ → α) : Prog W σ ε α := get fun s => ret (f s)

def modify (f : σ → σ) : Prog W σ ε PUnit.{x + 1} := get fun s => set (f s) (ret ⟨⟩)

/-- Turn a failure into a value. A stuck computation stays stuck. -/
def attempt : Prog W σ ε α → Prog W σ ε (Except ε α)
  | ret a => ret (.ok a)
  | fail e => ret (.error e)
  | stuck => stuck
  | ask k => ask fun a => (k a).attempt
  | get k => get fun s => (k s).attempt
  | set s k => set s k.attempt

def ofExcept : Except ε α → Prog W σ ε α
  | .ok a => ret a
  | .error e => fail e

inductive Outcome (ε : Type w) (α : Type x) where
  | returned (a : α)
  | failed (e : ε)
  | stuck
  deriving DecidableEq, Repr

structure Result (σ : Type v) (ε : Type w) (α : Type x) where
  visited : List σ
  final : σ
  outcome : Outcome ε α

/-- Execution on a script of answers; `t` counts the answers already taken. -/
def run : Prog W σ ε α → (Nat → W) → Nat → σ → Result σ ε α
  | ret a, _, _, s => ⟨[], s, .returned a⟩
  | fail e, _, _, s => ⟨[], s, .failed e⟩
  | stuck, _, _, s => ⟨[], s, .stuck⟩
  | ask k, world, t, s => (k (world t)).run world (t + 1) s
  | get k, world, t, s => (k s).run world t s
  | set s' k, world, t, _ =>
    let r := k.run world t s'
    { r with visited := s' :: r.visited }

/-- The answers the world is assumed to give, and what must hold wherever a program can
stop other than by returning. -/
structure Exits (W : Type u) (σ : Type v) (ε : Type w) where
  answers : W → Prop
  passed : σ → Prop
  failed : ε → σ → Prop
  stuck : σ → Prop

def wp (X : Exits W σ ε) : Prog W σ ε α → (α → σ → Prop) → σ → Prop
  | ret a, Q, s => Q a s
  | fail e, _, s => X.failed e s
  | stuck, _, s => X.stuck s
  | ask k, Q, s => ∀ a, X.answers a → (k a).wp X Q s
  | get k, Q, s => (k s).wp X Q s
  | set s' k, Q, _ => X.passed s' ∧ k.wp X Q s'

section Conditions
variable {X : Exits W σ ε}

@[simp] theorem wp_ret {a : α} {Q : α → σ → Prop} {s : σ} :
    wp X (ret a : Prog W σ ε α) Q s ↔ Q a s := Iff.rfl

@[simp] theorem wp_pure {a : α} {Q : α → σ → Prop} {s : σ} :
    wp X (pure a : Prog W σ ε α) Q s ↔ Q a s := Iff.rfl

@[simp] theorem wp_fail {e : ε} {Q : α → σ → Prop} {s : σ} :
    wp X (fail e : Prog W σ ε α) Q s ↔ X.failed e s := Iff.rfl

@[simp] theorem wp_stuck {Q : α → σ → Prop} {s : σ} :
    wp X (stuck : Prog W σ ε α) Q s ↔ X.stuck s := Iff.rfl

@[simp] theorem wp_query {f : W → α} {Q : α → σ → Prop} {s : σ} :
    wp X (query f : Prog W σ ε α) Q s ↔ ∀ a, X.answers a → Q (f a) s := Iff.rfl

@[simp] theorem wp_read {f : σ → α} {Q : α → σ → Prop} {s : σ} :
    wp X (read f : Prog W σ ε α) Q s ↔ Q (f s) s := Iff.rfl

@[simp] theorem wp_modify {f : σ → σ} {Q : PUnit.{x + 1} → σ → Prop} {s : σ} :
    wp X (modify f : Prog W σ ε PUnit.{x + 1}) Q s ↔ X.passed (f s) ∧ Q ⟨⟩ (f s) := Iff.rfl

@[simp] theorem wp_bind {p : Prog W σ ε α} {f : α → Prog W σ ε β}
    {Q : β → σ → Prop} {s : σ} :
    wp X (p >>= f) Q s ↔ wp X p (fun a s => wp X (f a) Q s) s := by
  change wp X (p.bind f) Q s ↔ _
  induction p generalizing s with
  | ret a => exact Iff.rfl
  | fail e => exact Iff.rfl
  | stuck => exact Iff.rfl
  | ask k ih => exact forall_congr' fun a => imp_congr_right fun _ => ih a
  | get k ih => exact ih s
  | set s' k ih => exact and_congr Iff.rfl ih

@[simp] theorem wp_attempt {p : Prog W σ ε α} {Q : Except ε α → σ → Prop} {s : σ} :
    wp X (attempt p) Q s ↔
      wp { X with failed := fun e s => Q (.error e) s } p (fun a s => Q (.ok a) s) s := by
  induction p generalizing s with
  | ret a => exact Iff.rfl
  | fail e => exact Iff.rfl
  | stuck => exact Iff.rfl
  | ask k ih => exact forall_congr' fun a => imp_congr_right fun _ => ih a
  | get k ih => exact ih s
  | set s' k ih => exact and_congr Iff.rfl ih

theorem wp_ofExcept {r : Except ε α} {Q : α → σ → Prop} {s : σ}
    (hok : ∀ a, r = .ok a → Q a s) (herror : ∀ e, r = .error e → X.failed e s) :
    wp X (ofExcept r : Prog W σ ε α) Q s := by
  cases r with
  | ok a => exact hok a rfl
  | error e => exact herror e rfl

end Conditions

theorem wp_mono {X Y : Exits W σ ε} {Q Q' : α → σ → Prop} {p : Prog W σ ε α} {s : σ}
    (h : wp X p Q s) (hanswers : ∀ a, Y.answers a → X.answers a)
    (hpassed : ∀ s, X.passed s → Y.passed s)
    (hfailed : ∀ e s, X.failed e s → Y.failed e s) (hstuck : ∀ s, X.stuck s → Y.stuck s)
    (hQ : ∀ a s, Q a s → Q' a s) : wp Y p Q' s := by
  induction p generalizing s with
  | ret a => exact hQ a s h
  | fail e => exact hfailed e s h
  | stuck => exact hstuck s h
  | ask k ih => exact fun a ha => ih a (h a (hanswers a ha))
  | get k ih => exact ih s h
  | set s' k ih => exact ⟨hpassed s' h.1, ih h.2⟩

/-- No condition except on results: what a computation that returns has established. -/
def Exits.any : Exits W σ ε := ⟨fun _ => True, fun _ => True, fun _ _ => True, fun _ => True⟩

theorem wp_any {Q : α → σ → Prop} (h : ∀ a s, Q a s) (p : Prog W σ ε α) (s : σ) :
    wp Exits.any p Q s := by
  induction p generalizing s with
  | ret a => exact h a s
  | fail e => exact trivial
  | stuck => exact trivial
  | ask k ih => exact fun a _ => ih a s
  | get k ih => exact ih s s
  | set s' k ih => exact ⟨trivial, ih s'⟩

/-- Only the last part of a sequence decides what it has established. -/
theorem wp_any_bind {p : Prog W σ ε α} {f : α → Prog W σ ε β} {Q : β → σ → Prop}
    (h : ∀ a s, wp Exits.any (f a) Q s) (s : σ) : wp Exits.any (p >>= f) Q s :=
  wp_bind.mpr (wp_any h p s)

theorem wp_and_any {X : Exits W σ ε} {Q Q' : α → σ → Prop} {p : Prog W σ ε α} {s : σ}
    (h : wp X p Q s) (h' : wp Exits.any p Q' s) :
    wp X p (fun a s => Q a s ∧ Q' a s) s := by
  induction p generalizing s with
  | ret a => exact ⟨h, h'⟩
  | fail e => exact h
  | stuck => exact h
  | ask k ih => exact fun a ha => ih a (h a ha) (h' a trivial)
  | get k ih => exact ih s h h'
  | set s' k ih => exact ⟨h.1, ih h.2 h'.2⟩

/-- A condition proved by `wp` holds along the execution on every script it allows. -/
theorem wp_run {X : Exits W σ ε} {Q : α → σ → Prop} {p : Prog W σ ε α} {s : σ}
    (h : wp X p Q s) {world : Nat → W} (hworld : ∀ t, X.answers (world t)) (t : Nat) :
    (∀ s' ∈ (p.run world t s).visited, X.passed s') ∧
    match (p.run world t s).outcome with
    | .returned a => Q a (p.run world t s).final
    | .failed e => X.failed e (p.run world t s).final
    | .stuck => X.stuck (p.run world t s).final := by
  induction p generalizing s t with
  | ret a => exact ⟨by simp [run], h⟩
  | fail e => exact ⟨by simp [run], h⟩
  | stuck => exact ⟨by simp [run], h⟩
  | ask k ih => exact ih (world t) (h (world t) (hworld t)) (t + 1)
  | get k ih => exact ih s h t
  | set s' k ih =>
    obtain ⟨hvisited, hend⟩ := ih h.2 t
    refine ⟨?_, hend⟩
    intro s₁ hs₁
    rcases List.mem_cons.mp hs₁ with rfl | hs₁
    · exact h.1
    · exact hvisited s₁ hs₁

/-- The states in which a crash can leave a run of the program, its own end included. -/
def Leaves (p : Prog W σ ε α) (s s' : σ) : Prop :=
  ∃ (world : Nat → W) (t : Nat), s' ∈ s :: (p.run world t s).visited

theorem Leaves.passed {X : Exits W σ ε} {Q : α → σ → Prop} {p : Prog W σ ε α} {s s' : σ}
    (hleaves : Leaves p s s') (hanswers : ∀ a, X.answers a) (hs : X.passed s)
    (h : wp X p Q s) : X.passed s' := by
  obtain ⟨world, t, hmem⟩ := hleaves
  rcases List.mem_cons.mp hmem with rfl | hmem
  · exact hs
  · exact (wp_run h (fun t => hanswers (world t)) t).1 s' hmem

/-- A relation that a sequence of steps can be measured by. -/
structure Frame (σ : Type v) where
  rel : σ → σ → Prop
  refl : ∀ s, rel s s
  trans : ∀ {s t u}, rel s t → rel t u → rel s u

/-- Wherever the program stops, the state is related to the one it started from. -/
def Frame.exits (F : Frame σ) (s : σ) : Exits W σ ε :=
  ⟨fun _ => True, F.rel s, fun _ => F.rel s, F.rel s⟩

def Keeps (F : Frame σ) (p : Prog W σ ε α) : Prop :=
  ∀ s, wp (F.exits s) p (fun _ => F.rel s) s

section Keeps
variable {F : Frame σ}

theorem Keeps.wp {p : Prog W σ ε α} (h : Keeps F p) {X : Exits W σ ε} {Q : α → σ → Prop}
    {s : σ} (hpassed : ∀ t, F.rel s t → X.passed t)
    (hfailed : ∀ e t, F.rel s t → X.failed e t) (hstuck : ∀ t, F.rel s t → X.stuck t)
    (hQ : ∀ a t, F.rel s t → Q a t) : p.wp X Q s :=
  wp_mono (h s) (fun _ _ => trivial) hpassed (fun e t => hfailed e t) hstuck hQ

/-- The frame rule together with what a returning run has established. -/
theorem Keeps.wp_post {p : Prog W σ ε α} (h : Keeps F p) {X : Exits W σ ε}
    {Q Q' : α → σ → Prop} {s : σ} (hpost : p.wp Exits.any Q' s)
    (hpassed : ∀ t, F.rel s t → X.passed t) (hfailed : ∀ e t, F.rel s t → X.failed e t)
    (hstuck : ∀ t, F.rel s t → X.stuck t) (hQ : ∀ a t, F.rel s t → Q' a t → Q a t) :
    p.wp X Q s :=
  wp_mono (wp_and_any (h s) hpost) (fun _ _ => trivial) hpassed (fun e t => hfailed e t) hstuck
    fun a t hat => hQ a t hat.1 hat.2

theorem keeps_ret (a : α) : Keeps F (ret a : Prog W σ ε α) := fun s => F.refl s

theorem keeps_pure (a : α) : Keeps F (pure a : Prog W σ ε α) := fun s => F.refl s

theorem keeps_fail (e : ε) : Keeps F (fail e : Prog W σ ε α) := fun s => F.refl s

theorem keeps_stuck : Keeps F (stuck : Prog W σ ε α) := fun s => F.refl s

theorem keeps_query (f : W → α) : Keeps F (query f : Prog W σ ε α) := fun s _ _ => F.refl s

theorem keeps_read (f : σ → α) : Keeps F (read f : Prog W σ ε α) := fun s => F.refl s

theorem keeps_ofExcept (r : Except ε α) : Keeps F (ofExcept r : Prog W σ ε α) := by
  cases r with
  | ok a => exact keeps_ret a
  | error e => exact keeps_fail e

theorem keeps_modify {f : σ → σ} (hf : ∀ s, F.rel s (f s)) :
    Keeps F (modify f : Prog W σ ε PUnit.{x + 1}) := fun s => ⟨hf s, hf s⟩

theorem keeps_bind {p : Prog W σ ε α} {f : α → Prog W σ ε β} (hp : Keeps F p)
    (hf : ∀ a, Keeps F (f a)) : Keeps F (p >>= f) := by
  intro s
  refine wp_bind.mpr
    (wp_mono (hp s) (fun _ h => h) (fun _ h => h) (fun _ _ h => h) (fun _ h => h) ?_)
  intro a t hst
  exact (hf a).wp (fun _ => F.trans hst) (fun _ _ => F.trans hst) (fun _ => F.trans hst)
    (fun _ _ => F.trans hst)

theorem keeps_attempt {p : Prog W σ ε α} (hp : Keeps F p) : Keeps F (attempt p) :=
  fun s => wp_attempt.mpr (hp s)

end Keeps

section Embedding
universe w' u' v'
variable {W' : Type u'} {τ : Type v'} {ε' : Type w'}

/-- A failure becomes a value, and the error type is free again. -/
def result : Prog W σ ε α → Prog W σ ε' (Except ε α)
  | ret a => ret (.ok a)
  | fail e => ret (.error e)
  | stuck => stuck
  | ask k => ask fun a => (k a).result
  | get k => get fun s => (k s).result
  | set s k => set s k.result

theorem wp_result {X : Exits W σ ε'} {p : Prog W σ ε α} {Q : Except ε α → σ → Prop} {s : σ} :
    wp X (result p : Prog W σ ε' (Except ε α)) Q s ↔
      wp ⟨X.answers, X.passed, fun e s => Q (.error e) s, X.stuck⟩ p
        (fun a s => Q (.ok a) s) s := by
  induction p generalizing s with
  | ret a => exact Iff.rfl
  | fail e => exact Iff.rfl
  | stuck => exact Iff.rfl
  | ask k ih => exact forall_congr' fun a => imp_congr_right fun _ => ih a
  | get k ih => exact ih s
  | set s' k ih => exact and_congr Iff.rfl ih

/-- A component of a larger state. -/
structure Part (τ : Type v') (σ : Type v) where
  part : τ → σ
  put : σ → τ → τ
  part_put : ∀ s t, part (put s t) = s
  put_put : ∀ s s' t, put s' (put s t) = put s' t
  put_part : ∀ t, put (part t) t = t

/-- A program over a component, run on the larger state and with answers taken from it. -/
def embed (answer : W' → W) (P : Part τ σ) : Prog W σ ε α → Prog W' τ ε α
  | ret a => ret a
  | fail e => fail e
  | stuck => stuck
  | ask k => ask fun a => (k (answer a)).embed answer P
  | get k => get fun t => (k (P.part t)).embed answer P
  | set s k => get fun t => set (P.put s t) (k.embed answer P)

/-- Where an embedded program may stop, seen from the component. -/
def Exits.within (X : Exits W' τ ε) (answer : W' → W) (P : Part τ σ) (t : τ) : Exits W σ ε where
  answers a := ∃ a', X.answers a' ∧ answer a' = a
  passed s := X.passed (P.put s t)
  failed e s := X.failed e (P.put s t)
  stuck s := X.stuck (P.put s t)

theorem Exits.within_put (X : Exits W' τ ε) (answer : W' → W) (P : Part τ σ) (s : σ) (t : τ) :
    X.within answer P (P.put s t) = X.within answer P t := by
  simp only [Exits.within, P.put_put]

/-- The embedding rule: the rest of the larger state is framed. -/
theorem wp_embed {X : Exits W' τ ε} {answer : W' → W} {P : Part τ σ} {p : Prog W σ ε α}
    {Q : α → τ → Prop} {t : τ}
    (h : wp (X.within answer P t) p (fun a s => Q a (P.put s t)) (P.part t)) :
    wp X (embed answer P p) Q t := by
  induction p generalizing t with
  | ret a => simpa only [embed, wp, P.put_part] using h
  | fail e => simpa only [embed, wp, Exits.within, P.put_part] using h
  | stuck => simpa only [embed, wp, Exits.within, P.put_part] using h
  | ask k ih =>
    intro a ha
    exact ih (answer a) (h (answer a) ⟨a, ha, rfl⟩)
  | get k ih => exact ih (P.part t) h
  | set s k ih =>
    refine ⟨h.1, ih ?_⟩
    rw [X.within_put, P.part_put]
    simp only [P.put_put]
    exact h.2

end Embedding

end Prog
