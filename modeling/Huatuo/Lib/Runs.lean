import Mathlib.Data.List.Basic

/-!
# Runs of a labelled transition system

A system is a partial step function `step : σ → α → Option σ`: an action is either refused
in a state or leads to exactly one next state, so every source of nondeterminism (the
scheduler, the clock, a failing call) is a parameter of the action.

* `run` — the state after a list of actions.
* `Reachable` — the states some list of actions leads to.
* `Reachable.invariant` — what holds initially and is kept by every step holds of every
  reachable state.
* `run_rel` — what relates every two consecutive states of a run relates its ends.
-/

namespace Runs

variable {σ α : Type*} {step : σ → α → Option σ}

/-- The state after a list of actions, if each of them is enabled in its turn. -/
def run (step : σ → α → Option σ) : σ → List α → Option σ
  | s, [] => some s
  | s, a :: as => (step s a).bind fun s' => run step s' as

@[simp] theorem run_nil (s : σ) : run step s [] = some s := rfl

theorem run_cons_eq_some {s t : σ} {a : α} {as : List α} :
    run step s (a :: as) = some t ↔ ∃ s', step s a = some s' ∧ run step s' as = some t := by
  simp [run, Option.bind_eq_some_iff]

theorem run_append_eq_some {s t : σ} {as bs : List α} :
    run step s (as ++ bs) = some t ↔ ∃ s', run step s as = some s' ∧ run step s' bs = some t := by
  induction as generalizing s with
  | nil => simp
  | cons a as ih =>
    rw [List.cons_append, run_cons_eq_some]
    constructor
    · rintro ⟨s₁, hs, ht⟩
      obtain ⟨s₂, h₁, h₂⟩ := ih.1 ht
      exact ⟨s₂, run_cons_eq_some.2 ⟨s₁, hs, h₁⟩, h₂⟩
    · rintro ⟨s₂, h₁, h₂⟩
      obtain ⟨s₁, hs, ht⟩ := run_cons_eq_some.1 h₁
      exact ⟨s₁, hs, ih.2 ⟨s₂, ht, h₂⟩⟩

/-- The system without the steps that `ok` does not allow. -/
def restrict (ok : σ → α → Bool) (step : σ → α → Option σ) (s : σ) (a : α) : Option σ :=
  if ok s a then step s a else none

theorem restrict_eq_some {ok : σ → α → Bool} {s s' : σ} {a : α} :
    restrict ok step s a = some s' ↔ ok s a ∧ step s a = some s' := by
  simp [restrict]

/-- The states that some list of actions leads to from `s₀`. -/
def Reachable (step : σ → α → Option σ) (s₀ s : σ) : Prop := ∃ as, run step s₀ as = some s

theorem Reachable.refl (s : σ) : Reachable step s s := ⟨[], rfl⟩

theorem Reachable.next {s₀ s s' : σ} {a : α} (h : Reachable step s₀ s) (ha : step s a = some s') :
    Reachable step s₀ s' := by
  obtain ⟨as, has⟩ := h
  exact ⟨as ++ [a], run_append_eq_some.2 ⟨s, has, run_cons_eq_some.2 ⟨s', ha, rfl⟩⟩⟩

theorem Reachable.trans {s₀ s t : σ} (h : Reachable step s₀ s) (h' : Reachable step s t) :
    Reachable step s₀ t := by
  obtain ⟨as, has⟩ := h
  obtain ⟨bs, hbs⟩ := h'
  exact ⟨as ++ bs, run_append_eq_some.2 ⟨s, has, hbs⟩⟩

/-- **The invariant rule.** The step obligation may use that the state before it is
reachable, so invariants can be proved one after another. -/
theorem Reachable.invariant {s₀ : σ} {Inv : σ → Prop} (hinit : Inv s₀)
    (hstep : ∀ s a s', Reachable step s₀ s → Inv s → step s a = some s' → Inv s') {s : σ}
    (h : Reachable step s₀ s) : Inv s := by
  obtain ⟨as, has⟩ := h
  suffices ∀ t, Reachable step s₀ t → Inv t → run step t as = some s → Inv s from
    this s₀ (Reachable.refl s₀) hinit has
  clear has
  induction as with
  | nil =>
    intro t _ ht hs
    cases hs
    exact ht
  | cons a as ih =>
    intro t hr ht hs
    obtain ⟨t', ha, hrest⟩ := run_cons_eq_some.1 hs
    exact ih t' (hr.next ha) (hstep t a t' hr ht ha) hrest

/-- A reflexive and transitive relation that every step of a reachable state respects
relates the two ends of every run. -/
theorem run_rel {s₀ : σ} {R : σ → σ → Prop} (hrefl : ∀ s, R s s)
    (htrans : ∀ s t u, R s t → R t u → R s u)
    (hstep : ∀ s a s', Reachable step s₀ s → step s a = some s' → R s s') {s t : σ}
    (hs : Reachable step s₀ s) (h : Reachable step s t) : R s t := by
  obtain ⟨as, has⟩ := h
  induction as generalizing s with
  | nil =>
    cases has
    exact hrefl _
  | cons a as ih =>
    obtain ⟨s', ha, hrest⟩ := run_cons_eq_some.1 has
    exact htrans s s' t (hstep s a s' hs ha) (ih (hs.next ha) hrest)

end Runs
