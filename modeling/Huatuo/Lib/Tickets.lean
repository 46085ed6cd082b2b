import Mathlib.Data.List.Nodup

/-!
# Tickets

Numbers that are given out once. A ticket is at one place at a time, moves from place to place, and
is spent or lost in the end; it is never spent twice.

* `Tickets.issue` — the next number, at a free place.
* `Tickets.move` — a ticket goes to a free place.
* `Tickets.drop`, `Tickets.spend` — a place is cleared, and its ticket is lost or spent.
-/

variable {τ : Type*}

structure Tickets (place : τ → Option Nat) (next : Nat) (spent : List Nat) : Prop where
  unique : ∀ x y n, place x = some n → place y = some n → x = y
  unspent : ∀ x n, place x = some n → n ∉ spent
  issued : ∀ x n, place x = some n → n < next
  spent_lt : ∀ n ∈ spent, n < next
  nodup : spent.Nodup

namespace Tickets

open Function

variable {place : τ → Option Nat} {next : Nat} {spent : List Nat}

theorem empty (next : Nat) : Tickets (fun _ : τ => none) next [] where
  unique := nofun
  unspent := nofun
  issued := nofun
  spent_lt := nofun
  nodup := List.nodup_nil

variable [DecidableEq τ] (h : Tickets place next spent)
include h

theorem drop (x : τ) : Tickets (update place x none) next spent := by
  have hsome {y : τ} {n : Nat} (hy : update place x none y = some n) : place y = some n := by
    by_cases hyx : y = x
    · subst hyx
      rw [update_self] at hy
      cases hy
    · rwa [update_of_ne hyx] at hy
  exact ⟨fun y z n hy hz => h.unique y z n (hsome hy) (hsome hz),
    fun y n hy => h.unspent y n (hsome hy), fun y n hy => h.issued y n (hsome hy), h.spent_lt,
    h.nodup⟩

/-- A ticket that is nowhere is put at a place. -/
theorem put {x : τ} {n : Nat} (hnew : ∀ y, place y ≠ some n) (hspent : n ∉ spent) (hlt : n < next) :
    Tickets (update place x (some n)) next spent := by
  have hcases {y : τ} {m : Nat} (hy : update place x (some n) y = some m) :
      y = x ∧ m = n ∨ place y = some m := by
    by_cases hyx : y = x
    · subst hyx
      rw [update_self] at hy
      exact .inl ⟨rfl, (Option.some.inj hy).symm⟩
    · rw [update_of_ne hyx] at hy
      exact .inr hy
  refine ⟨fun y z m hy hz => ?_, fun y m hy => ?_, fun y m hy => ?_, h.spent_lt, h.nodup⟩
  · obtain ⟨rfl, rfl⟩ | hold := hcases hy <;> obtain ⟨rfl, hm⟩ | hold' := hcases hz
    · rfl
    · exact absurd hold' (hnew z)
    · exact absurd (hm ▸ hold) (hnew y)
    · exact h.unique y z m hold hold'
  · obtain ⟨-, rfl⟩ | hy := hcases hy
    · exact hspent
    · exact h.unspent y m hy
  · obtain ⟨-, rfl⟩ | hy := hcases hy
    · exact hlt
    · exact h.issued y m hy

theorem issue (x : τ) : Tickets (update place x (some next)) (next + 1) spent := by
  have hnext : Tickets place (next + 1) spent :=
    ⟨h.unique, h.unspent, fun y n hy => Nat.lt_succ_of_lt (h.issued y n hy),
      fun n hn => Nat.lt_succ_of_lt (h.spent_lt n hn), h.nodup⟩
  exact hnext.put (fun y hy => Nat.lt_irrefl _ (h.issued y next hy))
    (fun hspent => Nat.lt_irrefl _ (h.spent_lt next hspent)) (Nat.lt_succ_self next)

theorem gone {x : τ} {n : Nat} (hx : place x = some n) (y : τ) :
    update place x none y ≠ some n := by
  intro hy
  by_cases hyx : y = x
  · subst hyx
    rw [update_self] at hy
    cases hy
  · rw [update_of_ne hyx] at hy
    exact hyx (h.unique y x n hy hx)

theorem move {x : τ} {n : Nat} (hx : place x = some n) (y : τ) :
    Tickets (update (update place x none) y (some n)) next spent :=
  (h.drop x).put (h.gone hx) (h.unspent x n hx) (h.issued x n hx)

theorem spend {x : τ} {n : Nat} (hx : place x = some n) :
    Tickets (update place x none) next (n :: spent) := by
  obtain ⟨huni, huns, hiss, -, -⟩ := h.drop x
  refine ⟨huni, fun y m hy hm => ?_, hiss, fun m hm => ?_,
    List.nodup_cons.2 ⟨h.unspent x n hx, h.nodup⟩⟩
  · obtain rfl | hm := List.mem_cons.1 hm
    · exact h.gone hx y hy
    · exact huns y m hy hm
  · obtain rfl | hm := List.mem_cons.1 hm
    · exact h.issued x m hx
    · exact h.spent_lt m hm

end Tickets
