import Mathlib.Data.Int.Order.Basic
import Mathlib.Tactic.Common

/-!
# Instants and durations

Go's `time.Time` as the number of nanoseconds since its zero value (January 1 of year 1,
UTC), and `time.Duration` as a signed number of nanoseconds. Clock readings never lie before
the zero time, so an instant is a natural number and `time.Time{}` is `0`.
-/

namespace Huatuo

/-- `time.Duration`, in nanoseconds. -/
abbrev Duration := Int

namespace Duration

def millisecond : Duration := 1000000
def second : Duration := 1000000000

end Duration

/-- `time.Time`, in nanoseconds since the zero time. -/
abbrev Time := Nat

namespace Time

/-- `time.Time{}`. -/
def zero : Time := 0

def isZero (t : Time) : Bool := t == 0

/-- `t.Add(d)`; it saturates at the zero time. -/
def add (t : Time) (d : Duration) : Time := (t + d : Int).toNat

/-- `t.Before(u)`. -/
def before (t u : Time) : Bool := decide (t < u)

@[simp] theorem isZero_iff (t : Time) : t.isZero = true ↔ t = 0 := by
  simp [isZero]

@[simp] theorem isZero_eq_false (t : Time) : t.isZero = false ↔ t ≠ 0 := by
  simp [isZero]

@[simp] theorem before_iff (t u : Time) : t.before u = true ↔ t < u := by
  simp [before]

@[simp] theorem before_eq_false (t u : Time) : t.before u = false ↔ u ≤ t := by
  simp [before]

theorem add_ne_zero {t : Nat} {d : Int} (ht : t ≠ 0) (hd : 0 ≤ d) : add t d ≠ 0 := by
  have h : (t + d : Int).toNat ≠ 0 := by omega
  exact h

end Time

end Huatuo
