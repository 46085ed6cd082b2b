import Mathlib.Data.String.Basic
import Huatuo.Time

/-!
# The text of an instant

`FormatUTC` of `internal/timeutil/timeutil.go` renders an instant with the layout
`2006-01-02T15:04:05.000000000Z07:00`, in UTC. Every field has a fixed width up to the year 9999, so
that the order of the texts is the order of the instants (`formatUTC_lt_iff`); stored records are
compared by these texts.

The calendar is that of `time.Time`: days are counted from January 1 of year 1.
-/

namespace Huatuo.Timeutil

open List

/-! ## The calendar -/

/-- How many spans of a length there are, up to a limit, and the days that are left. -/
def cut (limit span days : Nat) : Nat × Nat :=
  let n := min limit (days / span)
  (n, days - span * n)

/-- The year of a day, and the day of the year from 0 on: by spans of 400, 100, 4 years and one. -/
def yearOf (days : Nat) : Nat × Nat :=
  let (n100, rest) := cut 3 36524 (days % 146097)
  let (n4, rest) := cut 24 1461 rest
  let (n1, yday) := cut 3 365 rest
  (400 * (days / 146097) + 100 * n100 + 4 * n4 + n1 + 1, yday)

def isLeap (year : Nat) : Bool := year % 4 = 0 ∧ (year % 100 ≠ 0 ∨ year % 400 = 0)

variable (leap : Bool)

/-- The first day of each month. -/
def monthStarts : List Nat :=
  let l := if leap then 1 else 0
  [0, 31, 59 + l, 90 + l, 120 + l, 151 + l, 181 + l, 212 + l, 243 + l, 273 + l, 304 + l, 334 + l]

def monthOf (yday : Nat) : Nat := (monthStarts leap).countP (· ≤ yday)

def dayOf (yday : Nat) : Nat :=
  yday - (monthStarts leap).getD (monthOf leap yday - 1) 0 + 1

/-! ## The text -/

/-- The last digits of a number. -/
def digits : Nat → Nat → List Char
  | 0, _ => []
  | width + 1, n => digits width (n / 10) ++ [(n % 10).digitChar]

/-- A number with leading zeros; it may need more digits. -/
def pad (width n : Nat) : List Char :=
  if n < 10 ^ width then digits width n else Nat.toDigits 10 n

/-- The width of each field and what follows it. -/
def layout : List (Nat × Char) :=
  [(4, '-'), (2, '-'), (2, 'T'), (2, ':'), (2, ':'), (2, '.'), (9, 'Z')]

def render (layout : List (Nat × Char)) (values : List Nat) : List Char :=
  (layout.zipWith (fun field value => pad field.1 value ++ [field.2]) values).flatten

/-- The fields of an instant, from the year to the nanosecond. -/
def fields (t : Time) : List Nat :=
  let seconds := t / 1000000000
  let minutes := seconds / 60
  let hours := minutes / 60
  let (year, yday) := yearOf (hours / 24)
  let leap := isLeap year
  [year, monthOf leap yday, dayOf leap yday, hours % 24, minutes % 60, seconds % 60,
    t % 1000000000]

def formatUTC (t : Time) : String := String.ofList (render layout (fields t))

/-! ## Order -/

theorem cut_lt (limit span days days' : Nat) (h : days < days') :
    (cut limit span days).1 < (cut limit span days').1 ∨
      (cut limit span days).1 = (cut limit span days').1 ∧
        (cut limit span days).2 < (cut limit span days').2 := by
  have hdiv : days / span ≤ days' / span := Nat.div_le_div_right h.le
  have hfit : span * min limit (days / span) ≤ days :=
    (Nat.mul_le_mul_left _ (Nat.min_le_right ..)).trans (Nat.mul_div_le ..)
  simp only [cut]
  rcases Nat.lt_or_ge (min limit (days / span)) (min limit (days' / span)) with hlt | hge
  · exact .inl hlt
  · have heq : min limit (days / span) = min limit (days' / span) := by omega
    rw [← heq]
    exact .inr ⟨rfl, by omega⟩

theorem cut_le (limit span days : Nat) : (cut limit span days).1 ≤ limit := Nat.min_le_left ..

theorem yearOf_lt {days days' : Nat} (h : days < days') :
    (yearOf days).1 < (yearOf days').1 ∨
      (yearOf days).1 = (yearOf days').1 ∧ (yearOf days).2 < (yearOf days').2 := by
  simp only [yearOf]
  have h100 := cut_lt 3 36524 (days % 146097) (days' % 146097)
  have hle100 := cut_le 3 36524 (days % 146097)
  have hle100' := cut_le 3 36524 (days' % 146097)
  generalize cut 3 36524 (days % 146097) = c100 at *
  generalize cut 3 36524 (days' % 146097) = c100' at *
  have h4 := cut_lt 24 1461 c100.2 c100'.2
  have hle4 := cut_le 24 1461 c100.2
  have hle4' := cut_le 24 1461 c100'.2
  generalize cut 24 1461 c100.2 = c4 at *
  generalize cut 24 1461 c100'.2 = c4' at *
  have h1 := cut_lt 3 365 c4.2 c4'.2
  have hle1 := cut_le 3 365 c4.2
  have hle1' := cut_le 3 365 c4'.2
  omega

theorem yday_lt (days : Nat) : (yearOf days).2 < 366 := by
  simp only [yearOf, cut]
  omega

theorem year_lt {days : Nat} (h : days < 3652059) : (yearOf days).1 < 10000 := by
  simp only [yearOf, cut]
  omega

/-- Within its month a day is less than 100 days after the first. -/
theorem monthStart_le {yday : Nat} (h : yday < 366) :
    (monthStarts leap).getD (monthOf leap yday - 1) 0 ≤ yday ∧ monthOf leap yday < 100 ∧
      dayOf leap yday < 100 := by
  have hall : ∀ leap : Bool, ∀ yday < 366,
      (monthStarts leap).getD (monthOf leap yday - 1) 0 ≤ yday ∧ monthOf leap yday < 100 ∧
        dayOf leap yday < 100 := by decide +kernel
  exact hall leap yday h

theorem monthDay_lt {yday yday' : Nat} (h : yday < yday') (hlt : yday < 366) :
    monthOf leap yday < monthOf leap yday' ∨
      monthOf leap yday = monthOf leap yday' ∧ dayOf leap yday < dayOf leap yday' := by
  have hmonth : monthOf leap yday ≤ monthOf leap yday' :=
    countP_mono_left fun start _ hstart => by
      simp only [decide_eq_true_eq] at hstart ⊢
      omega
  obtain ⟨hstart, -, -⟩ := monthStart_le leap hlt
  rcases Nat.lt_or_eq_of_le hmonth with hmonth | hmonth
  · exact .inl hmonth
  · refine .inr ⟨hmonth, ?_⟩
    rw [dayOf, dayOf, ← hmonth]
    omega

theorem lt_div_mod {n n' : Nat} (k : Nat) (h : n < n') :
    n / k < n' / k ∨ n / k = n' / k ∧ n % k < n' % k := by
  rcases Nat.lt_or_eq_of_le (Nat.div_le_div_right (c := k) h.le) with hlt | heq
  · exact .inl hlt
  · have hsplit := Nat.div_add_mod n k
    have hsplit' := Nat.div_add_mod n' k
    rw [heq] at hsplit
    exact .inr ⟨heq, by omega⟩

theorem fields_lt {t u : Time} (h : t < u) : fields t < fields u := by
  simp only [fields, cons_lt_cons_iff, lt_irrefl, and_false, or_false]
  rcases lt_div_mod 1000000000 h with h | ⟨heq, h⟩
  · rcases lt_div_mod 60 h with h | ⟨heq, h⟩
    · rcases lt_div_mod 60 h with h | ⟨heq, h⟩
      · rcases lt_div_mod 24 h with h | ⟨heq, h⟩
        · rcases yearOf_lt h with h | ⟨heq, h⟩
          · exact .inl h
          · rw [heq]
            rcases monthDay_lt (isLeap (yearOf _).1) h (yday_lt _) with h | ⟨hmonth, h⟩
            · exact .inr ⟨rfl, .inl h⟩
            · exact .inr ⟨rfl, .inr ⟨hmonth, .inl h⟩⟩
        · simp [heq, h]
      · simp [heq, h]
    · simp [heq, h]
  · simp [heq, h]

theorem length_digits (width n : Nat) : (digits width n).length = width := by
  induction width generalizing n with
  | zero => rfl
  | succ width ih => rw [digits, length_append, ih, length_singleton]

theorem append_lt_append {α : Type} [LT α] {l l' : List α} (hlen : l.length = l'.length)
    (h : l < l') (r r' : List α) : l ++ r < l' ++ r' := by
  induction l generalizing l' with
  | nil =>
    cases l' with
    | nil => exact absurd h (by simp)
    | cons => cases hlen
  | cons a l ih =>
    cases l' with
    | nil => cases hlen
    | cons a' l' =>
      rw [cons_append, cons_append, cons_lt_cons_iff]
      rcases cons_lt_cons_iff.1 h with hlt | ⟨heq, hlt⟩
      · exact .inl hlt
      · exact .inr ⟨heq, ih (Nat.succ.inj hlen) hlt⟩

theorem digitChar_lt : ∀ n < 10, ∀ m < 10, n < m → n.digitChar < m.digitChar := by decide

theorem digits_lt {width n m : Nat} (h : n < m) (hm : m < 10 ^ width) :
    digits width n < digits width m := by
  induction width generalizing n m with
  | zero => exact absurd hm (by simp; omega)
  | succ width ih =>
    rw [digits, digits]
    rcases Nat.lt_or_ge (n / 10) (m / 10) with hlt | hge
    · refine append_lt_append ?_ (ih hlt (by rw [Nat.pow_succ] at hm; omega)) _ _
      rw [length_digits, length_digits]
    · have heq : n / 10 = m / 10 := by omega
      rw [heq]
      refine append_left_lt (cons_lt_cons_iff.2 (.inl ?_))
      exact digitChar_lt _ (by omega) _ (by omega) (by omega)

theorem render_lt {layout : List (Nat × Char)} {values values' : List Nat}
    (hlen : values.length = layout.length) (hlen' : values'.length = layout.length)
    (hfits : ∀ p ∈ layout.zip values, p.2 < 10 ^ p.1.1)
    (hfits' : ∀ p ∈ layout.zip values', p.2 < 10 ^ p.1.1) (h : values < values') :
    render layout values < render layout values' := by
  induction layout generalizing values values' with
  | nil =>
    cases length_eq_zero_iff.1 hlen'
    exact absurd h (by simp)
  | cons field layout ih =>
    cases values with
    | nil => cases hlen
    | cons value values =>
    cases values' with
    | nil => cases hlen'
    | cons value' values' =>
    simp only [zip_cons_cons, forall_mem_cons] at hfits hfits'
    have hpad : pad field.1 value = digits field.1 value := if_pos hfits.1
    have hpad' : pad field.1 value' = digits field.1 value' := if_pos hfits'.1
    simp only [render, zipWith_cons_cons, flatten_cons, hpad, hpad', append_assoc]
    rcases cons_lt_cons_iff.1 h with hlt | ⟨rfl, hlt⟩
    · refine append_lt_append ?_ (digits_lt hlt hfits'.1) _ _
      rw [length_digits, length_digits]
    · exact append_left_lt (append_left_lt
        (ih (Nat.succ.inj hlen) (Nat.succ.inj hlen') hfits.2 hfits'.2 hlt))

/-- The first instant of the year 10000. -/
def endOfTime : Time := 3652059 * 24 * 60 * 60 * 1000000000

theorem fields_fit {t : Nat} (h : t < endOfTime) :
    ∀ p ∈ layout.zip (fields t), p.2 < 10 ^ p.1.1 := by
  have hdays : t / 1000000000 / 60 / 60 / 24 < 3652059 := by
    have h : t < 3652059 * 24 * 60 * 60 * 1000000000 := h
    omega
  obtain ⟨-, hmonth, hday⟩ := monthStart_le
    (isLeap (yearOf (t / 1000000000 / 60 / 60 / 24)).1) (yday_lt (t / 1000000000 / 60 / 60 / 24))
  simp only [layout, fields, zip_cons_cons, zip_nil_left, forall_mem_cons]
  exact ⟨year_lt hdays, hmonth, hday, Nat.lt_trans (Nat.mod_lt _ (by decide)) (by decide),
    Nat.lt_trans (Nat.mod_lt _ (by decide)) (by decide),
    Nat.lt_trans (Nat.mod_lt _ (by decide)) (by decide), Nat.mod_lt _ (by decide),
    forall_mem_nil _⟩

theorem formatUTC_lt {t u : Time} (h : t < u) (hu : u < endOfTime) : formatUTC t < formatUTC u := by
  have hrender := render_lt rfl rfl (fields_fit (Nat.lt_trans h hu)) (fields_fit hu) (fields_lt h)
  rw [formatUTC, formatUTC, String.lt_iff_toList_lt, String.toList_ofList, String.toList_ofList]
  exact hrender

/-- **The order of the texts is that of the instants.** -/
theorem formatUTC_lt_iff {t u : Time} (ht : t < endOfTime) (hu : u < endOfTime) :
    formatUTC t < formatUTC u ↔ t < u := by
  refine ⟨fun h => ?_, fun h => formatUTC_lt h hu⟩
  rcases Nat.lt_trichotomy t u with hlt | rfl | hgt
  · exact hlt
  · exact absurd h (lt_irrefl _)
  · exact absurd h (lt_asymm (formatUTC_lt hgt ht))

example : formatUTC (1709208000 * 1000000000 + 62135596800 * 1000000000) =
    "2024-02-29T12:00:00.000000000Z" := by decide +kernel

theorem empty_lt_formatUTC (t : Time) : "" < formatUTC t := by
  rw [formatUTC, String.lt_iff_toList_lt, String.toList_ofList, String.toList_ofList]
  cases hrender : render layout (fields t) with
  | nil => simp [render, layout, fields] at hrender
  | cons c rest => exact nil_lt_cons c rest

end Huatuo.Timeutil
