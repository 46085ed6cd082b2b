import Mathlib.Algebra.Ring.Int.Defs
import Mathlib.Data.List.Induction
import Mathlib.Data.List.Nodup

/-!
# Ledgers

A ledger lists keys with their totals, each key once, in the order in which the keys came up.
`post` books one amount, `postAll` a list of them, and `replay` starts from an empty ledger.
`total_postAll` says that a ledger keeps the sums of what is booked.
-/

namespace Huatuo.Ledger

open List

variable {κ : Type*} [DecidableEq κ]

/-- What a list of bookings holds for one key. -/
def total (bookings : List (κ × Int)) (key : κ) : Int :=
  ((bookings.filter fun booking => booking.1 = key).map Prod.snd).sum

/-- Book an amount: onto the key's entry, or as a new entry at the end. -/
def post : List (κ × Int) → κ → Int → List (κ × Int)
  | [], key, amount => [(key, amount)]
  | (k, v) :: rest, key, amount =>
    if k = key then (k, v + amount) :: rest else (k, v) :: post rest key amount

def postAll (entries bookings : List (κ × Int)) : List (κ × Int) :=
  bookings.foldl (fun entries booking => post entries booking.1 booking.2) entries

def replay (bookings : List (κ × Int)) : List (κ × Int) := postAll [] bookings

section

variable {entries bookings : List (κ × Int)} {key key' : κ} {amount : Int}

/-! ## Totals -/

@[simp] theorem total_nil : total [] key = 0 := rfl

theorem total_cons (entry : κ × Int) (bookings : List (κ × Int)) (key : κ) :
    total (entry :: bookings) key = (if entry.1 = key then entry.2 else 0) +
      total bookings key := by
  by_cases hkey : entry.1 = key <;> simp [total, hkey]

theorem total_append (entries bookings : List (κ × Int)) (key : κ) :
    total (entries ++ bookings) key = total entries key + total bookings key := by
  simp [total]

theorem total_eq_zero (h : key ∉ bookings.map Prod.fst) : total bookings key = 0 := by
  have hnone : bookings.filter (fun booking => booking.1 = key) = [] := by
    refine filter_eq_nil_iff.2 fun booking hmem => ?_
    simpa using fun heq : booking.1 = key => h (heq ▸ mem_map_of_mem hmem)
  rw [total, hnone]
  rfl

/-- Where keys do not repeat, the total is what the entry says. -/
theorem total_eq_of_mem (hnd : (entries.map Prod.fst).Nodup) (h : (key, amount) ∈ entries) :
    total entries key = amount := by
  induction entries with
  | nil => exact absurd h not_mem_nil
  | cons entry rest ih =>
    rw [map_cons, nodup_cons] at hnd
    rw [total_cons]
    rcases mem_cons.1 h with rfl | hmem
    · rw [if_pos rfl, total_eq_zero hnd.1, Int.add_zero]
    · have hne : entry.1 ≠ key := fun heq => hnd.1 (heq ▸ mem_map_of_mem hmem)
      rw [if_neg hne, ih hnd.2 hmem, Int.zero_add]

/-- Where keys do not repeat, changing the entries changes the totals alike. -/
theorem total_map {f : Int → Int} (hf : f 0 = 0) (hnd : (entries.map Prod.fst).Nodup) (key : κ) :
    total (entries.map fun entry => (entry.1, f entry.2)) key = f (total entries key) := by
  induction entries with
  | nil => exact hf.symm
  | cons entry rest ih =>
    rw [map_cons, nodup_cons] at hnd
    rw [map_cons, total_cons, total_cons, ih hnd.2]
    by_cases hkey : entry.1 = key
    · rw [if_pos hkey, if_pos hkey, total_eq_zero (hkey ▸ hnd.1), hf, Int.add_zero, Int.add_zero]
    · rw [if_neg hkey, if_neg hkey, Int.zero_add, Int.zero_add]

theorem total_post : total (post entries key amount) key' =
    total entries key' + if key = key' then amount else 0 := by
  induction entries with
  | nil => simp [post, total_cons]
  | cons entry rest ih =>
    obtain ⟨k, v⟩ := entry
    simp only [post]
    split
    · rename_i hkey
      subst hkey
      simp only [total_cons]
      split <;> omega
    · simp only [total_cons, ih]
      omega

/-! ## Entries -/

theorem keys_post : (post entries key amount).map Prod.fst =
    if key ∈ entries.map Prod.fst then entries.map Prod.fst else entries.map Prod.fst ++ [key] := by
  induction entries with
  | nil => simp [post]
  | cons entry rest ih =>
    obtain ⟨k, v⟩ := entry
    by_cases hkey : k = key
    · simp [post, hkey]
    · by_cases hmem : key ∈ rest.map Prod.fst <;> simp_all [post, Ne.symm hkey]

theorem post_eq_append (h : key ∉ entries.map Prod.fst) :
    post entries key amount = entries ++ [(key, amount)] := by
  induction entries with
  | nil => rfl
  | cons entry rest ih =>
    rw [map_cons, mem_cons, not_or] at h
    rw [post, if_neg (Ne.symm h.1), ih h.2, cons_append]

theorem post_eq_set (hnd : (entries.map Prod.fst).Nodup) {i : Nat} {old : Int}
    (h : entries[i]? = some (key, old)) :
    post entries key amount = entries.set i (key, old + amount) := by
  induction entries generalizing i with
  | nil => cases h
  | cons entry rest ih =>
    rw [map_cons, nodup_cons] at hnd
    cases i with
    | zero =>
      obtain rfl : entry = (key, old) := by simpa using h
      rw [post, if_pos rfl, set_cons_zero]
    | succ i =>
      have hmem : (key, old) ∈ rest := mem_of_getElem? (by simpa using h)
      have hne : entry.1 ≠ key := fun heq => hnd.1 (heq ▸ mem_map_of_mem hmem)
      rw [post, if_neg hne, ih hnd.2 (by simpa using h), set_cons_succ]

theorem nodup_post (h : (entries.map Prod.fst).Nodup) :
    ((post entries key amount).map Prod.fst).Nodup := by
  rw [keys_post]
  split
  · exact h
  rename_i hkey
  refine nodup_append.2 ⟨h, nodup_singleton key, fun k hk k' hk' heq => ?_⟩
  rw [mem_singleton.1 hk'] at heq
  exact hkey (heq ▸ hk)

theorem mem_keys_post : key' ∈ (post entries key amount).map Prod.fst ↔
    key' ∈ entries.map Prod.fst ∨ key' = key := by
  rw [keys_post]
  split
  · rename_i hkey
    exact ⟨.inl, fun h => h.elim (fun h => h) fun h => h ▸ hkey⟩
  · rw [mem_append, mem_singleton]

/-! ## Ledgers of bookings -/

theorem postAll_concat (entries bookings : List (κ × Int)) (booking : κ × Int) :
    postAll entries (bookings ++ [booking]) =
      post (postAll entries bookings) booking.1 booking.2 := by
  rw [postAll, foldl_append]
  rfl

theorem postAll_append (entries bookings bookings' : List (κ × Int)) :
    postAll entries (bookings ++ bookings') = postAll (postAll entries bookings) bookings' :=
  foldl_append

/-- A ledger keeps the sums of what is booked. -/
theorem total_postAll (entries bookings : List (κ × Int)) (key : κ) :
    total (postAll entries bookings) key = total entries key + total bookings key := by
  induction bookings using List.reverseRecOn with
  | nil => exact (Int.add_zero _).symm
  | append_singleton bookings booking ih =>
    rw [postAll_concat, total_post, ih, total_append, total_cons, total_nil, Int.add_zero,
      Int.add_assoc]

theorem total_replay (bookings : List (κ × Int)) (key : κ) :
    total (replay bookings) key = total bookings key := by
  rw [replay, total_postAll, total_nil, Int.zero_add]

theorem nodup_replay (bookings : List (κ × Int)) : ((replay bookings).map Prod.fst).Nodup := by
  unfold replay
  induction bookings using List.reverseRecOn with
  | nil => exact nodup_nil
  | append_singleton bookings booking ih =>
    rw [postAll_concat]
    exact nodup_post ih

theorem mem_keys_replay : key ∈ (replay bookings).map Prod.fst ↔ key ∈ bookings.map Prod.fst := by
  unfold replay
  induction bookings using List.reverseRecOn with
  | nil => rfl
  | append_singleton bookings booking ih =>
    rw [postAll_concat, mem_keys_post, ih, map_append, mem_append, map_cons,
      map_nil, mem_singleton]

end

end Huatuo.Ledger
