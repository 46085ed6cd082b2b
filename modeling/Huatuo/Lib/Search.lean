import Mathlib.Data.List.Basic

/-!
# Binary search

`search` is the loop of Go's `sort.Search`: between two bounds the half that holds the first
position with a property is kept. `floor` is the usual use of it on a list sorted by a key, the
last element whose key is at most `k`.

`search_spec` — for a property that stays true once it holds, the result separates the positions
without it from those with it. `floor_eq_getLast?` says the same of a sorted list, and the other
facts about `floor` follow from it.
-/

namespace Huatuo.Search

open List

/-! ## The loop -/

def searchLoop (above : Nat → Bool) : Nat → Nat → Nat → Nat
  | 0, i, _ => i
  | fuel + 1, i, j =>
    if i < j then
      let h := (i + j) / 2
      if above h then searchLoop above fuel i h else searchLoop above fuel (h + 1) j
    else i

/-- The first position below `n` with the property, or `n`. -/
def search (n : Nat) (above : Nat → Bool) : Nat := searchLoop above n 0 n

variable {above : Nat → Bool}

/-- The invariant of the loop: no position below `i` has the property, all from `j` on have it. -/
theorem searchLoop_spec {n : Nat} (hmono : ∀ i k, i ≤ k → k < n → above i = true → above k = true)
    (fuel : Nat) : ∀ {i j : Nat}, i ≤ j → j ≤ n → j - i ≤ fuel →
      (∀ k, k < i → above k = false) → (∀ k, j ≤ k → k < n → above k = true) →
      searchLoop above fuel i j ≤ n ∧ (∀ k, k < searchLoop above fuel i j → above k = false) ∧
        ∀ k, searchLoop above fuel i j ≤ k → k < n → above k = true := by
  induction fuel with intro i j hij hjn hfuel hbelow habove
  | zero =>
    obtain rfl : i = j := by omega
    exact ⟨hjn, hbelow, habove⟩
  | succ fuel ih =>
    unfold searchLoop
    split
    case isFalse h =>
      obtain rfl : i = j := by omega
      exact ⟨hjn, hbelow, habove⟩
    case isTrue h =>
      have hmid : i ≤ (i + j) / 2 ∧ (i + j) / 2 < j := by omega
      dsimp only
      split
      case isTrue hleft =>
        exact ih hmid.1 (by omega) (by omega) hbelow fun k hk hkn => hmono _ k hk hkn hleft
      case isFalse hright =>
        refine ih (by omega) hjn (by omega) (fun k hk => ?_) habove
        -- a position with the property would pass it on to the middle
        refine Bool.eq_false_iff.2 fun hkab => hright (hmono k _ ?_ ?_ hkab)
        · omega
        · omega

theorem search_spec {n : Nat} (hmono : ∀ i k, i ≤ k → k < n → above i = true → above k = true) :
    search n above ≤ n ∧ (∀ k, k < search n above → above k = false) ∧
      ∀ k, search n above ≤ k → k < n → above k = true :=
  searchLoop_spec hmono n (Nat.zero_le n) (Nat.le_refl n) (by omega) (fun k hk => by omega)
    fun k hk hkn => by omega

/-! ## The last element with a key at most `k` -/

variable {α : Type*} (key : α → Nat) (l : List α) (k : Nat)

/-- The element before the first one with a key above `k`. -/
def floor : Option α :=
  match search l.length (fun i => l[i]?.any fun x => decide (k < key x)) with
  | 0 => none
  | i + 1 => l[i]?

variable {key l k}

theorem floor_eq_getLast? (hsort : l.Pairwise fun a b => key a ≤ key b) :
    floor key l k = (l.filter fun x => decide (key x ≤ k)).getLast? := by
  set above : Nat → Bool := fun i => l[i]?.any fun x => decide (k < key x) with habove
  have hget {i : Nat} (h : i < l.length) : above i = decide (k < key l[i]) := by
    simp only [habove, List.getElem?_eq_getElem h, Option.any_some]
  have hmono : ∀ i j, i ≤ j → j < l.length → above i = true → above j = true := by
    intro i j hij hj hi
    rw [hget (by omega), decide_eq_true_eq] at hi
    rw [hget hj, decide_eq_true_eq]
    rcases Nat.lt_or_eq_of_le hij with hlt | rfl
    · exact Nat.lt_of_lt_of_le hi (pairwise_iff_getElem.1 hsort i j (by omega) hj hlt)
    · exact hi
  obtain ⟨hle, hbelow, hfrom⟩ := search_spec hmono
  -- the filter keeps what stands before the position found
  have hfil : (l.filter fun x => decide (key x ≤ k)) = l.take (search l.length above) := by
    have htake : ∀ x ∈ l.take (search l.length above), decide (key x ≤ k) = true := by
      intro x hx
      obtain ⟨i, hi, rfl⟩ := getElem_of_mem hx
      rw [length_take] at hi
      have := hbelow i (by omega)
      rw [hget (by omega), decide_eq_false_iff_not] at this
      rw [getElem_take, decide_eq_true_eq]
      omega
    have hdrop : ∀ x ∈ l.drop (search l.length above), ¬ decide (key x ≤ k) = true := by
      intro x hx
      obtain ⟨i, hi, rfl⟩ := getElem_of_mem hx
      rw [length_drop] at hi
      have := hfrom (search l.length above + i) (by omega) (by omega)
      rw [hget (by omega), decide_eq_true_eq] at this
      rw [getElem_drop, decide_eq_true_eq]
      omega
    conv_lhs => rw [← take_append_drop (search l.length above) l]
    rw [filter_append, filter_eq_self.2 htake, filter_eq_nil_iff.2 hdrop,
      append_nil]
  rw [hfil, floor]
  cases hpos : search l.length above with
  | zero => rfl
  | succ i =>
    have hi : i < l.length := by omega
    rw [List.getLast?_take, if_neg (Nat.succ_ne_zero i), Nat.succ_sub_one,
      List.getElem?_eq_getElem hi, Option.some_or]
    exact List.getElem?_eq_getElem hi

variable {x : α} (hsort : l.Pairwise fun a b => key a ≤ key b)
include hsort

theorem floor_eq_some (h : floor key l k = some x) :
    x ∈ l ∧ key x ≤ k ∧ ∀ y ∈ l, key y ≤ k → key y ≤ key x := by
  rw [floor_eq_getLast? hsort] at h
  have hmem := mem_filter.1 (mem_of_getLast? h)
  refine ⟨hmem.1, of_decide_eq_true hmem.2, fun y hy hyk => ?_⟩
  obtain ⟨front, hfront⟩ := List.getLast?_eq_some_iff.1 h
  have hpairs : (front ++ [x]).Pairwise fun a b => key a ≤ key b := hfront ▸ hsort.filter _
  have hy' : y ∈ front ++ [x] := hfront ▸ mem_filter.2 ⟨hy, decide_eq_true hyk⟩
  rcases mem_append.1 hy' with hy' | hy'
  · exact (pairwise_append.1 hpairs).2.2 y hy' x mem_cons_self
  · exact Nat.le_of_eq (congrArg key (mem_singleton.1 hy'))

theorem floor_isSome (hx : x ∈ l) (hk : key x ≤ k) : ∃ y, floor key l k = some y := by
  rw [floor_eq_getLast? hsort, ← Option.isSome_iff_exists, List.getLast?_isSome]
  exact ne_nil_of_mem (mem_filter.2 ⟨hx, decide_eq_true hk⟩)

/-- What is found for `k` is found for its own key. -/
theorem floor_key (h : floor key l k = some x) : floor key l (key x) = some x := by
  obtain ⟨-, hxk, hmax⟩ := floor_eq_some hsort h
  rw [floor_eq_getLast? hsort] at h ⊢
  rw [← h]
  congr 1
  refine filter_congr fun y hy => decide_eq_decide.2 ⟨fun hle => ?_, hmax y hy⟩
  exact Nat.le_trans hle hxk

/-- Of several elements with one key only one is ever found. -/
theorem floor_inj {k' : Nat} {y : α} (hx : floor key l k = some x) (hy : floor key l k' = some y)
    (hkey : key x = key y) : x = y :=
  Option.some.inj ((floor_key hsort hx).symm.trans (hkey ▸ floor_key hsort hy))

end Huatuo.Search
