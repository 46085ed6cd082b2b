import Huatuo.Lib.Pages
import Huatuo.Storage.Driver

/-!
# Queries of the SQLite backend

`internal/storage/sqlite`. The statement of `buildSelectSQL` selects the rows that satisfy every
filter, orders them by the sort fields one after another, and takes `LIMIT` of them from
`OFFSET` on. The order of rows that are equal in every sort field is left open by SQL;
`mergeSort` keeps the order of the table, and nothing here depends on it.

`field` is what `jsonExtractExpr` names: a column or a value of the `fields` document. Every row
has all of them, and they are texts, compared byte by byte.
-/

namespace Huatuo.Storage

variable {ρ : Type} (field : ρ → String → String)

/-! ## The statement -/

/-- One clause of `WHERE`. -/
def Filter.holds (filter : Filter) (row : ρ) : Bool :=
  let extracted := field row filter.field
  match filter.op with
  | .eq value => decide (extracted = value)
  | .ne value => decide (extracted ≠ value)
  | .gt value => decide (value < extracted)
  | .gte value => decide (value ≤ extracted)
  | .lt value => decide (extracted < value)
  | .lte value => decide (extracted ≤ value)
  | .isIn values => values.contains extracted
  | .fieldExists => true
  | .notExists => false

/-- `ORDER BY`: whether a row may stand in front of another. -/
def sortLe : List SortField → ρ → ρ → Bool
  | [], _, _ => true
  | sort :: rest, a, b =>
    if field a sort.field = field b sort.field then sortLe rest a b
    else if sort.desc then decide (field b sort.field < field a sort.field)
    else decide (field a sort.field < field b sort.field)

variable (q : Query)

/-- The rows that match, in order. -/
def sortedRows (rows : List ρ) : List ρ :=
  (rows.filter fun row => q.filters.all fun filter => filter.holds field row).mergeSort
    (sortLe field q.sorts)

def selectRows (rows : List ρ) : List ρ :=
  ((sortedRows field q rows).drop q.offset.toNat).take q.limit.toNat

/-- `Storage.Query`: the batches that are passed to the consumer. -/
def queryRows (rows : List ρ) : List (List ρ) :=
  Pages.batches q.readSize.toNat (selectRows field q rows) []

/-! ## The order -/

theorem sortLe_total (sorts : List SortField) (a b : ρ) :
    (sortLe field sorts a b || sortLe field sorts b a) = true := by
  induction sorts with
  | nil => rfl
  | cons sort rest ih =>
    by_cases heq : field a sort.field = field b sort.field
    · simpa [sortLe, heq] using ih
    have hne : ¬ field b sort.field = field a sort.field := fun h => heq h.symm
    simp only [sortLe, heq, hne, if_false]
    cases sort.desc <;>
      simpa [or_comm] using lt_or_gt_of_ne heq

theorem sortLe_trans (sorts : List SortField) (a b c : ρ) (hab : sortLe field sorts a b = true)
    (hbc : sortLe field sorts b c = true) : sortLe field sorts a c = true := by
  induction sorts with
  | nil => rfl
  | cons sort rest ih =>
    simp only [sortLe] at hab hbc ⊢
    by_cases hxy : field a sort.field = field b sort.field
    · rw [if_pos hxy] at hab
      rw [hxy]
      by_cases hyz : field b sort.field = field c sort.field
      · rw [if_pos hyz] at hbc ⊢
        exact ih hab hbc
      · rw [if_neg hyz] at hbc ⊢
        exact hbc
    · rw [if_neg hxy] at hab
      by_cases hyz : field b sort.field = field c sort.field
      · rw [← hyz, if_neg hxy]
        exact hab
      · rw [if_neg hyz] at hbc
        -- both steps are strict and go the same way
        cases hdesc : sort.desc with
        | true =>
          simp only [hdesc, if_true, decide_eq_true_eq] at hab hbc
          have hlt := hbc.trans hab
          rw [if_neg (ne_of_gt hlt), if_pos rfl]
          exact decide_eq_true hlt
        | false =>
          simp only [hdesc, Bool.false_eq_true, if_false, decide_eq_true_eq] at hab hbc
          have hlt := hab.trans hbc
          rw [if_neg (ne_of_lt hlt), if_neg Bool.false_ne_true]
          exact decide_eq_true hlt

theorem sortedRows_perm (rows : List ρ) :
    (sortedRows field q rows).Perm
      (rows.filter fun row => q.filters.all fun filter => filter.holds field row) :=
  List.mergeSort_perm _ _

theorem sortedRows_pairwise (rows : List ρ) :
    (sortedRows field q rows).Pairwise fun a b => sortLe field q.sorts a b = true :=
  List.pairwise_mergeSort (fun a b c => sortLe_trans field q.sorts a b c)
    (sortLe_total field q.sorts) _

theorem flatten_queryRows (rows : List ρ) :
    (queryRows field q rows).flatten = selectRows field q rows :=
  Pages.flatten_batches _ _ []

end Huatuo.Storage
