import Huatuo.Lib.Loop
import Huatuo.Job.ListPage
import Huatuo.Job.StorageProof

/-!
# Listing Jobs: pages

`listPage_pages` — the pages of a query, concatenated, are the matching Jobs, each once, in the
requested order, and a page says that there is more exactly if a later page has something.

`Matches` and `Precedes` say what a query asks for, without filters and statements.
-/

namespace Huatuo.Job

open List

/-! ## What a query asks for -/

/-- A Job is one of those asked for. -/
def Matches (query : Query) (job : Job) : Prop :=
  (query.id = "" ∨ job.id = query.id) ∧
  (query.lastReadID = "" ∨ query.lastReadID < job.id) ∧
  (query.isAdmin = true ∨ query.userID = "" ∨ job.userID = query.userID) ∧
  (query.containerID = "" ∨ job.containerID = query.containerID) ∧
  (query.hostname = "" ∨ job.hostname = query.hostname) ∧
  (query.statuses = [] ∨ job.status.raw ∈ query.statuses.map Status.raw) ∧
  (query.kinds = [] ∨ job.kind.raw ∈ query.kinds.map Kind.raw) ∧
  (query.subtypes = [] ∨ job.spec.subtype job.kind ∈ query.subtypes)

instance (query : Query) (job : Job) : Decidable (Matches query job) := by
  unfold Matches
  infer_instance

/-- A Job is before another one in a field: texts by their characters, times as instants. A Job
that has not ended is before those that have. -/
def FieldLt (field : String) (a b : Job) : Prop :=
  match field with
  | "id" => a.id < b.id
  | "user_id" => a.userID < b.userID
  | "container_id" => a.containerID < b.containerID
  | "hostname" => a.hostname < b.hostname
  | "status" => a.status.raw < b.status.raw
  | "kind" => a.kind.raw < b.kind.raw
  | "subtype" => a.spec.subtype a.kind < b.spec.subtype b.kind
  | "created_at" => a.createdAt < b.createdAt
  | "ended_at" => a.endedAt < b.endedAt
  | _ => False

/-- A Job comes before another: by the field, then by ID. -/
def SortsBefore (field : String) (a b : Job) : Prop :=
  FieldLt field a b ∨ ¬ FieldLt field b a ∧ a.id < b.id

/-- The order of a query, in either direction. -/
def Precedes (field : String) (desc : Bool) (a b : Job) : Prop :=
  if desc then SortsBefore field b a else SortsBefore field a b

/-- The times of a Job are before the year 10000, as those that a record can hold. -/
def InTime (job : Job) : Prop :=
  job.createdAt < Timeutil.endOfTime ∧ job.endedAt < Timeutil.endOfTime

instance (job : Job) : Decidable job.InTime := inferInstanceAs (Decidable (_ ∧ _))

/-! ## Filters -/

variable {field : String} {query : Query} {rows : List Job} {job : Job}

theorem all_equalFilter {value : String} :
    ((equalFilter field value).all fun filter => filter.holds indexField job) = true ↔
      value = "" ∨ indexField job field = value := by
  unfold equalFilter
  split <;> simp_all [Storage.Filter.holds]

theorem all_inFilter {values : List String} :
    ((inFilter field values).all fun filter => filter.holds indexField job) = true ↔
      values = [] ∨ indexField job field ∈ values := by
  unfold inFilter
  split <;> simp_all [Storage.Filter.holds]

theorem all_queryFilters (query : Query) (job : Job) :
    ((queryFilters query).all fun filter => filter.holds indexField job) = true ↔
      Matches query job := by
  have hlast : ((if query.lastReadID = "" then [] else [⟨"id", .gt query.lastReadID⟩] :
      List Storage.Filter).all fun filter => filter.holds indexField job) = true ↔
      query.lastReadID = "" ∨ query.lastReadID < job.id := by
    split <;> simp_all [Storage.Filter.holds, indexField]
  have huser : ((if query.isAdmin then [] else equalFilter "user_id" query.userID).all fun filter =>
      filter.holds indexField job) = true ↔
      query.isAdmin = true ∨ query.userID = "" ∨ job.userID = query.userID := by
    split
    · simp_all
    · rw [all_equalFilter]
      simp_all [indexField]
  simp only [queryFilters, all_append, Bool.and_eq_true, all_equalFilter, all_inFilter, hlast,
    huser, Matches, map_eq_nil_iff, indexField, and_assoc]

/-! ## Order -/

/-- The text of a field is compared as the field is. -/
theorem indexField_lt_iff {a b : Job} (ha : a.InTime) (hb : b.InTime) (field : String) :
    indexField a field < indexField b field ↔ FieldLt field a b := by
  unfold indexField FieldLt
  split
  case h_8 => exact Timeutil.formatUTC_lt_iff ha.1 hb.1
  case h_9 =>
    by_cases hzeroA : a.endedAt = 0 <;> by_cases hzeroB : b.endedAt = 0 <;>
      simp only [hzeroA, hzeroB, Time.isZero_iff, if_true, if_false, Nat.not_lt_zero, iff_false]
    · exact lt_irrefl _
    · exact iff_of_true (Timeutil.empty_lt_formatUTC _) (Nat.pos_of_ne_zero hzeroB)
    · exact lt_asymm (Timeutil.empty_lt_formatUTC _)
    · exact Timeutil.formatUTC_lt_iff ha.2 hb.2
  case h_10 => exact iff_of_false (lt_irrefl _) (by simp_all)
  all_goals exact Iff.rfl

theorem precedes_of_sortLe {desc : Bool} {a b : Job} (ha : a.InTime) (hb : b.InTime)
    (hne : a.id ≠ b.id) (h : Storage.sortLe indexField (querySorts field desc) a b = true) :
    Precedes field desc a b := by
  have hlt {a b : Job} (ha : a.InTime) (hb : b.InTime)
      (h : indexField a field < indexField b field) : SortsBefore field a b :=
    .inl ((indexField_lt_iff ha hb field).1 h)
  unfold querySorts at h
  by_cases heq : indexField a field = indexField b field
  · have hid : field ≠ "id" := by
      rintro rfl
      exact hne heq
    have htie {a b : Job} (ha : a.InTime) (hb : b.InTime)
        (heq : indexField a field = indexField b field) (h : a.id < b.id) : SortsBefore field a b :=
      .inr ⟨fun hlt => absurd ((indexField_lt_iff hb ha field).2 hlt) (heq ▸ lt_irrefl _), h⟩
    simp only [hid, if_false, Storage.sortLe, heq, if_true] at h
    rw [if_neg (show ¬ indexField a "id" = indexField b "id" from hne)] at h
    cases desc with
    | true => exact htie hb ha heq.symm (of_decide_eq_true h)
    | false => exact htie ha hb heq (of_decide_eq_true h)
  · rw [Storage.sortLe, if_neg heq] at h
    cases desc with
    | true => exact hlt hb ha (of_decide_eq_true h)
    | false => exact hlt ha hb (of_decide_eq_true h)

/-! ## The store -/

theorem decodeBatch_of_stored {batch : List Job} (h : ∀ job ∈ batch, job.validateStored = .ok ()) :
    decodeBatch batch = .ok batch := by
  induction batch with
  | nil => rfl
  | cons job batch ih =>
    have hrest := ih fun job' hjob' => h job' (mem_cons_of_mem job hjob')
    rw [decodeBatch] at hrest ⊢
    rw [mapM_cons, h job mem_cons_self, hrest]
    rfl

/-- The query that reaches the backend. -/
def storageQuery (query : Query) : Storage.Query where
  filters := queryFilters query
  sorts := querySorts (querySort (some query)).1 (querySort (some query)).2
  limit := query.limit
  offset := query.offset

theorem buildStorageQuery_eq (hsort : validateQuerySort (some query) = .ok ()) :
    buildStorageQuery (some query) = .ok (storageQuery query) := by
  rw [buildStorageQuery, hsort]
  rfl

/-- The rows that match a query, in its order. -/
def matchingRows (query : Query) (rows : List Job) : List Job :=
  Storage.sortedRows indexField (storageQuery query) rows

theorem matchingRows_perm (query : Query) (rows : List Job) :
    (matchingRows query rows).Perm (rows.filter fun job => Matches query job) := by
  refine (Storage.sortedRows_perm _ _ _).trans (List.Perm.of_eq ?_)
  refine filter_congr fun job _ => ?_
  exact Bool.eq_iff_iff.2 ((all_queryFilters query job).trans decide_eq_true_iff.symm)

theorem matchingRows_pairwise (hrows : (rows.map Job.id).Nodup)
    (htimes : ∀ job ∈ rows, job.InTime) :
    (matchingRows query rows).Pairwise
      (Precedes (querySort (some query)).1 (querySort (some query)).2) := by
  have hsor : (matchingRows query rows).Pairwise fun a b =>
      Storage.sortLe indexField
        (querySorts (querySort (some query)).1 (querySort (some query)).2) a b = true :=
    Storage.sortedRows_pairwise _ (storageQuery query) rows
  have hdist : (matchingRows query rows).Pairwise fun a b => a.id ≠ b.id := by
    refine pairwise_map.1 (((matchingRows_perm query rows).map Job.id).nodup_iff.2 ?_)
    exact hrows.sublist (filter_sublist.map _)
  have hmem {job : Job} (h : job ∈ matchingRows query rows) : job.InTime :=
    htimes job (mem_of_mem_filter ((matchingRows_perm query rows).subset h))
  exact (hsor.and hdist).imp_of_mem fun ha hb h => precedes_of_sortLe (hmem ha) (hmem hb) h.2 h.1

theorem list_eq (hsto : ∀ job ∈ rows, job.validateStored = .ok ())
    (hsort : validateQuerySort (some query) = .ok ()) (hlimit : 0 < query.limit)
    (hoff : 0 ≤ query.offset) :
    list rows (some query) =
      .ok (((matchingRows query rows).drop query.offset.toNat).take
        query.limit.toNat) := by
  have hvalid : Storage.validateQuery (storageQuery query) = .ok () := by
    simp [storageQuery, Storage.validateQuery, not_le.2 hlimit, not_lt.2 hoff]
  have hfla := Storage.flatten_queryRows indexField (storageQuery query) rows
  have hrow : ∀ batch ∈ Storage.queryRows indexField (storageQuery query) rows,
      ∀ job ∈ batch, job.validateStored = .ok () := by
    intro batch hbatch job hjob
    have hmem : job ∈ Storage.selectRows indexField (storageQuery query) rows :=
      hfla ▸ mem_flatten.2 ⟨batch, hbatch, hjob⟩
    have hmat : job ∈ matchingRows query rows :=
      mem_of_mem_drop (mem_of_mem_take hmem)
    exact hsto job (mem_of_mem_filter ((matchingRows_perm query rows).subset hmat))
  simp only [list, buildStorageQuery_eq hsort, hvalid]
  rw [Loop.foldlM_ok (f := fun jobs batch => jobs ++ batch)]
  · have hfold : ∀ batches : List (List Job),
        batches.foldl (fun jobs batch => jobs ++ batch) [] = batches.flatten := fun batches =>
      (foldl_append_eq_append (f := fun batch => batch)).trans (by simp)
    rw [hfold, hfla]
    rfl
  · intro jobs batch hbatch
    rw [decodeBatch_of_stored (hrow batch hbatch)]
    rfl

/-! ## Pages -/

theorem listPage_eq (hsto : ∀ job ∈ rows, job.validateStored = .ok ())
    (hsort : validateQuerySort (some query) = .ok ()) (hlow : 1 ≤ query.limit)
    (hhigh : query.limit ≤ 1000)
    (hoff : 0 ≤ query.offset) : let matching := matchingRows query rows
    listPage rows (some query) = .ok
      { items := (matching.drop query.offset.toNat).take query.limit.toNat
        hasMore := decide (query.offset.toNat + query.limit.toNat < matching.length) } := by
  have hvalid : validateListPageQuery (some query) = .ok () := by
    have hlimit : ¬ (query.limit ≤ 0 ∨ query.limit > maxJobPageSize) := by
      have hmax : maxJobPageSize = 1000 := rfl
      omega
    rw [validateListPageQuery, if_neg hlimit, if_neg (not_lt.2 hoff)]
  have hlist : list rows (some { query with limit := query.limit + 1 }) = .ok
      (((matchingRows query rows).drop query.offset.toNat).take
        (query.limit + 1).toNat) :=
    list_eq hsto hsort (show (0 : Int) < query.limit + 1 by omega) hoff
  obtain ⟨limit, hlimit⟩ : ∃ limit : Nat, query.limit = limit :=
    ⟨query.limit.toNat, (Int.toNat_of_nonneg (by omega)).symm⟩
  simp only [listPage, hvalid, hlist]
  simp only [hlimit, Int.toNat_natCast, Except.ok.injEq, Page.mk.injEq,
    show ((limit : Int) + 1).toNat = limit + 1 by omega]
  generalize (matchingRows query rows) = matching
  have hmore : (((matching.drop query.offset.toNat).take (limit + 1)).length : Int) > limit ↔
      query.offset.toNat + limit < matching.length := by
    rw [length_take, length_drop]
    omega
  refine ⟨?_, by simp only [hmore]⟩
  split
  · rw [take_take, Nat.min_eq_left (Nat.le_succ limit)]
  rename_i hnot
  -- what is not longer than the page is all there is
  simp only [decide_eq_true_eq, hmore] at hnot
  rw [take_of_length_le, take_of_length_le] <;> rw [length_drop] <;> omega

/-- **Pages.** For every content of the store and every valid query, the pages at offsets `0`,
`limit`, `2 * limit` and so on exist and are, one behind the other, the matching Jobs in the
requested order. A page announces more exactly if a later one is not empty. -/
theorem listPage_pages (rows : List Job) (hrows : (rows.map Job.id).Nodup)
    (hstored : ∀ job ∈ rows, job.validateStored = .ok ()) (htimes : ∀ job ∈ rows, job.InTime)
    (query : Query) (hsort : validateQuerySort (some query) = .ok ()) (hlow : 1 ≤ query.limit)
    (hhigh : query.limit ≤ 1000) :
    ∃ matching : List Job, ∃ pages : Nat → Page,
      matching.Perm (rows.filter fun job => Matches query job) ∧
      matching.Pairwise
        (Precedes (querySort (some query)).1 (querySort (some query)).2) ∧
      (∀ k : Nat, listPage rows (some { query with offset := k * query.limit }) =
        .ok (pages k)) ∧
      (∀ n : Nat, (matching.length : Int) ≤ n * query.limit →
        ((List.range n).flatMap fun k => (pages k).items) = matching) ∧
      ∀ k, (pages k).hasMore = true ↔ ∃ j, k < j ∧ (pages j).items ≠ [] := by
  obtain ⟨limit, hlimit⟩ : ∃ limit : Nat, query.limit = limit :=
    ⟨query.limit.toNat, (Int.toNat_of_nonneg (by omega)).symm⟩
  have hpos : 0 < limit := by omega
  refine ⟨matchingRows query rows, fun k =>
    { items := ((matchingRows query rows).drop (k * limit)).take limit
      hasMore := decide (k * limit + limit < (matchingRows query rows).length) },
    matchingRows_perm query rows, matchingRows_pairwise hrows htimes, ?_, ?_, ?_⟩
  · intro k
    have hoffset : (k : Int) * query.limit = ((k * limit : Nat) : Int) := by
      rw [hlimit, Int.natCast_mul]
    have hpage : listPage rows (some { query with offset := k * query.limit }) = .ok
        { items := ((matchingRows query rows).drop (k * query.limit).toNat).take
            query.limit.toNat
          hasMore := decide ((k * query.limit).toNat + query.limit.toNat <
            (matchingRows query rows).length) } :=
      listPage_eq hstored hsort hlow hhigh
        (show (0 : Int) ≤ k * query.limit from hoffset ▸ Int.natCast_nonneg _)
    rw [hpage, hoffset, hlimit, Int.toNat_natCast, Int.toNat_natCast]
  · intro n hn
    rw [Pages.flatMap_pages, take_of_length_le]
    rw [hlimit, ← Int.natCast_mul] at hn
    exact Int.ofNat_le.1 hn
  · intro k
    simp only [decide_eq_true_eq, ne_eq, take_eq_nil_iff, drop_eq_nil_iff, not_or, not_le]
    constructor
    · intro hmore
      exact ⟨k + 1, Nat.lt_succ_self k, by omega, by rw [Nat.succ_mul]; exact hmore⟩
    · rintro ⟨j, hkj, -, hlt⟩
      have hle : (k + 1) * limit ≤ j * limit := Nat.mul_le_mul_right limit hkj
      rw [Nat.succ_mul] at hle
      exact Nat.lt_of_le_of_lt hle hlt

/-- Three Jobs, two of them created at the same time. -/
def tiedJobs : List Job :=
  [sampleJob, { sampleJob with id := "job3", createdAt := 5, updatedAt := 5 },
    { sampleJob with id := "job2" }]

/-- In pages of two, the latest Job comes first, and the others are in the order of their IDs. -/
theorem listPage_pages_ties : ∃ first second : Page,
    listPage tiedJobs (some { limit := 2, offset := 0 }) = .ok first ∧
    listPage tiedJobs (some { limit := 2, offset := 2 }) = .ok second ∧
    ((first.items ++ second.items).map Job.id).Perm ["job", "job3", "job2"] ∧
    (first.items ++ second.items).Pairwise fun a b =>
      b.createdAt < a.createdAt ∨ ¬ a.createdAt < b.createdAt ∧ b.id < a.id := by
  obtain ⟨matching, pages, hperm, horder, hpages, hconcat, -⟩ :=
    listPage_pages tiedJobs (by decide) (by decide) (by decide +kernel) { limit := 2 }
      (by decide) (by decide) (by decide)
  have hlength : matching.length = 3 := hperm.length_eq.trans (by decide)
  have hall : (pages 0).items ++ (pages 1).items = matching := by
    have hrange := hconcat 2 (by rw [hlength]; decide)
    simpa [range_succ] using hrange
  refine ⟨pages 0, pages 1, hpages 0, hpages 1, ?_, ?_⟩
  · rw [hall]
    exact (hperm.map Job.id).trans (Perm.of_eq (by decide))
  · rw [hall]
    exact horder

end Huatuo.Job
