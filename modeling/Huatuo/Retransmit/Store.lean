import Huatuo.Lib.Index
import Huatuo.Lib.Runs
import Huatuo.Retransmit.Match

/-!
# The bounded event store

`store.go`: a list of entries in deadline order, and an index from canonical flows to the
entries of that flow. The list owns the entries; the index holds pointers to them. The address of
an entry is the number of entries added up to it. Its `sequence` is that number in a word of 64
bits.

* `add` appends an entry, evicting the front one at capacity.
* `entriesForFlow` borrows a bucket of the index.
* `takeExpired` removes the front entry once its deadline has passed; `drain` removes all.

`Store.WellFormed` is the representation invariant. Under it the index is exactly the index of
the list (`entriesForFlow_eq`), so the correlator can be reasoned about as if it scanned the
list itself. It holds after any use of a store (`store_representation`), where the deadlines are
in list order too, so that looking at the front entry is enough to expire. The sequences are in
list order until the word overflows (`sequences_wrap`).
-/

namespace Huatuo.Retransmit

open List

/-- An entry of a store. The list element `node` is the entry's place in `byDeadline`. -/
structure StoreEntry (T : Type) where
  value : T
  flow : FlowKey
  deadline : Time
  address : Nat
  sequence : UInt64
  deriving DecidableEq

/-- `newStore` panics unless capacity and TTL are positive, so every store has both. -/
structure Store (T : Type) where
  byDeadline : List (StoreEntry T)
  byFlow : FlowKey → Option (List Nat)
  capacity : Nat
  ttl : Duration
  nextSequence : UInt64
  /-- the entries added so far -/
  added : Nat
  capacity_pos : 0 < capacity
  ttl_pos : 0 < ttl

variable {T : Type}

def newStore (capacity : Nat) (ttl : Duration) (hcap : 0 < capacity) (httl : 0 < ttl) :
    Store T where
  byDeadline := []
  byFlow := fun _ => none
  capacity := capacity
  ttl := ttl
  nextSequence := 0
  added := 0
  capacity_pos := hcap
  ttl_pos := httl

/-- The key an entry is indexed under. -/
def StoreEntry.key (e : StoreEntry T) : FlowKey := canonicalFlow e.flow

namespace Store

/-- Unlink an entry from its bucket and from the list. -/
def remove (s : Store T) (entry : StoreEntry T) : Store T :=
  { s with
    byFlow := Index.remove s.byFlow entry.key entry.address
    byDeadline := s.byDeadline.eraseP fun e => decide (e.address = entry.address) }

/-- The first half of `add`: at capacity the earliest deadline is evicted. -/
def evict (s : Store T) : Option (StoreEntry T) × Store T :=
  if s.byDeadline.length = s.capacity then
    match s.byDeadline with
    | [] => (none, s)
    | front :: _ => (some front, s.remove front)
  else (none, s)

/-- The second half of `add`: the new entry goes to the back of the list and of its bucket. -/
def push (s : Store T) (value : T) (flow : FlowKey) (now : Time) : Store T :=
  let entry : StoreEntry T :=
    { value := value, flow := flow, deadline := now.add s.ttl, address := s.added + 1,
      sequence := s.nextSequence + 1 }
  { s with
    nextSequence := s.nextSequence + 1
    added := s.added + 1
    byDeadline := s.byDeadline ++ [entry]
    byFlow := Index.insert s.byFlow entry.key entry.address }

def add (s : Store T) (value : T) (flow : FlowKey) (now : Time) : Option (StoreEntry T) × Store T :=
  (s.evict.1, s.evict.2.push value flow now)

/-- The entry a pointer refers to. -/
def deref (s : Store T) (address : Nat) : Option (StoreEntry T) :=
  s.byDeadline.find? fun e => decide (e.address = address)

def entriesForFlow (s : Store T) (flow : FlowKey) : List (StoreEntry T) :=
  ((s.byFlow (canonicalFlow flow)).getD []).filterMap s.deref

/-- An assignment through a pointer to an entry's value. -/
def modify (s : Store T) (address : Nat) (f : T → T) : Store T :=
  { s with
    byDeadline := s.byDeadline.map fun e =>
      if e.address = address then { e with value := f e.value } else e }

def takeExpired (s : Store T) (now : Time) : Option (StoreEntry T × Store T) :=
  match s.byDeadline with
  | [] => none
  | front :: _ => if now.before front.deadline then none else some (front, s.remove front)

/-- `takeExpired` called until it returns nil. Every call shortens the list, so its length is
fuel enough (`takeExpired_takeAllExpired`). -/
def takeExpiredFuel (now : Time) : Nat → Store T → List (StoreEntry T) × Store T
  | 0, s => ([], s)
  | fuel + 1, s =>
    match s.takeExpired now with
    | none => ([], s)
    | some (e, s') =>
      (e :: (takeExpiredFuel now fuel s').1, (takeExpiredFuel now fuel s').2)

def takeAllExpired (s : Store T) (now : Time) : List (StoreEntry T) × Store T :=
  takeExpiredFuel now s.byDeadline.length s

def nextDeadline (s : Store T) : Option Time := s.byDeadline.head?.map (·.deadline)

/-- The loop of `drain`: remove the front until the list is empty. -/
def drainFuel : Nat → Store T → List (StoreEntry T) × Store T
  | 0, s => ([], s)
  | fuel + 1, s =>
    match s.byDeadline with
    | [] => ([], s)
    | front :: _ =>
      (front :: (drainFuel fuel (s.remove front)).1, (drainFuel fuel (s.remove front)).2)

def drain (s : Store T) : List (StoreEntry T) × Store T := drainFuel s.byDeadline.length s

/-! ## The representation invariant -/

/-- The list is in insertion order with distinct addresses, the index is the list's, and the
capacity is respected. -/
structure WellFormed (s : Store T) : Prop where
  sorted : s.byDeadline.Pairwise fun a b => a.address < b.address
  bounded : ∀ e ∈ s.byDeadline, e.address ≤ s.added
  next : s.nextSequence = UInt64.ofNat s.added
  sequences : ∀ e ∈ s.byDeadline, e.sequence = UInt64.ofNat e.address
  indexed : s.byFlow = Index.bucket StoreEntry.key StoreEntry.address s.byDeadline
  fits : s.byDeadline.length ≤ s.capacity

theorem wellFormed_newStore (capacity : Nat) (ttl : Duration) (hcap : 0 < capacity)
    (httl : 0 < ttl) :
    (newStore capacity ttl hcap httl : Store T).WellFormed where
  sorted := List.Pairwise.nil
  bounded := by simp [newStore]
  next := rfl
  sequences := by simp [newStore]
  indexed := by simp [newStore]
  fits := Nat.zero_le _

variable {s : Store T} {e : StoreEntry T}

section

variable (h : s.WellFormed)
include h

theorem WellFormed.nodup : (s.byDeadline.map StoreEntry.address).Nodup := by
  rw [List.Nodup, pairwise_map]
  exact h.sorted.imp fun hlt => Nat.ne_of_lt hlt

theorem WellFormed.eq_of_address {a b : StoreEntry T} (ha : a ∈ s.byDeadline)
    (hb : b ∈ s.byDeadline) (hab : a.address = b.address) : a = b :=
  inj_on_of_nodup_map h.nodup ha hb hab

/-- **The index finds exactly the entries of a flow**, in list order. -/
theorem entriesForFlow_eq (flow : FlowKey) :
    s.entriesForFlow flow = s.byDeadline.filter fun e => decide (e.key = canonicalFlow flow) := by
  unfold entriesForFlow deref
  rw [h.indexed, Index.getD_bucket]
  exact Index.filterMap_find_handle h.nodup fun e he => (mem_filter.1 he).1

theorem mem_entriesForFlow {flow : FlowKey} :
    e ∈ s.entriesForFlow flow ↔ e ∈ s.byDeadline ∧ e.key = canonicalFlow flow := by
  rw [entriesForFlow_eq h, mem_filter, decide_eq_true_eq]

/-! ## Removal -/

theorem remove_perm (he : e ∈ s.byDeadline) : (e :: (s.remove e).byDeadline).Perm s.byDeadline := by
  obtain ⟨a, as, bs, hnot, ha, hl, herase⟩ :=
    exists_of_eraseP (p := fun b : StoreEntry T => decide (b.address = e.address)) he
      (by simp)
  have hae : a = e := by
    refine h.eq_of_address ?_ he (by simpa using ha)
    rw [hl]
    simp
  subst hae
  show (a :: s.byDeadline.eraseP _).Perm s.byDeadline
  rw [herase]
  conv_rhs => rw [hl]
  exact perm_middle.symm

end

theorem mem_of_mem_remove {x : StoreEntry T} (hx : x ∈ (s.remove e).byDeadline) :
    x ∈ s.byDeadline :=
  mem_of_mem_eraseP hx

theorem remove_front {front : StoreEntry T} {rest : List (StoreEntry T)}
    (hl : s.byDeadline = front :: rest) : (s.remove front).byDeadline = rest := by
  show s.byDeadline.eraseP _ = rest
  rw [hl, eraseP_cons_of_pos (by simp)]

theorem wellFormed_remove (h : s.WellFormed) (he : e ∈ s.byDeadline) : (s.remove e).WellFormed where
  sorted := h.sorted.sublist eraseP_sublist
  bounded := fun x hx => h.bounded x (mem_of_mem_remove hx)
  next := h.next
  sequences := fun x hx => h.sequences x (mem_of_mem_remove hx)
  indexed := by
    show Index.remove s.byFlow e.key e.address = _
    rw [h.indexed]
    exact (Index.bucket_eraseP h.nodup he).symm
  fits := Nat.le_trans eraseP_sublist.length_le h.fits

/-! ## Insertion -/

theorem wellFormed_evict (h : s.WellFormed) :
    s.evict.2.WellFormed ∧ s.evict.2.byDeadline.length < s.evict.2.capacity := by
  unfold evict
  split
  · rename_i hfull
    split
    · rename_i hnil
      rw [hnil] at hfull
      exact absurd s.capacity_pos (by simp [← hfull])
    · rename_i front rest hl
      refine ⟨wellFormed_remove h (by rw [hl]; exact mem_cons_self), ?_⟩
      show (s.remove front).byDeadline.length < s.capacity
      rw [remove_front hl, ← hfull, hl]
      exact Nat.lt_succ_self _
  · rename_i hfull
    exact ⟨h, Nat.lt_of_le_of_ne h.fits hfull⟩

theorem wellFormed_push (h : s.WellFormed) (hroom : s.byDeadline.length < s.capacity) (value : T)
    (flow : FlowKey) (now : Time) : (s.push value flow now).WellFormed where
  sorted := by
    refine pairwise_append.2 ⟨h.sorted, pairwise_singleton _ _, fun a ha b hb => ?_⟩
    rw [mem_singleton.1 hb]
    exact Nat.lt_succ_of_le (h.bounded a ha)
  bounded := by
    intro e he
    rcases mem_append.1 he with he | he
    · exact Nat.le_succ_of_le (h.bounded e he)
    · rw [mem_singleton.1 he]
      exact Nat.le_refl _
  next := by
    show s.nextSequence + 1 = UInt64.ofNat (s.added + 1)
    rw [h.next, UInt64.ofNat_add]
    rfl
  sequences := by
    intro e he
    rcases mem_append.1 he with he | he
    · exact h.sequences e he
    · rw [mem_singleton.1 he, h.next, UInt64.ofNat_add]
      rfl
  indexed := by
    show Index.insert s.byFlow _ _ = _
    rw [h.indexed]
    exact (Index.bucket_append_singleton _ _).symm
  fits := by
    show (s.byDeadline ++ [_]).length ≤ s.capacity
    rw [length_append]
    exact hroom

theorem wellFormed_add (h : s.WellFormed) (value : T) (flow : FlowKey) (now : Time) :
    (s.add value flow now).2.WellFormed :=
  wellFormed_push (wellFormed_evict h).1 (wellFormed_evict h).2 value flow now

/-- What `evict` returns and what it keeps are the entries there were. -/
theorem evict_perm (h : s.WellFormed) :
    (s.evict.1.toList ++ s.evict.2.byDeadline).Perm s.byDeadline := by
  unfold evict
  split
  · split
    · exact List.Perm.refl _
    · rename_i front rest hl
      exact remove_perm h (by rw [hl]; exact mem_cons_self)
  · exact List.Perm.refl _

@[simp] theorem evict_ttl (s : Store T) : s.evict.2.ttl = s.ttl := by
  unfold evict
  (repeat' split) <;> rfl

theorem mem_of_mem_add (h : s.WellFormed) {value : T} {flow : FlowKey} {now : Time}
    (he : e ∈ (s.add value flow now).2.byDeadline) :
    e ∈ s.byDeadline ∨ (e.value = value ∧ e.flow = flow ∧ e.deadline = now.add s.ttl) := by
  rcases mem_append.1 he with he | he
  · exact Or.inl ((evict_perm h).mem_iff.1 (mem_append_right _ he))
  · rw [mem_singleton.1 he]
    exact Or.inr ⟨rfl, rfl, by rw [evict_ttl]⟩

/-! ## Assignment through a pointer -/

theorem wellFormed_modify (h : s.WellFormed) (address : Nat) (f : T → T) :
    (s.modify address f).WellFormed where
  sorted := by
    show (s.byDeadline.map _).Pairwise _
    rw [pairwise_map]
    refine h.sorted.imp fun {a b} hab => ?_
    split <;> split <;> exact hab
  bounded := by
    intro e he
    obtain ⟨x, hx, rfl⟩ := mem_map.1 he
    have hb := h.bounded x hx
    split <;> exact hb
  next := h.next
  sequences := by
    intro e he
    obtain ⟨x, hx, rfl⟩ := mem_map.1 he
    have hseq := h.sequences x hx
    split <;> exact hseq
  indexed := by
    show s.byFlow = _
    rw [h.indexed]
    refine (Index.bucket_map _ (fun a => ?_) (fun a => ?_)).symm
    · split <;> rfl
    · split <;> rfl
  fits := by
    show (s.byDeadline.map _).length ≤ s.capacity
    rw [length_map]
    exact h.fits

/-! ## Expiry and draining -/

theorem takeExpired_eq_some {s' : Store T} {now : Time} (h : s.takeExpired now = some (e, s')) :
    ∃ rest, s.byDeadline = e :: rest ∧ e.deadline ≤ now ∧ s' = s.remove e := by
  unfold takeExpired at h
  split at h
  · cases h
  rename_i front rest hl
  split at h
  · cases h
  rename_i hbef
  simp only [Option.some.injEq, Prod.mk.injEq] at h
  obtain ⟨rfl, rfl⟩ := h
  simp only [Bool.not_eq_true, Time.before_eq_false] at hbef
  exact ⟨rest, hl, hbef, rfl⟩

/-- What the loop returns and what it keeps, split at some place of the list. -/
theorem takeExpiredFuel_spec (now : Time) :
    ∀ (fuel : Nat) (s : Store T), s.WellFormed →
      (takeExpiredFuel now fuel s).2.WellFormed ∧
      (takeExpiredFuel now fuel s).1 ++ (takeExpiredFuel now fuel s).2.byDeadline =
        s.byDeadline ∧
      (∀ e ∈ (takeExpiredFuel now fuel s).1, e.deadline ≤ now) ∧
      (takeExpiredFuel now fuel s).2.ttl = s.ttl ∧
      (s.byDeadline.length ≤ fuel → (takeExpiredFuel now fuel s).2.takeExpired now = none) := by
  intro fuel
  induction fuel with intro s h
  | zero =>
    refine ⟨h, rfl, by simp [takeExpiredFuel], rfl, fun hlen => ?_⟩
    have hnil : s.byDeadline = [] := eq_nil_of_length_eq_zero (Nat.le_zero.1 hlen)
    simp [takeExpiredFuel, takeExpired, hnil]
  | succ fuel ih =>
    rw [takeExpiredFuel]
    cases htake : s.takeExpired now with
    | none => exact ⟨h, rfl, by simp, rfl, fun _ => htake⟩
    | some p =>
      obtain ⟨e, s'⟩ := p
      obtain ⟨rest, hl, hdue, rfl⟩ := takeExpired_eq_some htake
      have hmem : e ∈ s.byDeadline := by rw [hl]; exact mem_cons_self
      obtain ⟨hwf, hsplit, hall, httl, hfuel⟩ := ih (s.remove e) (wellFormed_remove h hmem)
      refine ⟨hwf, ?_, ?_, httl, fun hlen => hfuel ?_⟩
      · rw [cons_append, hsplit, remove_front hl, hl]
      · intro x hx
        rcases mem_cons.1 hx with rfl | hx
        · exact hdue
        · exact hall x hx
      · rw [remove_front hl]
        rw [hl, length_cons] at hlen
        exact Nat.le_of_succ_le_succ hlen

section Expiry

variable {s : Store T} (h : s.WellFormed) (now : Time)

include h

theorem wellFormed_takeAllExpired : (s.takeAllExpired now).2.WellFormed :=
  (takeExpiredFuel_spec now _ s h).1

theorem takeAllExpired_append :
    (s.takeAllExpired now).1 ++ (s.takeAllExpired now).2.byDeadline = s.byDeadline :=
  (takeExpiredFuel_spec now _ s h).2.1

theorem deadline_le_of_mem_takeAllExpired : ∀ e ∈ (s.takeAllExpired now).1, e.deadline ≤ now :=
  (takeExpiredFuel_spec now _ s h).2.2.1

theorem takeAllExpired_ttl : (s.takeAllExpired now).2.ttl = s.ttl :=
  (takeExpiredFuel_spec now _ s h).2.2.2.1

/-- The loop ends because nothing is left to take, never for want of fuel. -/
theorem takeExpired_takeAllExpired : (s.takeAllExpired now).2.takeExpired now = none :=
  (takeExpiredFuel_spec now _ s h).2.2.2.2 (Nat.le_refl _)

/-- A lone entry that is still there after expiry is the one there was, and nothing expired. -/
theorem takeAllExpired_singleton {e : StoreEntry T} (hs : s.byDeadline = [e])
    (hsto : (s.takeAllExpired now).2.byDeadline ≠ []) :
    (s.takeAllExpired now).1 = [] ∧ (s.takeAllExpired now).2.byDeadline = [e] := by
  have happ := takeAllExpired_append h now
  rw [hs, append_eq_singleton_iff] at happ
  exact happ.elim id fun hnone => absurd hnone.2 hsto

end Expiry

theorem drainFuel_spec :
    ∀ (fuel : Nat) (s : Store T), s.byDeadline.length ≤ fuel →
      (drainFuel fuel s).1 = s.byDeadline ∧ (drainFuel fuel s).2.byDeadline = [] ∧
      (drainFuel fuel s).2.ttl = s.ttl ∧ (drainFuel fuel s).2.capacity = s.capacity ∧
      (drainFuel fuel s).2.added = s.added ∧
      (s.WellFormed → (drainFuel fuel s).2.WellFormed) := by
  intro fuel
  induction fuel with intro s hlen
  | zero =>
    have hnil : s.byDeadline = [] := eq_nil_of_length_eq_zero (Nat.le_zero.1 hlen)
    simp [drainFuel, hnil]
  | succ fuel ih =>
    unfold drainFuel
    split
    · rename_i hnil
      exact ⟨hnil.symm, hnil, rfl, rfl, rfl, id⟩
    · rename_i front rest hl
      rw [hl, length_cons] at hlen
      have hrest : (s.remove front).byDeadline = rest := remove_front hl
      obtain ⟨hall, hemp, httl, hcap, hadded, hwf⟩ :=
        ih (s.remove front) (by rw [hrest]; exact Nat.le_of_succ_le_succ hlen)
      refine ⟨by rw [hall, hrest, hl], hemp, httl, hcap, hadded, fun h => hwf ?_⟩
      exact wellFormed_remove h (by simp [hl])

/-- `drain` returns every entry, in list order, and leaves nothing. -/
theorem drain_eq (s : Store T) : s.drain.1 = s.byDeadline ∧ s.drain.2.byDeadline = [] :=
  ⟨(drainFuel_spec _ s (Nat.le_refl _)).1, (drainFuel_spec _ s (Nat.le_refl _)).2.1⟩

theorem drain_ttl (s : Store T) : s.drain.2.ttl = s.ttl :=
  (drainFuel_spec _ s (Nat.le_refl _)).2.2.1

theorem wellFormed_drain (h : s.WellFormed) : s.drain.2.WellFormed :=
  (drainFuel_spec _ s (Nat.le_refl _)).2.2.2.2.2 h

/-! ## Any use -/

theorem evict_cases (s : Store T) :
    s.evict.2 = s ∨ ∃ front ∈ s.byDeadline, s.evict.2 = s.remove front := by
  unfold evict
  split
  · split
    · exact Or.inl rfl
    · rename_i front rest hl
      exact Or.inr ⟨front, by simp [hl], rfl⟩
  · exact Or.inl rfl

end Store

/-- What the owner of a store calls. An entry to remove is given by its pointer. -/
inductive Use (T : Type)
  | add (value : T) (flow : FlowKey) (now : Time)
  | remove (address : Nat)
  | takeExpired (now : Time)
  | drain

def Use.isAdd : Use T → Bool
  | .add .. => true
  | _ => false

/-- A store, and the time of the last `add`. -/
structure Owned (T : Type) where
  store : Store T
  clock : Time := 0

namespace Owned

/-- The times of `add` do not decrease, and only live entries are removed. -/
def step (o : Owned T) : Use T → Option (Owned T)
  | .add value flow now =>
    if o.clock ≤ now then some { store := (o.store.add value flow now).2, clock := now } else none
  | .remove address => (o.store.deref address).map fun e => { o with store := o.store.remove e }
  | .takeExpired now =>
    some { o with store := ((o.store.takeExpired now).map Prod.snd).getD o.store }
  | .drain => some { o with store := o.store.drain.2 }

/-- An entry added later is due later, and none is due later than one added now. -/
structure Inv (capacity : Nat) (o : Owned T) : Prop where
  wellFormed : o.store.WellFormed
  capacity : o.store.capacity = capacity
  ordered : o.store.byDeadline.Pairwise fun a b => a.deadline ≤ b.deadline
  due : ∀ e ∈ o.store.byDeadline, e.deadline ≤ o.clock.add o.store.ttl

variable {capacity : Nat} {o o' : Owned T}

theorem Inv.shrink (h : Inv capacity o) {s : Store T} (hwf : s.WellFormed)
    (hcap : s.capacity = o.store.capacity) (httl : s.ttl = o.store.ttl)
    (hsub : s.byDeadline.Sublist o.store.byDeadline) : Inv capacity { o with store := s } where
  wellFormed := hwf
  capacity := hcap.trans h.capacity
  ordered := h.ordered.sublist hsub
  due := by
    intro e he
    rw [httl]
    exact h.due e (hsub.subset he)

theorem Inv.remove (h : Inv capacity o) {e : StoreEntry T} (he : e ∈ o.store.byDeadline) :
    Inv capacity { o with store := o.store.remove e } :=
  h.shrink (Store.wellFormed_remove h.wellFormed he) rfl rfl eraseP_sublist

theorem Inv.push (h : Inv capacity o) {value : T} {flow : FlowKey} {now : Time}
    (hnow : o.clock ≤ now) (hroom : o.store.byDeadline.length < o.store.capacity) :
    Inv capacity { store := o.store.push value flow now, clock := now } := by
  have hadd : o.clock.add o.store.ttl ≤ now.add o.store.ttl :=
    Int.toNat_le_toNat (Int.add_le_add_right (Int.ofNat_le.2 hnow) _)
  have hle : ∀ e ∈ o.store.byDeadline, e.deadline ≤ now.add o.store.ttl :=
    fun e he => Nat.le_trans (h.due e he) hadd
  refine ⟨Store.wellFormed_push h.wellFormed hroom value flow now, h.capacity, ?_, ?_⟩
  · refine pairwise_append.2 ⟨h.ordered, pairwise_singleton _ _, fun a ha b hb => ?_⟩
    rw [mem_singleton.1 hb]
    exact hle a ha
  · intro e he
    rcases mem_append.1 he with he | he
    · exact hle e he
    · rw [mem_singleton.1 he]
      exact Nat.le_refl _

theorem inv_step {use : Use T} (h : Inv capacity o) (hstep : o.step use = some o') :
    Inv capacity o' := by
  cases use with simp only [step] at hstep
  | add value flow now =>
    split at hstep
    · rename_i hnow
      cases hstep
      have hevict : Inv capacity { o with store := o.store.evict.2 } := by
        rcases Store.evict_cases o.store with heq | ⟨front, hmem, heq⟩
        · rwa [heq]
        · rw [heq]
          exact h.remove hmem
      exact hevict.push hnow (Store.wellFormed_evict h.wellFormed).2
    · cases hstep
  | remove address =>
    obtain ⟨e, he, rfl⟩ := Option.map_eq_some_iff.1 hstep
    exact h.remove (mem_of_find?_eq_some he)
  | takeExpired now =>
    cases hstep
    cases htake : o.store.takeExpired now with
    | none => exact h
    | some p =>
      obtain ⟨rest, hl, -, heq⟩ := Store.takeExpired_eq_some htake
      simp only [Option.map_some, Option.getD_some, heq]
      exact h.remove (by simp [hl])
  | drain =>
    cases hstep
    obtain ⟨-, hnil, httl, hcap, -, hwf⟩ := Store.drainFuel_spec _ o.store (Nat.le_refl _)
    exact h.shrink (hwf h.wellFormed) hcap httl (hnil ▸ nil_sublist _)

/-- In a list in deadline order the entries that are due come first. -/
theorem Inv.expired (h : Inv capacity o) (now : Time) :
    (o.store.takeAllExpired now).1 =
      o.store.byDeadline.filter (fun e => decide (e.deadline ≤ now)) ∧
    (o.store.takeAllExpired now).2.byDeadline =
      o.store.byDeadline.filter (fun e => decide (now < e.deadline)) := by
  have happ := Store.takeAllExpired_append h.wellFormed now
  have hdue := Store.deadline_le_of_mem_takeAllExpired h.wellFormed now
  have hend := Store.takeExpired_takeAllExpired h.wellFormed now
  have hord := h.ordered
  rw [← happ] at hord ⊢
  have hlate : ∀ e ∈ (o.store.takeAllExpired now).2.byDeadline, now < e.deadline := by
    unfold Store.takeExpired at hend
    split at hend
    · rename_i hnil
      simp [hnil]
    · rename_i front rest hl
      split at hend
      · rename_i hfront
        rw [hl] at hord ⊢
        have hrest := (pairwise_cons.1 (pairwise_append.1 hord).2.1).1
        have hfront : now < front.deadline := (Time.before_iff _ _).1 hfront
        intro e he
        rcases mem_cons.1 he with rfl | he
        · exact hfront
        · exact Nat.lt_of_lt_of_le hfront (hrest e he)
      · cases hend
  rw [filter_append, filter_append, filter_eq_self.2, filter_eq_nil_iff.2, filter_eq_nil_iff.2,
    filter_eq_self.2]
  · exact ⟨(append_nil _).symm, (nil_append _).symm⟩
  all_goals
    intro e he
    have := hdue e
    have := hlate e
    simp_all

theorem added_step {use : Use T} (hstep : o.step use = some o') :
    o'.store.added = o.store.added + if use.isAdd then 1 else 0 := by
  cases use with simp only [step] at hstep
  | add value flow now =>
    split at hstep
    · cases hstep
      have hevict : o.store.evict.2.added = o.store.added := by
        rcases Store.evict_cases o.store with heq | ⟨front, -, heq⟩ <;> rw [heq]
        rfl
      exact congrArg (· + 1) hevict
    · cases hstep
  | remove address =>
    obtain ⟨e, -, rfl⟩ := Option.map_eq_some_iff.1 hstep
    rfl
  | takeExpired now =>
    cases hstep
    cases htake : o.store.takeExpired now with
    | none => rfl
    | some p =>
      obtain ⟨rest, -, -, heq⟩ := Store.takeExpired_eq_some htake
      simp only [Option.map_some, Option.getD_some, heq]
      rfl
  | drain =>
    cases hstep
    exact (Store.drainFuel_spec _ o.store (Nat.le_refl _)).2.2.2.2.1

theorem added_run {uses : List (Use T)} (h : Runs.run step o uses = some o') :
    o'.store.added = o.store.added + uses.countP Use.isAdd := by
  induction uses generalizing o with
  | nil =>
    cases h
    rfl
  | cons use uses ih =>
    obtain ⟨o₁, hstep, hrest⟩ := Runs.run_cons_eq_some.1 h
    rw [ih hrest, added_step hstep, countP_cons, Nat.add_assoc, Nat.add_comm (countP _ _)]

/-- **The two indexes agree after any use.** A bucket holds the pointers of the entries of its
flow, each once, and no bucket is empty; the list keeps the order of insertion and of deadlines,
and expiring takes the entries that are due. The sequences are in list order too while fewer than
2 ^ 64 entries have been added. -/
theorem store_representation {ttl : Duration} {hcap : 0 < capacity} {httl : 0 < ttl}
    {uses : List (Use T)}
    (h : Runs.run step { store := newStore capacity ttl hcap httl } uses = some o) :
    (∀ k, o.store.byFlow k ≠ some [] ∧ ((o.store.byFlow k).getD []).Nodup ∧
      ∀ q, q ∈ (o.store.byFlow k).getD [] ↔
        ∃ e ∈ o.store.byDeadline, e.address = q ∧ canonicalFlow e.flow = k) ∧
    o.store.byDeadline.length ≤ capacity ∧
    (o.store.byDeadline.Pairwise fun a b => a.deadline ≤ b.deadline ∧ a.address < b.address) ∧
    (uses.countP Use.isAdd < 2 ^ 64 →
      o.store.byDeadline.Pairwise fun a b => a.sequence < b.sequence) ∧
    ∀ now,
      (o.store.takeAllExpired now).1 =
        o.store.byDeadline.filter (fun e => decide (e.deadline ≤ now)) ∧
      (o.store.takeAllExpired now).2.byDeadline =
        o.store.byDeadline.filter (fun e => decide (now < e.deadline)) ∧
      (o.store.takeAllExpired now).2.takeExpired now = none := by
  have hinv : Inv capacity o := by
    have hreach : Runs.Reachable step { store := newStore capacity ttl hcap httl } o := ⟨uses, h⟩
    refine hreach.invariant ⟨Store.wellFormed_newStore .., rfl, .nil, by simp [newStore]⟩ ?_
    intro s use s' _ hs hstep
    exact inv_step hs hstep
  have hwf := hinv.wellFormed
  refine ⟨fun k => ⟨?_, ?_, fun q => ?_⟩, hinv.capacity ▸ hwf.fits, hinv.ordered.and hwf.sorted,
    fun hfew => ?_, fun now => ?_⟩
  · rw [hwf.indexed, Index.bucket]
    cases (o.store.byDeadline.filter _).map StoreEntry.address <;> simp [Index.ofHandles]
  · rw [hwf.indexed, Index.getD_bucket]
    exact hwf.nodup.sublist (filter_sublist.map _)
  · rw [hwf.indexed, Index.getD_bucket]
    simp only [mem_map, mem_filter, StoreEntry.key]
    constructor
    · rintro ⟨e, ⟨he, hk⟩, hq⟩
      exact ⟨e, he, hq, of_decide_eq_true hk⟩
    · rintro ⟨e, he, hq, hk⟩
      exact ⟨e, ⟨he, decide_eq_true hk⟩, hq⟩
  · have hadded : o.store.added = uses.countP Use.isAdd := (added_run h).trans (Nat.zero_add _)
    refine hwf.sorted.imp_of_mem fun {a b} ha hb hlt => ?_
    have hbound : b.address < UInt64.size :=
      Nat.lt_of_le_of_lt (hwf.bounded b hb) (hadded ▸ hfew)
    rw [hwf.sequences a ha, hwf.sequences b hb, UInt64.lt_iff_toNat_lt,
      UInt64.toNat_ofNat_of_lt' (Nat.lt_trans hlt hbound), UInt64.toNat_ofNat_of_lt' hbound]
    exact hlt
  · exact ⟨(hinv.expired now).1, (hinv.expired now).2, Store.takeExpired_takeAllExpired hwf now⟩

/-- A flow to itself. -/
def loopFlow : FlowKey := ⟨⟨.v4 0, 1⟩, ⟨.v4 0, 1⟩⟩

def fullUse : List (Use Nat) := [.add 1 loopFlow 0, .add 2 loopFlow 0, .add 3 loopFlow 4]

/-- At capacity the third entry takes the place of the first, and the second expires alone. -/
theorem store_representation_full : ∃ o : Owned Nat,
    Runs.run step { store := newStore 2 5 (by decide) (by decide) } fullUse = some o ∧
    o.store.byDeadline.map (fun e => (e.value, e.sequence)) = [(2, 2), (3, 3)] ∧
    (o.store.byDeadline.Pairwise fun a b => a.sequence < b.sequence) ∧
    (o.store.takeAllExpired 5).2.byDeadline =
      o.store.byDeadline.filter (fun e => decide (5 < e.deadline)) := by
  obtain ⟨-, -, -, hsequences, hexpire⟩ :=
    @store_representation Nat 2 _ 5 (by decide) (by decide) fullUse rfl
  exact ⟨_, rfl, rfl, hsequences (by decide), (hexpire 5).2.1⟩

/-- A store for two entries that has been given `n + 2`. -/
structure Filled (n : Nat) (o : Owned Nat) : Prop where
  clock : o.clock = 0
  capacity : o.store.capacity = 2
  next : o.store.nextSequence = UInt64.ofNat (n + 2)
  sequences : o.store.byDeadline.map StoreEntry.sequence =
    [UInt64.ofNat (n + 1), UInt64.ofNat (n + 2)]

theorem filled_step {n : Nat} {o : Owned Nat} (h : Filled n o) :
    ∃ o', o.step (.add 0 loopFlow 0) = some o' ∧ Filled (n + 1) o' := by
  obtain ⟨front, rest, hl, -, hrest⟩ := map_eq_cons_iff.1 h.sequences
  have hfull : o.store.byDeadline.length = o.store.capacity := by
    rw [← length_map (f := StoreEntry.sequence), h.sequences, h.capacity]
    rfl
  have hevict : o.store.evict.2 = o.store.remove front := by
    rw [Store.evict, if_pos hfull]
    split
    · next hnil => cases hnil.symm.trans hl
    · next hfront =>
      cases hfront.symm.trans hl
      rfl
  have hnext : o.store.nextSequence + 1 = UInt64.ofNat (n + 1 + 2) := by
    rw [h.next, Nat.add_right_comm, UInt64.ofNat_add (n + 2)]
    rfl
  refine ⟨_, if_pos (Nat.le_of_eq h.clock), rfl, ?_, ?_, ?_⟩ <;>
    simp only [Store.add, hevict]
  · exact h.capacity
  · exact hnext
  · show ((o.store.remove front).byDeadline ++ [_]).map StoreEntry.sequence = _
    rw [Store.remove_front hl, map_append, hrest]
    exact congrArg (fun q => [UInt64.ofNat (n + 2), q]) hnext

/-- After 2 ^ 64 entries the sequence starts again at 0. -/
theorem sequences_wrap : ∃ o : Owned Nat,
    Runs.Reachable step { store := newStore 2 5 (by decide) (by decide) } o ∧
    o.store.byDeadline.map StoreEntry.sequence = [18446744073709551615, 0] := by
  have hreach (n : Nat) : ∃ o : Owned Nat,
      Runs.Reachable step { store := newStore 2 5 (by decide) (by decide) } o ∧ Filled n o := by
    induction n with
    | zero => exact ⟨_, ⟨[.add 0 loopFlow 0, .add 0 loopFlow 0], rfl⟩, rfl, rfl, rfl, rfl⟩
    | succ n ih =>
      obtain ⟨o, hreach, hfilled⟩ := ih
      obtain ⟨o', hstep, hfilled'⟩ := filled_step hfilled
      exact ⟨o', hreach.next hstep, hfilled'⟩
  obtain ⟨o, hreach, hfilled⟩ := hreach (2 ^ 64 - 2)
  exact ⟨o, hreach, hfilled.sequences⟩

end Owned

end Huatuo.Retransmit
