import Huatuo.IoTracing.Source
import Huatuo.Lib.Flow
import Mathlib.Data.UInt

/-!
# Nothing is lost unless two first observations overlap

What was asked for is in the entry, or still with a request or a CPU (`State.held`). As long as an
element stays in the map once it is there, a program that has its pointer adds to what the map
shows, and the sum of both parts is the total (`Inv`).

The file hooks add an entry only if there is none, and look it up again. `rq_qos_done` replaces what
is there by its own record. If a hook, or another completion, has added the entry since, what it has
counted is lost (`first_observations_overlap`). If that does not happen (`undisturbed`), the
counters are the totals (`counters_total`).
-/

namespace Huatuo.IoTracing

open Function

/-! ## Updates -/

/-- What is still to be added to a counter. -/
def adds (counter : Counter) : List Update → UInt64
  | [] => 0
  | .add other amount :: rest => (if other = counter then amount else 0) + adds counter rest
  | _ :: rest => adds counter rest

variable (counter : Counter)

theorem adds_after (data : IoData) (update : Update) (rest : List Update) :
    adds counter (data.after update rest) = adds counter rest := by
  cases update <;> simp only [IoData.after] <;> split <;> rfl

theorem adds_cons (update : Update) (rest : List Update) :
    adds counter (update :: rest) = adds counter [update] + adds counter rest := by
  cases update <;> simp [adds]

theorem counters_apply (data : IoData) (update : Update) :
    (data.apply update).counters counter = data.counters counter + adds counter [update] := by
  cases update with
  | add other amount =>
    by_cases hother : other = counter
    · subst hother
      simp [IoData.apply, adds]
    · simp [IoData.apply, adds, hother, update_of_ne (Ne.symm hother)]
  | _ => simp [IoData.apply, adds]

theorem adds_updates_op (dataLen q2c d2c : UInt64) (op : Op) :
    adds counter (op.updates dataLen q2c d2c) = op.amount dataLen counter := by
  cases op <;> cases counter <;> simp [Op.updates, Op.updates.latency, adds, Op.amount]

theorem adds_updates_hook (kind : HookKind) : adds counter kind.updates = kind.amount counter := by
  cases kind <;> cases counter <;> first | rfl | exact UInt64.add_zero _

/-! ## What is on its way -/

/-- What `rq_qos_issue` puts into the map. -/
def Request.entry (filter : List UInt32) (req : Request) : Option StartInfo :=
  if req.isRecorded filter then some req.startInfo else none

/-- What a request in flight will add. -/
def Request.owed (filter : List UInt32) (req : Request) (key : IoKey) (counter : Counter) :
    UInt64 :=
  if req.isRecorded filter then req.amount key counter else 0

def Target.held (counter : Counter) : Target → UInt64
  | element _ => 0
  | record data => data.counters counter

def Pc.held (filter : List UInt32) (key : IoKey) (counter : Counter) : Pc → UInt64
  | idle | doneDelete _ => 0
  | doneInfo req _ _ => req.owed filter key counter
  | doneEntry req _ _ _ => req.amount key counter
  | doneUpdate _ info target updates =>
    if info.ioKey = key then target.held counter + adds counter updates else 0
  | fileLookup hook | fileInsert hook | fileLookupAgain hook | filePath hook _ | fileInit hook _ =>
    hook.amount key counter
  | fileUpdate hook _ updates => if hook.key = key then adds counter updates else 0

variable {ι : Type}

def Flight.held (filter : List UInt32) (key : IoKey) (counter : Counter) : Flight ι → UInt64
  | none | completing _ => 0
  | issued req => req.owed filter key counter

def State.held (filter : List UInt32) (s : State ι) (key : IoKey) (counter : Counter) :
    HashKey ⊕ ι → UInt64
  | .inl hashKey => (s.flights hashKey).held filter key counter
  | .inr c => (s.pcs c).held filter key counter

/-! ## The invariant -/

def PcInv (filter : List UInt32) (s : State ι) (c : ι) : Pc → Prop
  | .idle | .fileLookup _ | .fileInsert _ => True
  | .doneInfo req _ _ =>
    s.flights req.hashKey = .completing c ∧ s.startInfoMap req.hashKey = req.entry filter
  | .doneEntry req info _ _ => s.flights req.hashKey = .completing c ∧ info = req.startInfo
  | .doneUpdate req info (.element n) _ =>
    s.flights req.hashKey = .completing c ∧ s.ioSourceMap info.ioKey = some n
  | .doneUpdate req _ (.record _) _ | .doneDelete req => s.flights req.hashKey = .completing c
  | .fileLookupAgain hook => ∃ n, s.ioSourceMap hook.key = some n
  | .filePath hook n | .fileInit hook n | .fileUpdate hook n _ => s.ioSourceMap hook.key = some n

def FlightInv (filter : List UInt32) (s : State ι) (key : HashKey) : Prop :=
  match s.flights key with
  | .none => s.startInfoMap key = none
  | .issued req => req.hashKey = key ∧ s.startInfoMap key = req.entry filter
  | .completing _ => True

structure Inv (filter : List UInt32) (s : State ι) : Prop where
  flight : ∀ key, FlightInv filter s key
  pc : ∀ c, PcInv filter s c (s.pcs c)
  conserved : ∀ key counter,
    Conserved (s.total key counter) (s.value key counter) (s.held filter key counter)

/-- A step of another CPU: elements stay in the map, and the request that the CPU completes is left
alone. -/
structure Undisturbed (s s' : State ι) (c : ι) : Prop where
  source : ∀ key n, s.ioSourceMap key = some n → s'.ioSourceMap key = some n
  flight : ∀ key, s.flights key = .completing c →
    s'.flights key = .completing c ∧ s'.startInfoMap key = s.startInfoMap key

theorem Undisturbed.pcInv {s s' : State ι} {c : ι} {filter : List UInt32} {pc : Pc}
    (h : Undisturbed s s' c) (hpc : PcInv filter s c pc) : PcInv filter s' c pc := by
  cases pc with
  | idle | fileLookup hook | fileInsert hook => trivial
  | doneInfo req q2c d2c =>
    obtain ⟨hfl, hinfo⟩ := h.flight _ hpc.1
    exact ⟨hfl, hinfo.trans hpc.2⟩
  | doneEntry req info q2c d2c => exact ⟨(h.flight _ hpc.1).1, hpc.2⟩
  | doneUpdate req info target updates =>
    cases target with
    | element n => exact ⟨(h.flight _ hpc.1).1, h.source _ _ hpc.2⟩
    | record data => exact (h.flight _ hpc).1
  | doneDelete req => exact (h.flight _ hpc).1
  | fileLookupAgain hook =>
    obtain ⟨n, hn⟩ := hpc
    exact ⟨n, h.source _ _ hn⟩
  | filePath hook n | fileInit hook n | fileUpdate hook n updates => exact h.source _ _ hpc

section

variable [DecidableEq ι] {filter : List UInt32} {s s' : State ι} {c : ι} {pc : Pc} {req : Request}
  {key : IoKey} {n : Nat} {d2c q2c : UInt64} {hook : Hook} {hashKey : HashKey}

omit [DecidableEq ι] in
theorem held_eq_elim (s : State ι) (key : IoKey) (counter : Counter) :
    s.held filter key counter =
      Sum.elim (Flight.held filter key counter ∘ s.flights)
        (Pc.held filter key counter ∘ s.pcs) := by
  funext x
  cases x <;> rfl

theorem held_goto (hpcs : s'.pcs = update s.pcs c pc)
    (hfls : ∀ hashKey key counter, (s'.flights hashKey).held filter key counter =
      (s.flights hashKey).held filter key counter) (key : IoKey) (counter : Counter) :
    s'.held filter key counter =
      update (s.held filter key counter) (.inr c) (pc.held filter key counter) := by
  have hold : Flight.held filter key counter ∘ s'.flights =
    Flight.held filter key counter ∘ s.flights :=
    funext fun hashKey => hfls hashKey key counter
  rw [held_eq_elim, held_eq_elim, Sum.update_elim_inr, hold, hpcs, comp_update]

/-- **A step of one CPU.** What it no longer holds is in the entry. -/
theorem Inv.next (h : Inv filter s) (hpcs : s'.pcs = update s.pcs c pc)
    (hsrc : ∀ key n, s.ioSourceMap key = some n → s'.ioSourceMap key = some n)
    (hfls : ∀ key, s.flights key ≠ .completing c →
      s'.flights key = s.flights key ∧ s'.startInfoMap key = s.startInfoMap key)
    (hmine : ∀ key, s.flights key = .completing c →
      s'.flights key = .completing c ∨ s'.flights key = .none ∧ s'.startInfoMap key = none)
    (hpc : PcInv filter s' c pc) (htotal : s'.total = s.total)
    (hbal : ∀ key counter, s.value key counter + (s.pcs c).held filter key counter =
      s'.value key counter + pc.held filter key counter) : Inv filter s' := by
  refine ⟨fun key => ?_, fun c' => ?_, fun key counter => ?_⟩
  · unfold FlightInv
    by_cases hkey : s.flights key = .completing c
    · obtain hfl | ⟨hfl, hinfo⟩ := hmine key hkey
      · simp [hfl]
      · simp [hfl, hinfo]
    · obtain ⟨hfl, hinfo⟩ := hfls key hkey
      rw [hfl, hinfo]
      exact h.flight key
  · by_cases hc' : c' = c
    · subst hc'
      rw [hpcs, update_self]
      exact hpc
    · rw [hpcs, update_of_ne hc']
      refine Undisturbed.pcInv ⟨hsrc, fun key hkey => ?_⟩ (h.pc c')
      have hother : s.flights key ≠ .completing c := by
        rw [hkey]
        exact fun heq => hc' (Flight.completing.inj heq)
      obtain ⟨hfl, hinfo⟩ := hfls key hother
      exact ⟨hfl.trans hkey, hinfo⟩
  · have hheld : ∀ hashKey key counter, (s'.flights hashKey).held filter key counter =
        (s.flights hashKey).held filter key counter := by
      intro hashKey key counter
      by_cases hkey : s.flights hashKey = .completing c
      · rw [hkey]
        obtain hfl | ⟨hfl, -⟩ := hmine hashKey hkey <;> rw [hfl]
        rfl
      · rw [(hfls hashKey hkey).1]
    rw [held_goto hpcs hheld, htotal]
    refine (h.conserved key counter).update _ _ ?_
    rw [add_assoc, add_assoc]
    exact congrArg _ (hbal key counter)

/-- A step that leaves the flights and the totals as they are. -/
theorem Inv.continue (h : Inv filter s) (hpcs : s'.pcs = update s.pcs c pc)
    (hsrc : ∀ key n, s.ioSourceMap key = some n → s'.ioSourceMap key = some n)
    (hfls : s'.flights = s.flights) (hinfo : s'.startInfoMap = s.startInfoMap)
    (hpc : PcInv filter s' c pc) (htotal : s'.total = s.total)
    (hbal : ∀ key counter, s.value key counter + (s.pcs c).held filter key counter =
      s'.value key counter + pc.held filter key counter) : Inv filter s' :=
  h.next hpcs hsrc (fun _ _ => ⟨by rw [hfls], by rw [hinfo]⟩)
    (fun _ hkey => .inl (by rw [hfls, hkey])) hpc htotal hbal

/-- A step that does not touch the entries. -/
theorem Inv.goto (h : Inv filter s) (hpc : PcInv filter s c pc)
    (hheld : ∀ key counter, (s.pcs c).held filter key counter = pc.held filter key counter) :
    Inv filter (s.goto c pc) := by
  have hund : Undisturbed s (s.goto c pc) c := ⟨fun _ _ => id, fun _ hkey => ⟨hkey, rfl⟩⟩
  exact h.continue rfl (fun _ _ => id) rfl rfl (hund.pcInv hpc) rfl fun key counter =>
    congrArg _ (hheld key counter)

/-- The program of a completion is done. -/
theorem Inv.land (h : Inv filter s) (hfl : s.flights req.hashKey = .completing c)
    (hheld : ∀ key counter, (s.pcs c).held filter key counter = 0)
    (hsta : s'.startInfoMap = update s.startInfoMap req.hashKey none)
    (hland : s' = { s.land c req with startInfoMap := s'.startInfoMap }) : Inv filter s' := by
  rw [hland] at hsta ⊢
  refine h.next rfl (fun _ _ => id) (fun key hkey => ?_) (fun key hkey => ?_) trivial rfl
    fun key counter => congrArg _ (hheld key counter)
  · have hne : key ≠ req.hashKey := fun heq => hkey (heq ▸ hfl)
    exact ⟨update_of_ne hne _ _, by rw [hsta]; exact update_of_ne hne _ _⟩
  · by_cases hreq : key = req.hashKey
    · subst hreq
      exact .inr ⟨update_self _ _ _, by rw [hsta]; exact update_self _ _ _⟩
    · exact .inl ((update_of_ne hreq _ _).trans hkey)

/-! ## Entries -/

omit [DecidableEq ι] in
theorem value_of_some (hn : s.ioSourceMap key = some n) (counter : Counter) :
    s.value key counter = (s.elements key n).counters counter := by
  rw [State.value, hn]

omit [DecidableEq ι] in
theorem value_setElement (hn : s.ioSourceMap key = some n) (data : IoData) (key' : IoKey)
    (counter : Counter) :
    (s.setElement key n data).value key' counter =
      if key = key' then data.counters counter else s.value key' counter := by
  by_cases hkey : key = key'
  · subst hkey
    rw [if_pos rfl, value_of_some (s := s.setElement key n data) hn]
    simp only [State.setElement, update_self]
  · simp [if_neg hkey, State.value, State.setElement, update_of_ne (Ne.symm hkey)]

omit [DecidableEq ι] in
theorem value_install (hnone : s.ioSourceMap key = none) (data : IoData) (key' : IoKey)
    (counter : Counter) :
    (s.install key data).value key' counter =
      s.value key' counter + if key = key' then data.counters counter else 0 := by
  by_cases hkey : key = key'
  · subst hkey
    rw [if_pos rfl]
    simp only [State.value, State.install, State.setElement, hnone, update_self]
    exact (UInt64.zero_add _).symm
  · rw [if_neg hkey]
    simp only [State.value, State.install, State.setElement, hnone, update_of_ne (Ne.symm hkey)]
    exact (UInt64.add_zero _).symm

omit [DecidableEq ι] in
theorem ioSourceMap_install (hnone : s.ioSourceMap key = none) (data : IoData) :
    (s.install key data).ioSourceMap = update s.ioSourceMap key (some 0) := by
  simp only [State.install, hnone]

omit [DecidableEq ι] in
theorem source_install {key' : IoKey} (hnone : s.ioSourceMap key = none) (data : IoData)
    (hn : s.ioSourceMap key' = some n) : (s.install key data).ioSourceMap key' = some n := by
  rw [ioSourceMap_install hnone, update_of_ne, hn]
  rintro rfl
  cases hnone.symm.trans hn

variable {data : IoData}

/-- An access to an element that is in the map, by a program that holds the rest. -/
theorem Inv.access (h : Inv filter s) (hn : s.ioSourceMap key = some n) (hpc : PcInv filter s c pc)
    (hbal : ∀ key' counter,
      (if key = key' then (s.elements key n).counters counter else 0) +
        (s.pcs c).held filter key' counter =
        (if key = key' then data.counters counter else 0) + pc.held filter key' counter) :
    Inv filter ((s.setElement key n data).goto c pc) := by
  have hund : Undisturbed s ((s.setElement key n data).goto c pc) c :=
    ⟨fun _ _ => id, fun _ hkey => ⟨hkey, rfl⟩⟩
  refine h.continue rfl (fun _ _ => id) rfl rfl (hund.pcInv hpc) rfl fun key' counter => ?_
  have hv := value_setElement hn data key' counter
  have hbal := hbal key' counter
  rw [show ((s.setElement key n data).goto c pc).value =
    (s.setElement key n data).value from rfl, hv]
  by_cases hkey : key = key'
  · subst hkey
    rw [if_pos rfl, if_pos rfl] at hbal
    rw [if_pos rfl, value_of_some hn, hbal]
  · rw [if_neg hkey, if_neg hkey, UInt64.zero_add, UInt64.zero_add] at hbal
    rw [if_neg hkey, hbal]

/-- A new entry, with what the program holds. -/
theorem Inv.install (h : Inv filter s) (hnone : s.ioSourceMap key = none)
    (hpc : PcInv filter ((s.install key data).goto c pc) c pc)
    (hbal : ∀ key' counter, (s.pcs c).held filter key' counter =
      (if key = key' then data.counters counter else 0) + pc.held filter key' counter) :
    Inv filter ((s.install key data).goto c pc) := by
  refine h.continue rfl (fun _ _ hn => source_install hnone data hn) rfl rfl hpc rfl
    fun key' counter => ?_
  rw [show ((s.install key data).goto c pc).value = (s.install key data).value from rfl,
    value_install hnone data key' counter, hbal key' counter, UInt64.add_assoc]

/-! ## Steps of a program -/

theorem inv_doneInfo (h : Inv filter s) (hpc : s.pcs c = .doneInfo req q2c d2c)
    (hrun : s.run filter c (.doneInfo req q2c d2c) = some s') : Inv filter s' := by
  obtain ⟨hfl, hinfo⟩ : PcInv filter s c (.doneInfo req q2c d2c) := hpc ▸ h.pc c
  -- without an entry the request was not recorded, and owes nothing
  have hland (hnone : req.isRecorded filter = false) : Inv filter (s.land c req) := by
    have hent : req.entry filter = none := by rw [Request.entry, hnone]; rfl
    refine h.land hfl (fun key counter => ?_) ?_ rfl
    · rw [hpc, Pc.held, Request.owed, hnone]
      rfl
    · rw [hent] at hinfo
      rw [← hinfo, update_eq_self]
      rfl
  simp only [State.run] at hrun
  split at hrun
  · next hfil =>
    cases hrun
    rw [Bool.not_eq_true'] at hfil
    exact hland (by rw [Request.isRecorded, hfil, Bool.and_false])
  · split at hrun
    · next hnone =>
      cases hrun
      refine hland (Bool.eq_false_iff.2 fun hrec => ?_)
      simp [hnone, Request.entry, if_pos hrec] at hinfo
    · next info hsome =>
      cases hrun
      rw [hsome, Request.entry] at hinfo
      split at hinfo
      · next hrec =>
        refine h.goto ⟨hfl, Option.some.inj hinfo⟩ fun key counter => ?_
        simp [hpc, Pc.held, Request.owed, if_pos hrec]
      · cases hinfo

variable {info : StartInfo}

theorem inv_doneEntry (h : Inv filter s) (hpc : s.pcs c = .doneEntry req info q2c d2c)
    (hrun : s.run filter c (.doneEntry req info q2c d2c) = some s') : Inv filter s' := by
  obtain ⟨hfl, rfl⟩ : PcInv filter s c (.doneEntry req info q2c d2c) := hpc ▸ h.pc c
  simp only [State.run] at hrun
  split at hrun
  · next hother =>
    cases hrun
    refine h.goto hfl fun key counter => ?_
    simp [hpc, Pc.held, Request.amount, hother, Op.amount]
  · cases hrun
    cases hsrc : s.ioSourceMap req.startInfo.ioKey with
    | none =>
      refine h.goto hfl fun key counter => ?_
      simp only [hpc, Pc.held, Request.amount, adds_updates_op, Target.held, UInt64.zero_add]
      rfl
    | some n =>
      refine h.goto ⟨hfl, hsrc⟩ fun key counter => ?_
      simp only [hpc, Pc.held, Request.amount, adds_updates_op, Target.held, UInt64.zero_add]
      rfl

variable {updates : List Update}

theorem inv_doneUpdate {target : Target} (h : Inv filter s)
    (hpc : s.pcs c = .doneUpdate req info target updates) (hund : undisturbed s (.run c))
    (hrun : s.run filter c (.doneUpdate req info target updates) = some s') : Inv filter s' := by
  have hinv : PcInv filter s c (.doneUpdate req info target updates) := hpc ▸ h.pc c
  cases target with
  | element n =>
    obtain ⟨hfl, hn⟩ := hinv
    cases updates with cases hrun
    | nil =>
      refine h.goto hfl fun key counter => ?_
      simp [hpc, Pc.held, Target.held, adds]
    | cons update rest =>
      refine h.access hn ⟨hfl, hn⟩ fun key counter => ?_
      simp only [hpc, Pc.held, Target.held, adds_after, counters_apply]
      by_cases hkey : info.ioKey = key
      · simp only [if_pos hkey, adds_cons counter update rest, UInt64.zero_add, UInt64.add_assoc]
      · simp only [if_neg hkey]
  | record data =>
    have hfl : s.flights req.hashKey = .completing c := hinv
    cases updates with
    | nil =>
      have hnone : s.ioSourceMap info.ioKey = none := by
        simpa only [undisturbed, hpc, Option.isNone_iff_eq_none] using hund
      cases hrun
      refine h.install hnone hfl fun key counter => ?_
      simp only [hpc, Pc.held, Target.held, adds, UInt64.add_zero]
    | cons update rest =>
      cases hrun
      refine h.goto hfl fun key counter => ?_
      simp only [hpc, Pc.held, Target.held, adds_after, counters_apply,
        adds_cons counter update rest, UInt64.add_assoc]

theorem inv_doneDelete (h : Inv filter s) (hpc : s.pcs c = .doneDelete req)
    (hrun : s.run filter c (.doneDelete req) = some s') : Inv filter s' := by
  have hfl : s.flights req.hashKey = .completing c :=
    (hpc ▸ h.pc c : PcInv filter s c (.doneDelete req))
  cases hrun
  refine h.land hfl (fun key counter => ?_) rfl rfl
  rw [hpc]
  rfl

theorem inv_fileLookup (h : Inv filter s) (hpc : s.pcs c = .fileLookup hook)
    (hrun : s.run filter c (.fileLookup hook) = some s') : Inv filter s' := by
  simp only [State.run] at hrun
  split at hrun
  · next n hn =>
    cases hrun
    exact h.goto hn fun _ _ => by rw [hpc]; rfl
  · cases hrun
    exact h.goto trivial fun _ _ => by rw [hpc]; rfl

theorem inv_fileInsert (h : Inv filter s) (hpc : s.pcs c = .fileInsert hook)
    (hrun : s.run filter c (.fileInsert hook) = some s') : Inv filter s' := by
  simp only [State.run] at hrun
  split at hrun
  · next hsome =>
    cases hrun
    exact h.goto (Option.isSome_iff_exists.1 hsome) fun _ _ => by rw [hpc]; rfl
  · next hsome =>
    have hnone : s.ioSourceMap hook.key = none := Option.not_isSome_iff_eq_none.1 hsome
    have hins : (s.install hook.key (IoData.init {} hook)).ioSourceMap hook.key = some 0 := by
      rw [ioSourceMap_install hnone, update_self]
    cases hrun
    refine h.install hnone ⟨0, hins⟩ fun key counter => ?_
    simp [hpc, Pc.held, IoData.init]

theorem inv_fileLookupAgain (h : Inv filter s) (hpc : s.pcs c = .fileLookupAgain hook)
    (hrun : s.run filter c (.fileLookupAgain hook) = some s') : Inv filter s' := by
  obtain ⟨n, hn⟩ : PcInv filter s c (.fileLookupAgain hook) := hpc ▸ h.pc c
  simp only [State.run, hn] at hrun
  cases hrun
  exact h.goto hn fun _ _ => by rw [hpc]; rfl

omit [DecidableEq ι] in
theorem held_fileUpdate (hook : Hook) (n : Nat) (key : IoKey) (counter : Counter) :
    (Pc.fileUpdate hook n hook.kind.updates).held filter key counter = hook.amount key counter := by
  rw [Pc.held, adds_updates_hook]
  rfl

theorem inv_filePath (h : Inv filter s) (hpc : s.pcs c = .filePath hook n)
    (hrun : s.run filter c (.filePath hook n) = some s') : Inv filter s' := by
  have hn : s.ioSourceMap hook.key = some n := (hpc ▸ h.pc c : PcInv filter s c (.filePath hook n))
  simp only [State.run] at hrun
  split at hrun <;> cases hrun
  · exact h.goto hn fun key counter => by rw [hpc, held_fileUpdate]; rfl
  · exact h.goto hn fun _ _ => by rw [hpc]; rfl

theorem inv_fileInit (h : Inv filter s) (hpc : s.pcs c = .fileInit hook n)
    (hrun : s.run filter c (.fileInit hook n) = some s') : Inv filter s' := by
  have hn : s.ioSourceMap hook.key = some n := (hpc ▸ h.pc c : PcInv filter s c (.fileInit hook n))
  cases hrun
  refine h.access hn hn fun key counter => ?_
  rw [hpc, held_fileUpdate]
  rfl

theorem inv_fileUpdate (h : Inv filter s) (hpc : s.pcs c = .fileUpdate hook n updates)
    (hrun : s.run filter c (.fileUpdate hook n updates) = some s') : Inv filter s' := by
  have hn : s.ioSourceMap hook.key = some n :=
    (hpc ▸ h.pc c : PcInv filter s c (.fileUpdate hook n updates))
  cases updates with cases hrun
  | nil =>
    refine h.goto trivial fun key counter => ?_
    simp [hpc, Pc.held, adds]
  | cons update rest =>
    refine h.access hn hn fun key counter => ?_
    simp only [hpc, Pc.held, adds_after, counters_apply]
    by_cases hkey : hook.key = key
    · simp only [if_pos hkey, adds_cons counter update rest, UInt64.add_assoc]
    · simp only [if_neg hkey]

theorem inv_run (h : Inv filter s) (hund : undisturbed s (.run c))
    (hrun : step filter s (.run c) = some s') : Inv filter s' := by
  have hrun : s.run filter c (s.pcs c) = some s' := hrun
  cases hpc : s.pcs c with
  | idle =>
    rw [hpc] at hrun
    cases hrun
  | doneInfo req q2c d2c => exact inv_doneInfo h hpc (hpc ▸ hrun)
  | doneEntry req info q2c d2c => exact inv_doneEntry h hpc (hpc ▸ hrun)
  | doneUpdate req info target updates => exact inv_doneUpdate h hpc hund (hpc ▸ hrun)
  | doneDelete req => exact inv_doneDelete h hpc (hpc ▸ hrun)
  | fileLookup hook => exact inv_fileLookup h hpc (hpc ▸ hrun)
  | fileInsert hook => exact inv_fileInsert h hpc (hpc ▸ hrun)
  | fileLookupAgain hook => exact inv_fileLookupAgain h hpc (hpc ▸ hrun)
  | filePath hook n => exact inv_filePath h hpc (hpc ▸ hrun)
  | fileInit hook n => exact inv_fileInit h hpc (hpc ▸ hrun)
  | fileUpdate hook n updates => exact inv_fileUpdate h hpc (hpc ▸ hrun)

/-! ## Requests and hooks -/

variable {flight : Flight ι}

theorem held_flight (hpcs : s'.pcs = s.pcs) (hfls : s'.flights = update s.flights hashKey flight)
    (key : IoKey) (counter : Counter) :
    s'.held filter key counter =
      update (s.held filter key counter) (.inl hashKey) (flight.held filter key counter) := by
  rw [held_eq_elim, held_eq_elim, Sum.update_elim_inl, hpcs, hfls, comp_update]

theorem held_update (hpcs : s'.pcs = update s.pcs c pc)
    (hfls : s'.flights = update s.flights hashKey flight) (key : IoKey) (counter : Counter) :
    s'.held filter key counter =
      update (update (s.held filter key counter) (.inl hashKey)
        (flight.held filter key counter)) (.inr c) (pc.held filter key counter) := by
  rw [held_eq_elim, held_eq_elim, Sum.update_elim_inl, Sum.update_elim_inr, hpcs, hfls, comp_update,
    comp_update]

theorem inv_issue (h : Inv filter s) (hstep : step filter s (.issue req) = some s') :
    Inv filter s' := by
  simp only [step] at hstep
  split at hstep
  · next hfl =>
    have hnone : s.startInfoMap req.hashKey = none := by
      have := h.flight req.hashKey
      unfold FlightInv at this
      rwa [hfl] at this
    obtain ⟨hfls, hinfo, hoth, hpcs, hsrc, hv, htotal⟩ :
        s'.flights = update s.flights req.hashKey (.issued req) ∧
        s'.startInfoMap req.hashKey = req.entry filter ∧
        (∀ other, other ≠ req.hashKey → s'.startInfoMap other = s.startInfoMap other) ∧
        s'.pcs = s.pcs ∧ s'.ioSourceMap = s.ioSourceMap ∧ s'.value = s.value ∧
        ∀ key counter, s'.total key counter =
          s.total key counter + req.owed filter key counter := by
      split at hstep
      · next hrec =>
        cases hstep
        refine ⟨rfl, ?_, fun other hne => update_of_ne hne _ _, rfl, rfl, rfl,
          fun key counter => ?_⟩
        · rw [Request.entry, if_pos hrec]
          exact update_self _ _ _
        · rw [Request.owed, if_pos hrec]
          simp only [State.total, List.map_cons, List.sum_cons]
          abel
      · next hrec =>
        cases hstep
        refine ⟨rfl, ?_, fun _ _ => rfl, rfl, rfl, rfl, fun key counter => ?_⟩
        · simp [Request.entry, if_neg hrec, hnone]
        · rw [Request.owed, if_neg hrec, UInt64.add_zero]
          rfl
    refine ⟨fun key => ?_, fun c => ?_, fun key counter => ?_⟩
    · unfold FlightInv
      by_cases hkey : key = req.hashKey
      · subst hkey
        rw [hfls, update_self]
        exact ⟨rfl, hinfo⟩
      · rw [hfls, update_of_ne hkey, hoth key hkey]
        exact h.flight key
    · rw [hpcs]
      refine Undisturbed.pcInv ⟨fun _ _ hn => by rwa [hsrc], fun key hkey => ?_⟩ (h.pc c)
      have hne : key ≠ req.hashKey := by
        rintro rfl
        cases hfl.symm.trans hkey
      exact ⟨by rw [hfls, update_of_ne hne, hkey], hoth key hne⟩
    · rw [held_flight hpcs hfls, htotal, hv]
      refine (h.conserved key counter).update _ _ ?_
      have hheld : s.held filter key counter (.inl req.hashKey) = 0 := by
        rw [State.held, hfl]
        rfl
      rw [hheld, Flight.held]
      abel
  · cases hstep

/-- The request goes to the CPU that completes it. -/
theorem inv_done (h : Inv filter s) (hstep : step filter s (.done c hashKey q2c d2c) = some s') :
    Inv filter s' := by
  simp only [step] at hstep
  split at hstep
  · next req hpc hfl =>
    obtain ⟨rfl, hinfo⟩ : req.hashKey = hashKey ∧ s.startInfoMap hashKey = req.entry filter := by
      have := h.flight hashKey
      unfold FlightInv at this
      rwa [hfl] at this
    obtain ⟨hpcs, hfls, hsta, hsrc, hv, htotal⟩ :
        s'.pcs = update s.pcs c (.doneInfo req q2c d2c) ∧
        s'.flights = update s.flights req.hashKey (.completing c) ∧
        s'.startInfoMap = s.startInfoMap ∧ s'.ioSourceMap = s.ioSourceMap ∧ s'.value = s.value ∧
        s'.total = s.total := by
      cases hstep
      exact ⟨rfl, rfl, rfl, rfl, rfl, rfl⟩
    refine ⟨fun key => ?_, fun c' => ?_, fun key counter => ?_⟩
    · unfold FlightInv
      rw [hfls, hsta]
      by_cases hkey : key = req.hashKey
      · simp [hkey]
      · rw [update_of_ne hkey]
        exact h.flight key
    · rw [hpcs]
      by_cases hc' : c' = c
      · subst hc'
        rw [update_self]
        exact ⟨by rw [hfls, update_self], by rw [hsta, hinfo]⟩
      · rw [update_of_ne hc']
        refine Undisturbed.pcInv ⟨fun _ _ hn => by rwa [hsrc], fun key hkey => ?_⟩ (h.pc c')
        have hne : key ≠ req.hashKey := by
          rintro rfl
          cases hfl.symm.trans hkey
        exact ⟨by rw [hfls, update_of_ne hne, hkey], by rw [hsta]⟩
    · have hmove := (h.conserved key counter).move (x := .inl req.hashKey) (y := .inr c)
        Sum.inr_ne_inl (by rw [State.held, hpc]; rfl)
      have howed : s.held filter key counter (.inl req.hashKey) = req.owed filter key counter := by
        rw [State.held, hfl]
        rfl
      rw [held_update hpcs hfls, htotal, hv]
      rwa [howed] at hmove
  · cases hstep

theorem inv_hook (h : Inv filter s) (hstep : step filter s (.hook c hook) = some s') :
    Inv filter s' := by
  simp only [step] at hstep
  split at hstep
  · next hpc =>
    split at hstep
    · obtain ⟨hpcs, hfls, hsta, hsrc, hv, htotal⟩ :
          s'.pcs = update s.pcs c (.fileLookup hook) ∧ s'.flights = s.flights ∧
          s'.startInfoMap = s.startInfoMap ∧ s'.ioSourceMap = s.ioSourceMap ∧ s'.value = s.value ∧
          ∀ key counter, s'.total key counter = s.total key counter + hook.amount key counter := by
        cases hstep
        refine ⟨rfl, rfl, rfl, rfl, rfl, fun key counter => ?_⟩
        simp only [State.total, State.goto, List.map_cons, List.sum_cons]
        abel
      refine ⟨fun key => ?_, fun c' => ?_, fun key counter => ?_⟩
      · unfold FlightInv
        rw [hfls, hsta]
        exact h.flight key
      · rw [hpcs]
        by_cases hc' : c' = c
        · rw [hc', update_self]
          trivial
        · rw [update_of_ne hc']
          exact Undisturbed.pcInv ⟨fun _ _ hn => by rwa [hsrc],
            fun _ hkey => ⟨by rw [hfls, hkey], by rw [hsta]⟩⟩ (h.pc c')
      · rw [held_goto hpcs (fun _ _ _ => by rw [hfls]), htotal, hv]
        refine (h.conserved key counter).update _ _ ?_
        have hheld : s.held filter key counter (.inr c) = 0 := by
          rw [State.held, hpc]
          rfl
        rw [hheld, Pc.held]
        abel
    · cases hstep
      exact h
  · cases hstep

theorem inv_step {a : Action ι} (h : Inv filter s)
    (hstep : Runs.restrict undisturbed (step filter) s a = some s') : Inv filter s' := by
  obtain ⟨hund, hstep⟩ := Runs.restrict_eq_some.1 hstep
  cases a with
  | issue req => exact inv_issue h hstep
  | done c hashKey q2c d2c => exact inv_done h hstep
  | hook c hook => exact inv_hook h hstep
  | run c => exact inv_run h hund hstep

omit [DecidableEq ι] in
theorem inv_start : Inv filter ({} : State ι) := by
  refine ⟨fun _ => rfl, fun _ => trivial, fun key counter => ?_⟩
  have hheld : ({} : State ι).held filter key counter = fun _ => 0 := by
    funext x
    cases x <;> rfl
  rw [hheld]
  exact Conserved.empty 0

/-- **Nothing is lost** if no completion replaces an entry that was added since it looked: when all
is done, each counter of each entry is the total over the requests that were recorded and over the
hooks. -/
theorem counters_total {s : State ι}
    (h : Runs.Reachable (Runs.restrict undisturbed (step filter)) {} s) (hquiet : s.Quiet)
    (key : IoKey) (counter : Counter) : s.value key counter = s.total key counter := by
  have hinv : Inv filter s := h.invariant inv_start fun _ _ _ _ h hstep => inv_step h hstep
  refine (hinv.conserved key counter).settled_eq fun x => ?_
  cases x with
  | inl hashKey =>
    rw [State.held, hquiet.2]
    rfl
  | inr c =>
    rw [State.held, hquiet.1]
    rfl

end

/-! ## An entry is replaced -/

/-- A read of 8 sectors of a file. -/
def sampleRead : Request where
  dev := 1
  sector := 100
  op := .read
  isMeta := false
  dataLen := 4096
  inode := 7
  isBlockDevice := false
  superDev := 1
  tgid := 3
  biBlkg := 0
  comm := "kworker"

/-- A write of 512 bytes to the file. -/
def sampleWrite : Hook where
  dev := 1
  inode := 7
  kind := .fileWrite 512 0
  tgid := 3
  comm := "dd"
  filepath := ["file"]

/-- A request of another key comes and goes. -/
theorem flights_of_ne {key : HashKey} (hkey : key ≠ sampleRead.hashKey)
    (flights : HashKey → Flight Bool) (issued done idle : Flight Bool) :
    update (update (update flights sampleRead.hashKey issued) sampleRead.hashKey done)
      sampleRead.hashKey idle key = flights key := by
  simp only [update_of_ne hkey]

/-- A completion adds the entry, a write and another completion find it. -/
theorem counters_total_in_turn :
    ∃ s : State Bool, s.Quiet ∧ s.total ⟨0, 1, 7⟩ .fsWriteBytes = 512 ∧
      s.total ⟨0, 1, 7⟩ .blockReadBytes = 8192 ∧
      ∀ key counter, s.value key counter = s.total key counter := by
  have hrun : ∃ s : State Bool, Runs.Reachable (Runs.restrict undisturbed (step [])) {} s ∧
      s.Quiet ∧ s.total ⟨0, 1, 7⟩ .fsWriteBytes = 512 ∧
      s.total ⟨0, 1, 7⟩ .blockReadBytes = 8192 := by
    refine ⟨_, ⟨List.flatten
      [.issue sampleRead :: .done false sampleRead.hashKey 5 3 :: List.replicate 12 (.run false),
        .hook true sampleWrite :: List.replicate 6 (.run true),
        .issue sampleRead :: .done true sampleRead.hashKey 5 3 :: List.replicate 10 (.run true)],
      rfl⟩, ⟨?_, fun key => ?_⟩, rfl, rfl⟩
    · rintro (_ | _) <;> rfl
    · by_cases hkey : key = sampleRead.hashKey
      · subst hkey
        rfl
      · exact (flights_of_ne hkey _ _ _ _).trans (flights_of_ne hkey _ _ _ _)
  obtain ⟨s, hreachable, hquiet, hwritten, hread⟩ := hrun
  exact ⟨s, hquiet, hwritten, hread, counters_total hreachable hquiet⟩

/-- A write adds the entry between the lookup of a completion and its update, which replaces the
entry: the bytes of the write are lost. -/
theorem first_observations_overlap :
    ∃ s : State Bool, Runs.Reachable (step []) {} s ∧ s.Quiet ∧
      s.total ⟨0, 1, 7⟩ .fsWriteBytes = 512 ∧ s.value ⟨0, 1, 7⟩ .fsWriteBytes = 0 := by
  refine ⟨_, ⟨List.flatten
    [[.issue sampleRead, .done false sampleRead.hashKey 5 3, .run false, .run false],
      .hook true sampleWrite :: List.replicate 7 (.run true), List.replicate 10 (.run false)],
    rfl⟩, ⟨?_, fun key => ?_⟩, rfl, rfl⟩
  · rintro (_ | _) <;> rfl
  · by_cases hkey : key = sampleRead.hashKey
    · subst hkey
      rfl
    · exact flights_of_ne hkey _ _ _ _

end Huatuo.IoTracing
