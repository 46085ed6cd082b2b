import Huatuo.Native.PhysicalUsage
import Huatuo.Native.RingBufferProof

/-!
# Frees land on their allocations

As long as `drainRingBuffer` processes no `ambiguous` event, the sample of a free has the frames and
the labels of the sample of its allocation. An event is ambiguous if one of its stack IDs names
different stacks in the two maps, and the event, or an earlier one of the drain that has the ID in
the cache, got the ID from the other map than the one of the drained ring. `misattributed` is a run
with such an event.

`Sound` is the invariant. Every event on its way belongs to a recorded allocation, whose stack IDs
are in its map for good; every sample has the frames that its event's own map gives; and the caches
hold what one of the maps gives, the map of the ring unless an event of the other one had the ID.
-/

namespace Huatuo.Native

open Profiling Function List Option

/-! ## Stacks -/

/-- The maps have different stacks under an ID. -/
def conflicting (s : State) (stackID : Int32) : Bool :=
  match s.stackMap .a stackID, s.stackMap .b stackID with
  | some a, some b => a ≠ b
  | _, _ => false

/-- The stacks of a map stay. -/
def StacksStay (s s' : State) : Prop :=
  ∀ ring stackID trace, s.stackMap ring stackID = some trace → s'.stackMap ring stackID = some trace

section Stacks

variable {config : Config} {names : Trace → List String} {s s' : State} {ring : Ring}
  {stackID : Int32} {frames frames' : List ProfileFrame}

theorem resolveStack_stays (hstay : StacksStay s s')
    (h : resolveStack names (s.stackMap ring) stackID = some frames) :
    resolveStack names (s'.stackMap ring) stackID = some frames := by
  unfold resolveStack at h ⊢
  split
  · next hneg => rwa [if_pos hneg] at h
  rename_i hneg
  rw [if_neg hneg, map_eq_some_iff] at h
  obtain ⟨trace, htrace, hfrs⟩ := h
  rw [hstay _ _ _ htrace, map_some, hfrs]

theorem resolveStack_of_inMap (h : PhysicalUsage.inMap s ring stackID = true) :
    ∃ frames, resolveStack names (s.stackMap ring) stackID = some frames := by
  unfold resolveStack
  split
  · exact ⟨_, rfl⟩
  rename_i hneg
  simp only [PhysicalUsage.inMap, Bool.or_eq_true, decide_eq_true_eq, hneg, false_or] at h
  obtain ⟨trace, htrace⟩ := isSome_iff_exists.1 h
  exact ⟨_, by rw [htrace, map_some]⟩

variable {ring' : Ring}

/-- Without a conflict every map that has the stack gives the same frames. -/
theorem resolveStack_agree (hagree : conflicting s stackID = false)
    (h : resolveStack names (s.stackMap ring) stackID = some frames)
    (h' : resolveStack names (s.stackMap ring') stackID = some frames') : frames = frames' := by
  unfold resolveStack at h h'
  split at h
  · next hneg =>
    rw [if_pos hneg] at h'
    exact Option.some.inj (h.symm.trans h')
  · next hneg =>
    rw [if_neg hneg] at h'
    obtain ⟨trace, htrace, rfl⟩ := map_eq_some_iff.1 h
    obtain ⟨trace', htrace', rfl⟩ := map_eq_some_iff.1 h'
    have hsame : trace = trace' := by
      cases ring <;> cases ring' <;> simp_all [conflicting]
    rw [hsame]

theorem resolveStackWithFallback_own
    (h : resolveStack names (s.stackMap ring) stackID = some frames) :
    resolveStackWithFallback config names s ring stackID = frames := by
  simp only [resolveStackWithFallback, h]

/-- The fallback finds what the map of an event has. -/
theorem resolveStackWithFallback_some (hfal : config.needsFallback = true) (ring : Ring)
    (h : resolveStack names (s.stackMap ring') stackID = some frames) :
    ∃ ring'', resolveStack names (s.stackMap ring'') stackID =
      some (resolveStackWithFallback config names s ring stackID) := by
  unfold resolveStackWithFallback
  cases hown : resolveStack names (s.stackMap ring) stackID with
  | some own => exact ⟨ring, hown⟩
  | none =>
    have hother : ring' = ring.other := by
      cases ring <;> cases ring' <;> simp_all [Ring.other]
    subst hother
    exact ⟨ring.other, by simp [hfal, h]⟩

end Stacks

/-! ## Caches -/

section Caches

variable {κ : Type} [BEq κ] (config : Config) (names : κ → Trace → List String)
  (stackID : κ → Int32) (key : Event → κ)

/-- The frames for a key, as `userFrames` and `kernelFrames` get them. -/
def framesFor (s : State) (ring : Ring) (cache : List (κ × List ProfileFrame)) (k : κ) :
    List ProfileFrame :=
  (cache.lookup k).getD (resolveStackWithFallback config (names k) s ring (stackID k))

/-- Cached frames are those of a map, and of the ring's map if no event of the drain had its ID from
the other one. -/
def Cached (s : State) (ring : Ring) (events : List Event) (cache : List (κ × List ProfileFrame)) :
    Prop :=
  ∀ k frames, cache.lookup k = some frames →
    (∃ ring', resolveStack (names k) (s.stackMap ring') (stackID k) = some frames) ∧
      ((∀ e ∈ events, key e = k → e.stackMap = ring) →
        resolveStack (names k) (s.stackMap ring) (stackID k) = some frames)

variable {config names stackID key} {s s' : State} {ring : Ring} {events : List Event}
  {cache : List (κ × List ProfileFrame)} {event : Event} {frames : List ProfileFrame}

theorem Cached.stays (h : Cached names stackID key s ring events cache) (hstay : StacksStay s s') :
    Cached names stackID key s' ring events cache := by
  intro k frames hlk
  obtain ⟨⟨ring', hsome⟩, hown⟩ := h k frames hlk
  exact ⟨⟨ring', resolveStack_stays hstay hsome⟩,
    fun hevs => resolveStack_stays hstay (hown hevs)⟩

theorem Cached.insert [LawfulBEq κ] (h : Cached names stackID key s ring events cache)
    (hfrs : resolveStack (names (key event)) (s.stackMap event.stackMap) (stackID (key event)) =
      some frames) :
    Cached names stackID key s ring (event :: events) ((key event, frames) :: cache) := by
  intro k frames' hlk
  rw [lookup_cons] at hlk
  split at hlk
  · next hkey =>
    cases hlk
    rw [eq_of_beq hkey]
    refine ⟨⟨_, hfrs⟩, fun hevs => ?_⟩
    rwa [← hevs event mem_cons_self rfl]
  · obtain ⟨hsome, hown⟩ := h k frames' hlk
    exact ⟨hsome, fun hevs => hown fun e he => hevs e (mem_cons_of_mem _ he)⟩

/-- An event gets the frames of its own map. -/
theorem framesFor_eq (hfal : config.needsFallback = true)
    (hcach : Cached names stackID key s ring events cache)
    (hmap : PhysicalUsage.inMap s event.stackMap (stackID (key event)) = true)
    (hclear : conflicting s (stackID (key event)) = false ∨
      ∀ e ∈ event :: events, key e = key event → e.stackMap = ring) :
    resolveStack (names (key event)) (s.stackMap event.stackMap) (stackID (key event)) =
      some (framesFor config names stackID s ring cache (key event)) := by
  obtain ⟨own, hown⟩ : ∃ own, resolveStack (names (key event)) (s.stackMap event.stackMap)
      (stackID (key event)) = some own := resolveStack_of_inMap hmap
  rw [hown]
  unfold framesFor
  cases hlk : cache.lookup (key event) with
  | some frames =>
    obtain ⟨⟨ring', hsome⟩, hring⟩ := hcach _ _ hlk
    cases hclear with
    | inl hagree => exact congrArg some (resolveStack_agree hagree hown hsome)
    | inr hnat =>
      have hfrs := hring fun e he => hnat e (mem_cons_of_mem _ he)
      rw [← hnat event mem_cons_self rfl] at hfrs
      exact hown.symm.trans hfrs
  | none =>
    cases hclear with
    | inl hagree =>
      obtain ⟨ring'', hfound⟩ := resolveStackWithFallback_some hfal ring hown
      exact congrArg some (resolveStack_agree hagree hown hfound)
    | inr hnat =>
      rw [hnat event mem_cons_self rfl] at hown
      exact congrArg some (resolveStackWithFallback_own hown).symm

end Caches

/-! ## The rings -/

def Event.userKey (event : Event) : UInt32 × Int32 := (event.pid, event.userstack)

/-- The event, or an earlier one of the drain with the same key, got its ID from the other map. -/
def mixed {κ : Type} [DecidableEq κ] (key : Event → κ) (drain : Drain) (event : Event) : Bool :=
  (event :: drain.events).any fun e => key e = key event && e.stackMap ≠ drain.ring

def ambiguous (s : State) (drain : Drain) (event : Event) : Bool :=
  (conflicting s event.userstack && mixed Event.userKey drain event) ||
    (conflicting s event.kernstack && mixed Event.kernstack drain event)

theorem native_of_not_mixed {κ : Type} [DecidableEq κ] {key : Event → κ} {drain : Drain}
    {event : Event} (h : mixed key drain event = false) :
    ∀ e ∈ event :: drain.events, key e = key event → e.stackMap = drain.ring := by
  simpa [mixed] using h

structure CachesSound (config : Config) (s : State) (drain : Drain) : Prop where
  user : Cached (fun k => config.usym k.1) Prod.snd Event.userKey s drain.ring drain.events
    drain.userCache
  kernel : Cached (fun _ => config.ksym) id Event.kernstack s drain.ring drain.events
    drain.kernelCache

theorem CachesSound.stays {config : Config} {s s' : State} {drain : Drain}
    (h : CachesSound config s drain) (hstay : StacksStay s s') : CachesSound config s' drain :=
  ⟨h.user.stays hstay, h.kernel.stays hstay⟩

/-- The stack IDs of an event are in its map. -/
def Held (s : State) (event : Event) : Prop :=
  PhysicalUsage.inMap s event.stackMap event.userstack = true ∧
    PhysicalUsage.inMap s event.stackMap event.kernstack = true

/-- A sample has the frames of its event's map. -/
structure Resolved (config : Config) (s : State) (event : Event) (sample : Sample) : Prop where
  user : resolveStack (config.usym event.pid) (s.stackMap event.stackMap) event.userstack =
    some sample.userFrames
  kernel : resolveStack config.ksym (s.stackMap event.stackMap) event.kernstack =
    some sample.kernelFrames
  labels : normalizeLabels
    (nativeLabels event.pid event.comm ++ (event.cpu.map profileCPULabel).toList) =
      .ok sample.labels

def Producer.events : Producer → List Event
  | .idle => []
  | .selected _ event | .counted _ event => [event]

def Phase.drain? : Phase → Option Drain
  | .reading drain | .processing drain .. | .counting drain _ => some drain
  | _ => none

def Phase.events : Phase → List Event
  | .processing _ events .. => events
  | _ => []

/-- Every event in the rings is one of `P`, and they are resolved by their own maps. -/
structure Sound (config : Config) (P : Event → Prop) (s : State) : Prop where
  held : ∀ e, P e → Held s e
  producers : ∀ cpu, ∀ e ∈ (s.producers cpu).events, P e
  output : ∀ ring, ∀ e ∈ eventsOf (s.output ring), P e
  events : ∀ e ∈ s.phase.events, P e
  caches : ∀ drain, s.phase.drain? = some drain → CachesSound config s drain
  sampled : ∀ p ∈ s.sampled, P p.1 ∧ Resolved config s p.1 p.2

section Rings

variable {config : Config} {P : Event → Prop} {s s' : State} {event : Event} {drain : Drain}
  {action : Action}

theorem Held.stays (h : Held s event) (hstay : StacksStay s s') : Held s' event := by
  have hin {stackID : Int32} (hmap : PhysicalUsage.inMap s event.stackMap stackID = true) :
      PhysicalUsage.inMap s' event.stackMap stackID = true := by
    simp only [PhysicalUsage.inMap, Bool.or_eq_true, decide_eq_true_eq] at hmap ⊢
    refine hmap.imp_right fun hsome => ?_
    obtain ⟨trace, htrace⟩ := isSome_iff_exists.1 hsome
    rw [hstay _ _ _ htrace, isSome_some]
  exact ⟨hin h.1, hin h.2⟩

theorem Resolved.stays {sample : Profiling.Sample} (h : Resolved config s event sample)
    (hstay : StacksStay s s') : Resolved config s' event sample :=
  ⟨resolveStack_stays hstay h.user, resolveStack_stays hstay h.kernel, h.labels⟩

/-- The sample of an event that is not ambiguous, and the caches after it. -/
theorem sampleOf_resolved (hfal : config.needsFallback = true) (hcac : CachesSound config s drain)
    (hheld : Held s event) (hclear : ambiguous s drain event = false) {sample : Sample}
    (hsam : sampleOf config s drain event = .ok sample) :
    Resolved config s event sample ∧ CachesSound config s (drain.remember config s event) := by
  obtain ⟨huser, hker⟩ := Bool.or_eq_false_iff.1 hclear
  have huser := (Bool.and_eq_false_iff.1 huser).imp_right native_of_not_mixed
  have hker := (Bool.and_eq_false_iff.1 hker).imp_right native_of_not_mixed
  have huser := framesFor_eq hfal hcac.user hheld.1 huser
  have hker := framesFor_eq hfal hcac.kernel hheld.2 hker
  refine ⟨?_, hcac.user.insert huser, hcac.kernel.insert hker⟩
  unfold sampleOf at hsam
  (repeat' split at hsam) <;> cases hsam
  rename_i hlab
  exact ⟨huser, hker, hlab⟩

/-- A step that resolves no event. -/
theorem Sound.next (h : Sound config P s) (hstay : StacksStay s s')
    (hpro : ∀ cpu, ∀ e ∈ (s'.producers cpu).events, P e)
    (hout : ∀ ring, ∀ e ∈ eventsOf (s'.output ring), P e) (hevs : ∀ e ∈ s'.phase.events, P e)
    (hcac : ∀ drain, s'.phase.drain? = some drain → CachesSound config s drain)
    (hsamp : s'.sampled = s.sampled) : Sound config P s' where
  held := fun e he => (h.held e he).stays hstay
  producers := hpro
  output := hout
  events := hevs
  caches := fun drain hdrain => (hcac drain hdrain).stays hstay
  sampled := fun p hp => (h.sampled p (hsamp ▸ hp)).imp_right (·.stays hstay)

theorem stacksStay_refl (s : State) : StacksStay s s := fun _ _ _ htrace => htrace

theorem forall_mem_update {ι β : Type*} {f : ι → β} {b : β} [DecidableEq ι]
    (contents : β → List Event) (h : ∀ i, ∀ e ∈ contents (f i), P e) (i : ι)
    (hb : ∀ e ∈ contents b, P e) : ∀ j, ∀ e ∈ contents (update f i b j), P e :=
  (forall_update_iff f fun _ b => ∀ e ∈ contents b, P e).2 ⟨hb, fun j _ => h j⟩

theorem sound_producer (h : Sound config P s) (cpu : Nat) (producer : Producer)
    (hprod : ∀ e ∈ producer.events, P e) :
    Sound config P { s with producers := update s.producers cpu producer } :=
  h.next (stacksStay_refl s) (forall_mem_update Producer.events h.producers cpu hprod) h.output
    h.events h.caches rfl

theorem eventsOf_append (xs ys : List Record) : eventsOf (xs ++ ys) = eventsOf xs ++ eventsOf ys :=
  filterMap_append

section

variable (h : Sound config P s)
include h

theorem sound_record (ring : Ring) (record : Record) (hrec : ∀ e ∈ record.event?, P e) :
    Sound config P { s with output := update s.output ring (s.output ring ++ [record]) } := by
  refine h.next (stacksStay_refl s) h.producers
    (forall_mem_update eventsOf h.output ring ?_) h.events
    h.caches rfl
  intro e he
  obtain he | he := mem_append.1 (eventsOf_append _ _ ▸ he)
  · exact h.output ring e he
  · exact hrec e (by simpa [eventsOf] using he)

theorem sound_kernel (hker : action.inKernel = true)
    (hsel : ∀ cpu event, action = .select cpu event → P event)
    (hstep : step config s action = some s') : Sound config P s' := by
  cases action with simp only [step] at hstep
  | recordStack ring stackID trace =>
    split at hstep <;> cases hstep
    next hfree =>
    refine h.next (fun r id t ht => ?_) h.producers h.output h.events h.caches rfl
    have hother : r = ring → id ≠ stackID := by
      rintro rfl rfl
      cases hfree.2.symm.trans ht
    by_cases hr : r = ring
    · simpa [hr, update_of_ne (hother hr)] using hr ▸ ht
    · simpa [update_of_ne hr] using ht
  | select cpu event =>
    split at hstep <;> cases hstep
    exact sound_producer h cpu _ (forall_mem_singleton.2 (hsel cpu event rfl))
  | count cpu =>
    split at hstep <;> cases hstep
    next ring event hcpu =>
    have hev : ∀ e ∈ [event], P e := by
      have hev := h.producers cpu
      rwa [hcpu] at hev
    have hsound := sound_producer h cpu (.counted ring event) hev
    exact hsound.next (stacksStay_refl _) hsound.producers h.output h.events hsound.caches rfl
  | output cpu accepted =>
    split at hstep
    · next ring event hcpu =>
      have hev : ∀ e ∈ [event], P e := by
        have hev := h.producers cpu
        rwa [hcpu] at hev
      have hidle : Sound config P { s with producers := update s.producers cpu .idle } :=
        sound_producer h cpu .idle (forall_mem_nil _)
      split at hstep <;> cases hstep
      · exact sound_record hidle ring (.sample event) (by simpa [Record.event?] using hev)
      · exact hidle.next (stacksStay_refl _) hidle.producers h.output h.events hidle.caches rfl
    · cases hstep
  | reportLost ring count =>
    split at hstep <;> cases hstep
    have hsound := sound_record h ring (.lost (UInt64.ofNat count)) (by simp [Record.event?])
    exact hsound.next (stacksStay_refl _) h.producers hsound.output h.events hsound.caches rfl
  | _ => cases hker

/-- Phases without a drain. -/
theorem Sound.leave (hsta : s'.stackMap = s.stackMap)
    (hpro : s'.producers = s.producers) (hout : s'.output = s.output)
    (hsamp : s'.sampled = s.sampled) (hdrain : s'.phase.drain? = none) : Sound config P s' := by
  have hevs : s'.phase.events = [] := by
    cases hph : s'.phase with
    | processing => rw [hph] at hdrain; cases hdrain
    | _ => rfl
  refine h.next (fun _ _ _ htrace => by rw [hsta, htrace]) (hpro ▸ h.producers)
    (hout ▸ h.output) ?_ ?_ hsamp
  · rw [hevs]
    nofun
  · rw [hdrain]
    nofun

/-- A drain that goes on without a further event. -/
theorem Sound.carryOn {phase : Phase} {enqueued : List Profiling.SampleBatch}
    (hdrain : s.phase.drain? = some drain) (hnext : phase.drain? = some drain)
    (hevs : phase.events = []) : Sound config P { s with phase, enqueued } := by
  refine h.next (stacksStay_refl s) h.producers h.output ?_ ?_ rfl
  · simp only [hevs]
    nofun
  · intro drain' hdrain'
    cases hnext.symm.trans hdrain'
    exact h.caches drain hdrain

theorem sound_writeTransferCount (transferCount : UInt64) (ring : Ring)
    (final : Option (List Ring)) :
    Sound config P { s with transferCount, phase := .reading { ring, final } } := by
  refine h.next (stacksStay_refl s) h.producers h.output nofun ?_ rfl
  intro drain hdrain
  cases hdrain
  exact ⟨nofun, nofun⟩

theorem sound_readBatch (hph : s.phase = .reading drain) (n : Nat) :
    Sound config P
      (readBatch
        { s with output := update s.output drain.ring ((s.output drain.ring).drop n) } drain
        ((s.output drain.ring).take n)) := by
  have hout := forall_mem_update eventsOf h.output drain.ring fun e he =>
    h.output drain.ring e (((drop_sublist n _).filterMap _).subset he)
  have hcac : CachesSound config s drain := h.caches drain (hph ▸ rfl)
  simp only [readBatch]
  split
  · exact h.next (stacksStay_refl s) h.producers hout (fun _ he => by cases he)
      (fun _ he => by cases he) rfl
  refine h.next (stacksStay_refl s) h.producers hout (fun e he => ?_) ?_ rfl
  · exact h.output drain.ring e (((take_sublist n _).filterMap _).subset he)
  · intro drain' hdrain
    cases hdrain
    exact ⟨hcac.user, hcac.kernel⟩

end

variable {empty : Bool}

theorem sound_process {rest : List Event} {lost : UInt64} {builder : Profiling.BatchBuilder}
    (hfal : config.needsFallback = true) (h : Sound config P s)
    (hph : s.phase = .processing drain (event :: rest) lost empty builder)
    (hclear : ambiguous s drain event = false) :
    Sound config P (process config s drain event rest lost empty builder) := by
  have hevs : ∀ e ∈ event :: rest, P e := by
    have hevs := h.events
    rwa [hph] at hevs
  have hev : P event := hevs event mem_cons_self
  unfold process
  split
  · exact h.leave rfl rfl rfl rfl rfl
  rename_i sample hsam
  split
  · exact h.leave rfl rfl rfl rfl rfl
  obtain ⟨hres, hcac⟩ := sampleOf_resolved hfal (h.caches drain (hph ▸ rfl))
    (h.held event hev) hclear hsam
  refine ⟨h.held, h.producers, h.output, ?_, ?_, ?_⟩
  · exact fun e he => hevs e (mem_cons_of_mem _ he)
  · intro drain' hdrain
    cases hdrain
    exact hcac.stays (stacksStay_refl s)
  · intro p hp
    obtain hp | hp := mem_append.1 hp
    · exact (h.sampled p hp).imp_right (·.stays (stacksStay_refl s))
    · cases mem_singleton.1 hp
      exact ⟨hev, hres.stays (stacksStay_refl s)⟩

theorem sound_readCount (h : Sound config P s) (hph : s.phase = .counting drain empty) :
    Sound config P (readCount s drain empty) := by
  simp only [readCount]
  split
  · split
    · exact h.leave rfl rfl rfl rfl rfl
    · unfold drained
      split <;> exact h.leave rfl rfl rfl rfl rfl
  · exact h.carryOn (hph ▸ rfl) rfl rfl

/-- The steps that process no ambiguous event. -/
def unambiguous (s : State) : Action → Bool
  | .process =>
    match s.phase with
    | .processing drain (event :: _) .. => !ambiguous s drain event
    | _ => true
  | _ => true

theorem sound_user (hfal : config.needsFallback = true) (h : Sound config P s)
    (hker : action.inKernel = false) (hclear : unambiguous s action = true)
    (hstep : step config s action = some s') : Sound config P s' := by
  cases action with simp only [step] at hstep
  | recordStack | select | count | output | reportLost => cases hker
  | drain | readTransferCount | fail =>
    split at hstep <;> cases hstep
    exact h.leave rfl rfl rfl rfl rfl
  | drainFinal =>
    (repeat' split at hstep) <;> cases hstep
    exact h.leave rfl rfl rfl rfl rfl
  | writeTransferCount =>
    split at hstep <;> cases hstep
    exact sound_writeTransferCount h _ _ _
  | readBatch n =>
    split at hstep <;> cases hstep
    next hph => exact sound_readBatch h hph n
  | process =>
    split at hstep <;> cases hstep
    · next hph =>
      exact sound_process hfal h hph (by simpa [unambiguous, hph] using hclear)
    · next hph => exact h.carryOn (hph ▸ rfl) rfl rfl
  | readCount =>
    split at hstep <;> cases hstep
    next hph => exact sound_readCount h hph
  | resetCount =>
    simp only [resetCount] at hstep
    split at hstep <;> cases hstep
    (repeat' split) <;> exact h.leave rfl rfl rfl rfl rfl

theorem sound_step (hfal : config.needsFallback = true) (h : Sound config P s)
    (hsel : ∀ cpu event, action = .select cpu event → P event)
    (hclear : unambiguous s action = true) (hstep : step config s action = some s') :
    Sound config P s' := by
  cases hker : action.inKernel with
  | true => exact sound_kernel h hker hsel hstep
  | false => exact sound_user hfal h hker hclear hstep

end Rings

/-! ## Allocations -/

namespace PhysicalUsage

def Program.events : Program → List Event
  | .freeing event => [event]
  | _ => []

/-- An event up to its value. -/
def base (event : Event) : Event := { event with value := 0 }

/-- An event belongs to an allocation. -/
def Recorded (allocated : List Event) (event : Event) : Prop :=
  ∃ first, allocated[event.allocation]? = some first ∧ base event = base first

structure Inv (config : Config) (s : State) : Prop where
  sound : Sound config.native (Recorded s.allocated) s.native
  pages : ∀ page, ∀ e ∈ (s.pageToStackID page).toList, Recorded s.allocated e
  programs : ∀ cpu, ∀ e ∈ (s.programs cpu).events, Recorded s.allocated e

section Steps

variable {config : Config} {s s' : State} {allocated : List Event} {e : Event}

theorem Recorded.append (h : Recorded allocated e) (event : Event) :
    Recorded (allocated ++ [event]) e := by
  obtain ⟨first, hfirst, hbase⟩ := h
  obtain ⟨hlt, _⟩ := List.getElem?_eq_some_iff.1 hfirst
  exact ⟨first, by rwa [List.getElem?_append_left hlt], hbase⟩

/-- Only the value differs from the event that was stored. -/
theorem Recorded.setValue (h : Recorded allocated e) (value : Int64) :
    Recorded allocated { e with value } := h

theorem Held.of_base {e' : Event} {n : Native.State} (hbase : base e = base e') (h : Held n e') :
    Held n e := by
  have h : Held n (base e) := hbase ▸ h
  exact h

/-- An event of the longer list is of the new allocation or of one before. -/
theorem recorded_append {event : Event} (h : Recorded (allocated ++ [event]) e) :
    Recorded allocated e ∨ base e = base event := by
  obtain ⟨first, hfirst, hbase⟩ := h
  rw [List.getElem?_append] at hfirst
  split at hfirst
  · exact .inl ⟨first, hfirst, hbase⟩
  · have hmem := mem_of_getElem? hfirst
    exact .inr (mem_singleton.1 hmem ▸ hbase)

theorem inv_tracePageAlloc {ring : Ring} {call : Allocation} (h : Inv config s) (cpu : Nat)
    (huser : inMap s.native ring call.userstack = true)
    (hker : inMap s.native ring call.kernstack = true) :
    Inv config (tracePageAlloc config s cpu ring call) := by
  simp only [tracePageAlloc]
  split
  · exact ⟨h.sound, h.pages, forall_mem_update Program.events h.programs cpu (forall_mem_nil _)⟩
  set event := call.event config s.allocated.length ring
  have hnew : Recorded (s.allocated ++ [event]) event :=
    ⟨event, List.getElem?_concat_length, rfl⟩
  have hgrow : ∀ e, Recorded s.allocated e → Recorded (s.allocated ++ [event]) e :=
    fun e he => he.append event
  have hheld : ∀ e, Recorded (s.allocated ++ [event]) e → Held s.native e := by
    intro e he
    cases recorded_append he with
    | inl hold => exact h.sound.held e hold
    | inr hbase => exact Held.of_base hbase ⟨huser, hker⟩
  have hsound : Sound config.native (Recorded (s.allocated ++ [event])) s.native :=
    { held := hheld
      producers := fun c e he => hgrow e (h.sound.producers c e he)
      output := fun r e he => hgrow e (h.sound.output r e he)
      events := fun e he => hgrow e (h.sound.events e he)
      caches := h.sound.caches
      sampled := fun p hp => (h.sound.sampled p hp).imp_left (hgrow p.1) }
  have hpages := fun page e he => hgrow e (h.pages page e he)
  have hprog := fun c e he => hgrow e (h.programs c e he)
  refine ⟨sound_producer hsound cpu _ (forall_mem_singleton.2 hnew), ?_, ?_⟩
  · split
    · exact hpages
    · exact forall_mem_update Option.toList hpages call.page (forall_mem_singleton.2 hnew)
  · exact forall_mem_update Program.events hprog cpu nofun

theorem inv_tracePageFree (h : Inv config s) (cpu : Nat) (page : UInt64) (nrPages : Int32) :
    Inv config (tracePageFree config s cpu page nrPages) := by
  unfold tracePageFree
  split
  · exact h
  rename_i stackInfo hpage
  have hinfo : Recorded s.allocated stackInfo := h.pages page stackInfo (by simp [hpage])
  have hfre (value : Int64) : ∀ e ∈ (Program.freeing { stackInfo with value }).events,
      Recorded s.allocated e := forall_mem_singleton.2 (hinfo.setValue value)
  split
  · refine ⟨h.sound, forall_mem_update Option.toList h.pages page ?_,
      forall_mem_update Program.events h.programs cpu (hfre _)⟩
    split
    · nofun
    · exact forall_mem_singleton.2 (hinfo.setValue _)
  · exact ⟨h.sound, forall_mem_update Option.toList h.pages page nofun,
      forall_mem_update Program.events h.programs cpu (hfre _)⟩

/-- The steps that process no ambiguous event. -/
def unambiguous (s : State) : Action → Bool
  | .native action => Native.unambiguous s.native action
  | _ => true

theorem inv_native {action : Native.Action} {native : Native.State} (h : Inv config s)
    (hclear : Native.unambiguous s.native action = true)
    (hstep : nativeStep config s action = some native) : Inv config { s with native } := by
  refine ⟨?_, h.pages, h.programs⟩
  cases action with
  | select => cases hstep
  | drainFinal =>
    simp only [nativeStep] at hstep
    split at hstep
    · exact sound_step rfl h.sound (by rintro _ _ ⟨⟩) hclear hstep
    · cases hstep
  | _ => exact sound_step rfl h.sound (by rintro _ _ ⟨⟩) hclear hstep

theorem inv_step {action : Action} (h : Inv config s) (hclear : unambiguous s action = true)
    (hstep : step config s action = some s') : Inv config s' := by
  cases action with simp only [step] at hstep
  | native action =>
    obtain ⟨native, hnat, rfl⟩ := map_eq_some_iff.1 hstep
    exact inv_native h hclear hnat
  | selectAlloc cpu =>
    split at hstep <;> cases hstep
    exact ⟨h.sound, h.pages, forall_mem_update Program.events h.programs cpu (forall_mem_nil _)⟩
  | tracePageAlloc cpu call =>
    (repeat' split at hstep) <;> cases hstep
    next hmap => exact inv_tracePageAlloc h cpu hmap.1 hmap.2
  | tracePageFree cpu page nrPages =>
    split at hstep <;> cases hstep
    exact inv_tracePageFree h cpu page nrPages
  | selectFree cpu =>
    split at hstep
    · next event hprg =>
      obtain ⟨native, hnat, rfl⟩ := map_eq_some_iff.1 hstep
      have hsel : ∀ c e, Native.Action.select cpu event = .select c e → Recorded s.allocated e := by
        rintro c e ⟨⟩
        exact h.programs cpu event (by simp [hprg, Program.events])
      exact ⟨sound_step rfl h.sound hsel rfl hnat, h.pages,
        forall_mem_update Program.events h.programs cpu (forall_mem_nil _)⟩
    · cases hstep

theorem inv_init : Inv config {} where
  sound :=
    { held := fun _ he => nomatch he
      producers := nofun
      output := nofun
      events := nofun
      caches := nofun
      sampled := nofun }
  pages := nofun
  programs := nofun

/-- A page has the event of an allocation of it. -/
def Filed (s : State) : Prop := ∀ page, ∀ e ∈ s.pageToStackID page, e.page = page

theorem Filed.update (h : Filed s) (page : UInt64) {stored : Option Event}
    (hstored : ∀ e ∈ stored, e.page = page) :
    ∀ page', ∀ e ∈ Function.update s.pageToStackID page stored page', e.page = page' :=
  (forall_update_iff _ fun page (stored : Option Event) => ∀ e ∈ stored, e.page = page).2
    ⟨hstored, fun page' _ => h page'⟩

end Steps

end PhysicalUsage

end Huatuo.Native
