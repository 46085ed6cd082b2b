import Huatuo.Lib.Ledger
import Huatuo.Profiling.Aggregator

/-!
# What an aggregator holds

`aggregated` — whatever the hash functions do, an aggregator decodes to the ledger of the samples it
accepted: one entry per identity, with the sum of the values.

`Represents` ties the aggregator to two lists that say what it means: the contents of its stacks,
and the entries of its samples. Lookups and insertions are those of `Dictionary`; what is particular
here is that stacks are stored as frame IDs, so that inserting one stack must not change the meaning
of the others (`resolve_mono`), and that `Add` looks up all it needs before it inserts anything.
-/

namespace Huatuo.Profiling

open Function List Option
open Dictionary (Names Indexed names_zero names_succ)

/-- What tells samples apart. -/
structure Identity where
  user : List ProfileFrame
  kernel : List ProfileFrame
  labels : List ProfileLabel
  deriving DecidableEq

def Sample.identity (sample : Sample) : Identity :=
  ⟨sample.userFrames, sample.kernelFrames, sample.labels⟩

def Sample.booking (sample : Sample) : Identity × Int := (sample.identity, sample.value.toInt)

/-- A sample decoded with `AppendFrames` and `Labels`. -/
def AggregatedProfile.decodeSample (profile : AggregatedProfile) (sample : AggregatedSample) :
    Option (Identity × Int) :=
  (appendFrames [] profile sample).bind fun frames =>
    (labelsOf profile sample).map fun labels =>
      (⟨frames.1.take frames.2, frames.1.drop frames.2, labels⟩, sample.value.toInt)

def AggregatedProfile.decode (heap : Heap AggregatedSample) (profile : AggregatedProfile) :
    List (Option (Identity × Int)) :=
  (heap.read profile.samples).map profile.decodeSample

/-- IDs are 32 bits wide, and this is how far they reach. -/
structure AggregatedProfile.Small (profile : AggregatedProfile) : Prop where
  frames : profile.frames.length < 2 ^ 32
  callStacks : profile.callStacks.length < 2 ^ 32
  labelSets : profile.labelSets.length < 2 ^ 32

theorem uint32_eq {n : Nat} (h : n < 2 ^ 32) : uint32 n = n := Nat.mod_eq_of_lt h

theorem addValues_eq_ok {a b v : Int64} : addValues a b = .ok v ↔ v.toInt = a.toInt + b.toInt := by
  have ha := a.toInt_lt
  have ha' := a.le_toInt
  have hb := b.toInt_lt
  have hb' := b.le_toInt
  have hv := v.toInt_lt
  have hv' := v.le_toInt
  unfold addValues
  simp only [Int64.lt_iff_toInt_lt, Int64.toInt_sub, Int64.toInt_zero, Int64.toInt_maxValue,
    Int64.toInt_minValue]
  split
  · rename_i hover
    refine ⟨nofun, fun h => ?_⟩
    simp only [Int.bmod] at hover
    omega
  · rename_i hover
    rw [Except.ok.injEq, ← Int64.toInt_inj, Int64.toInt_add]
    simp only [Int.bmod] at hover ⊢
    omega

/-! ## Stacks of frame IDs -/

section Resolve

variable {profile profile' : AggregatedProfile} {stack : List Nat} {frames : List ProfileFrame}

theorem resolve_cons {id : Nat} : profile.resolve (id :: stack) = some frames ↔
    ∃ frame rest, frames = frame :: rest ∧ profile.frames[id]? = some frame ∧
      profile.resolve stack = some rest := by
  simp only [AggregatedProfile.resolve, List.mapM_cons, Option.pure_def, Option.bind_eq_bind,
    bind_eq_some_iff, Option.some.injEq]
  constructor
  · rintro ⟨frame, hfr, rest, hrest, rfl⟩
    exact ⟨frame, rest, rfl, hfr, hrest⟩
  · rintro ⟨frame, rest, rfl, hfr, hrest⟩
    exact ⟨frame, hfr, rest, hrest, rfl⟩

/-- More frames do not change what a stack stands for. -/
theorem resolve_mono (hpre : profile.frames <+: profile'.frames)
    (h : profile.resolve stack = some frames) : profile'.resolve stack = some frames := by
  induction stack generalizing frames with
  | nil => exact h
  | cons id stack ih =>
    obtain ⟨frame, rest, rfl, hfr, hrest⟩ := resolve_cons.1 h
    obtain ⟨more, hmore⟩ := hpre
    have hlt := (List.getElem?_eq_some_iff.1 hfr).1
    refine resolve_cons.2 ⟨frame, rest, rfl, ?_, ih hrest⟩
    rw [← hmore, List.getElem?_append_left hlt, hfr]

theorem lt_of_resolve (h : profile.resolve stack = some frames) :
    ∀ id ∈ stack, id < profile.frames.length := by
  induction stack generalizing frames with
  | nil => exact fun _ hmem => absurd hmem not_mem_nil
  | cons id stack ih =>
    obtain ⟨frame, rest, -, hfr, hrest⟩ := resolve_cons.1 h
    intro id' hmem
    rcases mem_cons.1 hmem with rfl | hmem
    · exact (List.getElem?_eq_some_iff.1 hfr).1
    · exact ih hrest id' hmem

end Resolve

namespace Aggregator

/-! ## Dictionaries -/

/-- The frame dictionary and its index. -/
def FrameIndex (a : Aggregator) : Prop :=
  ∀ frame id, a.frameIDs frame = some id ↔ a.profile.frames[id]? = some frame

variable {a : Aggregator}

theorem FrameIndex.nodup (h : a.FrameIndex) : a.profile.frames.Nodup := by
  rw [nodup_iff_getElem?_ne_getElem?]
  intro i j hij hj heq
  have hget := List.getElem?_eq_getElem (Nat.lt_trans hij hj)
  have hi := (h _ i).2 hget
  rw [heq] at hget
  rw [(h _ j).2 hget] at hi
  exact absurd (Option.some.inj hi) (Nat.ne_of_gt hij)

/-- The dictionaries of an aggregator, and the contents of its stacks. -/
structure Dictionaries (hash : Hashes) (a : Aggregator) (contents : List (List ProfileFrame)) :
    Prop where
  frames : a.FrameIndex
  callStacks : a.profile.callStacks.map a.profile.resolve = contents.map some
  stackIDs : Indexed hash.stack contents a.stackBuckets
  labelSetIDs : Indexed hash.labelSet a.profile.labelSets a.labelBuckets

/-- Dictionaries grow, and the samples stay as they are. -/
structure Grows (a a' : Aggregator) : Prop where
  frames : a.profile.frames <+: a'.profile.frames
  callStacks : a.profile.callStacks <+: a'.profile.callStacks
  labelSets : a.profile.labelSets <+: a'.profile.labelSets
  samples : a'.profile.samples = a.profile.samples
  sampleIndexByKey : a'.sampleIndexByKey = a.sampleIndexByKey

theorem Grows.refl (a : Aggregator) : Grows a a :=
  ⟨prefix_rfl, prefix_rfl, prefix_rfl, rfl, rfl⟩

variable {a' : Aggregator}

theorem Grows.trans {a'' : Aggregator} (h : Grows a a') (h' : Grows a' a'') : Grows a a'' :=
  ⟨h.frames.trans h'.frames, h.callStacks.trans h'.callStacks, h.labelSets.trans h'.labelSets,
    h'.samples.trans h.samples, h'.sampleIndexByKey.trans h.sampleIndexByKey⟩

theorem Grows.small (h : Grows a a') (hsm : a'.profile.Small) : a.profile.Small :=
  ⟨Nat.lt_of_le_of_lt h.frames.length_le hsm.frames,
    Nat.lt_of_le_of_lt h.callStacks.length_le hsm.callStacks,
    Nat.lt_of_le_of_lt h.labelSets.length_le hsm.labelSets⟩

section Frames

variable {a : Aggregator} {frame : ProfileFrame} {frames : List ProfileFrame}

/-- Only the frame dictionary changed. -/
structure OnlyFrames (a a' : Aggregator) : Prop where
  frames : a.profile.frames <+: a'.profile.frames
  profile : a'.profile = { a.profile with frames := a'.profile.frames }
  stackBuckets : a'.stackBuckets = a.stackBuckets
  labelBuckets : a'.labelBuckets = a.labelBuckets
  sampleIndexByKey : a'.sampleIndexByKey = a.sampleIndexByKey

variable {a' : Aggregator}

theorem OnlyFrames.trans {a'' : Aggregator} (h : OnlyFrames a a') (h' : OnlyFrames a' a'') :
    OnlyFrames a a'' :=
  ⟨h.frames.trans h'.frames, by rw [h'.profile, h.profile],
    h'.stackBuckets.trans h.stackBuckets, h'.labelBuckets.trans h.labelBuckets,
    h'.sampleIndexByKey.trans h.sampleIndexByKey⟩

theorem OnlyFrames.callStacks (h : OnlyFrames a a') :
    a'.profile.callStacks = a.profile.callStacks := by
  rw [h.profile]

theorem OnlyFrames.labelSets (h : OnlyFrames a a') :
    a'.profile.labelSets = a.profile.labelSets := by
  rw [h.profile]

theorem OnlyFrames.samples (h : OnlyFrames a a') : a'.profile.samples = a.profile.samples := by
  rw [h.profile]

theorem onlyFrames_insertFrame : OnlyFrames a (a.insertFrame frame).2 := by
  unfold insertFrame
  split
  · exact ⟨prefix_rfl, rfl, rfl, rfl, rfl⟩
  · exact ⟨prefix_append _ _, rfl, rfl, rfl, rfl⟩

theorem onlyFrames_insertFrames : OnlyFrames a (a.insertFrames frames).2 := by
  induction frames generalizing a with
  | nil => exact ⟨prefix_rfl, rfl, rfl, rfl, rfl⟩
  | cons frame frames ih => exact onlyFrames_insertFrame.trans ih

theorem insertFrame_of_some {id : Nat} (h : a.frameIDs frame = some id) :
    a.insertFrame frame = (id, a) := by
  rw [insertFrame, h]

theorem insertFrame_spec (hi : a.FrameIndex)
    (hsm : (a.insertFrame frame).2.profile.frames.length < 2 ^ 32) :
    (a.insertFrame frame).2.FrameIndex ∧
      (a.insertFrame frame).2.profile.frames[(a.insertFrame frame).1]? = some frame := by
  cases hfr : a.frameIDs frame with
  | some id =>
    rw [insertFrame_of_some hfr]
    exact ⟨hi, (hi frame id).1 hfr⟩
  | none =>
    have hnew (id : Nat) : a.profile.frames[id]? ≠ some frame := fun hid => by
      simp [(hi frame id).2 hid] at hfr
    simp only [insertFrame, hfr, length_append, length_singleton] at hsm ⊢
    rw [uint32_eq (Nat.lt_of_succ_lt hsm)]
    refine ⟨fun frame' id => ?_, List.getElem?_concat_length⟩
    rw [Dictionary.getElem?_concat_eq_some]
    by_cases heq : frame' = frame
    · subst heq
      simp only [update_self, Option.some.injEq, hnew id, false_or, and_true]
      exact eq_comm
    · simp only [update_of_ne heq, hi frame' id, Ne.symm heq, and_false, or_false]

/-- The IDs stand for the frames, and the old IDs for what they stood for. -/
theorem insertFrames_spec (hi : a.FrameIndex)
    (hsm : (a.insertFrames frames).2.profile.frames.length < 2 ^ 32) :
    (a.insertFrames frames).2.FrameIndex ∧
      (a.insertFrames frames).2.profile.resolve (a.insertFrames frames).1 = some frames := by
  induction frames generalizing a with
  | nil => exact ⟨hi, rfl⟩
  | cons frame frames ih =>
    have hrest : OnlyFrames (a.insertFrame frame).2 (a.insertFrames (frame :: frames)).2 :=
      onlyFrames_insertFrames
    have hlen := Nat.lt_of_le_of_lt hrest.frames.length_le hsm
    obtain ⟨hfr, hget⟩ := insertFrame_spec hi hlen
    obtain ⟨hidx, hres⟩ := ih hfr hsm
    refine ⟨hidx, resolve_cons.2 ⟨frame, frames, rfl, ?_, hres⟩⟩
    obtain ⟨more, hmore⟩ := hrest.frames
    rw [← hmore, List.getElem?_append_left (List.getElem?_eq_some_iff.1 hget).1, hget]

end Frames

/-! ## Inserting -/

section Insert

variable {hash : Hashes} {a : Aggregator} {contents : List (List ProfileFrame)}
  {frames : List ProfileFrame} {labels : List ProfileLabel}

theorem grows_insertStack (h : UInt64) : Grows a (a.insertStack frames h).2 := by
  unfold insertStack
  split
  · exact .refl a
  have honly : OnlyFrames a (a.insertFrames frames).2 := onlyFrames_insertFrames
  refine ⟨honly.frames, ?_, ?_, honly.samples, honly.sampleIndexByKey⟩
  · show a.profile.callStacks <+: (a.insertFrames frames).2.profile.callStacks ++ _
    rw [honly.callStacks]
    exact prefix_append _ _
  · exact honly.labelSets ▸ prefix_rfl

theorem grows_insertLabelSet (h : UInt64) : Grows a (a.insertLabelSet labels h).2 :=
  ⟨prefix_rfl, prefix_rfl, prefix_append _ _, rfl, rfl⟩

section

variable (hd : Dictionaries hash a contents)
include hd

theorem Dictionaries.length : a.profile.callStacks.length = contents.length := by
  simpa using congrArg List.length hd.callStacks

theorem Dictionaries.getElem?_bind (i : Nat) :
    (a.profile.callStacks[i]?).bind a.profile.resolve = contents[i]? := by
  have hget := congrArg (fun l => l[i]?) hd.callStacks
  simp only [List.getElem?_map] at hget
  cases hstack : a.profile.callStacks[i]? <;> cases hcon : contents[i]? <;> simp_all

theorem Dictionaries.resolve {stack : List Nat} (hmem : stack ∈ a.profile.callStacks) :
    ∃ frames ∈ contents, a.profile.resolve stack = some frames := by
  have hmem' : a.profile.resolve stack ∈ contents.map some :=
    hd.callStacks ▸ mem_map_of_mem hmem
  obtain ⟨frames, hfrs, heq⟩ := List.mem_map.1 hmem'
  exact ⟨frames, hfrs, heq.symm⟩

/-- A stack that is new gets the next ID, and all others keep theirs. -/
theorem Dictionaries.insertStack (hne : frames ≠ []) (hnew : frames ∉ contents)
    (hsm : (a.insertStack frames (hash.stack frames)).2.profile.Small) :
    Dictionaries hash (a.insertStack frames (hash.stack frames)).2 (contents ++ [frames]) ∧
      (a.insertStack frames (hash.stack frames)).1 = contents.length + 1 := by
  have hemp : frames.isEmpty = false := by simpa using hne
  have honly : OnlyFrames a (a.insertFrames frames).2 := onlyFrames_insertFrames
  simp only [Aggregator.insertStack, hemp, Bool.false_eq_true, if_false, honly.callStacks]
    at hsm ⊢
  obtain ⟨hidx, hres⟩ := insertFrames_spec hd.frames hsm.frames
  have hid : uint32 (a.profile.callStacks ++ [(a.insertFrames frames).1]).length =
      contents.length + 1 := by
    rw [uint32_eq hsm.callStacks, length_append, hd.length]
    rfl
  rw [hid, honly.stackBuckets, honly.labelBuckets]
  refine ⟨⟨hidx, ?_, hd.stackIDs.insert hnew hne, ?_⟩, rfl⟩
  · have hold : a.profile.callStacks.map (a.insertFrames frames).2.profile.resolve =
        a.profile.callStacks.map a.profile.resolve := by
      refine map_congr_left fun stack hmem => ?_
      obtain ⟨old, -, hold⟩ := hd.resolve hmem
      rw [hold, resolve_mono honly.frames hold]
    rw [map_append, map_append, ← hd.callStacks, ← hold]
    exact congrArg _ (congrArg (fun frames => [frames]) hres)
  · show Indexed hash.labelSet (a.insertFrames frames).2.profile.labelSets a.labelBuckets
    rw [honly.labelSets]
    exact hd.labelSetIDs

theorem Dictionaries.insertLabelSet (hne : labels ≠ []) (hnew : labels ∉ a.profile.labelSets)
    (hsm : (a.insertLabelSet labels (hash.labelSet labels)).2.profile.Small) :
    Dictionaries hash (a.insertLabelSet labels (hash.labelSet labels)).2 contents ∧
      (a.insertLabelSet labels (hash.labelSet labels)).1 = a.profile.labelSets.length + 1 := by
  have hlen : (a.profile.labelSets ++ [labels]).length < 2 ^ 32 := hsm.labelSets
  have hid : uint32 (a.profile.labelSets ++ [labels]).length = a.profile.labelSets.length + 1 := by
    rw [uint32_eq hlen, length_append]
    rfl
  simp only [Aggregator.insertLabelSet, hid]
  exact ⟨⟨hd.frames, hd.callStacks, hd.stackIDs, hd.labelSetIDs.insert hnew hne⟩, trivial⟩

end

/-! ## Looking up -/

/-- What a lookup says: the ID of `x`, or 0 if there is none. -/
structure Found {α : Type*} (entries : List (List α)) (id : Nat) (x : List α) : Prop where
  names : id ≠ 0 → Names entries id x
  fresh : id = 0 → x ∉ entries

theorem Found.names_of_known {α : Type*} {entries : List (List α)} {id : Nat} {x : List α}
    (h : Found entries id x) (hknown : id ≠ 0 ∨ x.isEmpty = true) : Names entries id x := by
  by_cases hid : id = 0
  · subst hid
    exact names_zero.2 (isEmpty_iff.1 (hknown.resolve_left fun hne => hne rfl))
  · exact h.names hid

theorem findStackID_spec (hd : Dictionaries hash a contents) (frames : List ProfileFrame) :
    Found contents (a.findStackID hash frames).1 frames := by
  unfold findStackID
  split
  · rename_i hemp
    rw [isEmpty_iff.1 hemp]
    exact ⟨fun hne => absurd rfl hne, fun _ => hd.stackIDs.nonempty⟩
  · obtain ⟨hnames, hfresh⟩ := hd.stackIDs.find_spec frames
      (fun stackID => (a.profile.callStacks[stackID - 1]?).bind a.profile.resolve = some frames)
      (fun i _ => by rw [decide_eq_true_iff, Nat.add_sub_cancel, hd.getElem?_bind])
    exact ⟨hnames, hfresh⟩

theorem findStackID_hash (hne : frames ≠ []) :
    (a.findStackID hash frames).2 = hash.stack frames := by
  rw [findStackID, if_neg (by simpa using hne)]

theorem findLabelSetID_spec (hd : Dictionaries hash a contents) (labels : List ProfileLabel) :
    Found a.profile.labelSets (a.findLabelSetID hash labels).1 labels := by
  unfold findLabelSetID
  split
  · rename_i hemp
    rw [isEmpty_iff.1 hemp]
    exact ⟨fun hne => absurd rfl hne, fun _ => hd.labelSetIDs.nonempty⟩
  · obtain ⟨hnames, hfresh⟩ := hd.labelSetIDs.find_spec labels
      (fun labelSetID => a.profile.labelSets[labelSetID - 1]? = some labels)
      (fun i _ => by rw [decide_eq_true_iff, Nat.add_sub_cancel])
    exact ⟨hnames, hfresh⟩

theorem findLabelSetID_hash (hne : labels ≠ []) :
    (a.findLabelSetID hash labels).2 = hash.labelSet labels := by
  rw [findLabelSetID, if_neg (by simpa using hne)]

/-! ## Entries for a new sample -/

/-- The stack of one side, once it is in the dictionary. -/
theorem insertStack_names {h : UInt64} (hd : Dictionaries hash a contents)
    (hnew : frames ∉ contents) (hhash : frames ≠ [] → h = hash.stack frames)
    (hsm : (a.insertStack frames h).2.profile.Small) :
    ∃ contents', Dictionaries hash (a.insertStack frames h).2 contents' ∧
      Names contents' (a.insertStack frames h).1 frames ∧
      (contents' = contents ∨ contents' = contents ++ [frames]) := by
  by_cases hemp : frames = []
  · subst hemp
    exact ⟨contents, hd, names_zero.2 rfl, .inl rfl⟩
  · rw [hhash hemp] at hsm ⊢
    obtain ⟨hd', hid⟩ := hd.insertStack hemp hnew hsm
    refine ⟨contents ++ [frames], hd', ?_, .inr rfl⟩
    rw [hid]
    exact Dictionary.names_concat

/-- The three parts of a key that stand for an identity. -/
structure KeyNames (contents : List (List ProfileFrame)) (labelSets : List (List ProfileLabel))
    (key : SampleKey) (identity : Identity) : Prop where
  user : Names contents key.userStack identity.user
  kernel : Names contents key.kernelStack identity.kernel
  labels : Names labelSets key.labelSet identity.labels

variable {sample : Sample}

theorem grows_ensureUserStack (user : Nat × UInt64) :
    Grows a (a.ensureUserStack sample user).2 := by
  unfold ensureUserStack
  split
  · exact grows_insertStack _
  · exact .refl a

theorem grows_ensureKernelStack (user kernel : Nat × UInt64) (userStack : Nat) :
    Grows a (a.ensureKernelStack sample user kernel userStack).2 := by
  unfold ensureKernelStack
  split
  · split
    · exact .refl a
    · exact grows_insertStack _
  · exact .refl a

theorem grows_ensureLabelSet (labels : Nat × UInt64) :
    Grows a (a.ensureLabelSet sample labels).2 := by
  unfold ensureLabelSet
  split
  · exact grows_insertLabelSet _
  · exact .refl a

theorem grows_insertEntries (user kernel labels : Nat × UInt64) :
    Grows a (a.insertEntries sample user kernel labels).2 :=
  (grows_ensureUserStack user).trans
    ((grows_ensureKernelStack user kernel _).trans (grows_ensureLabelSet labels))

section

variable (hd : Dictionaries hash a contents)
include hd

theorem ensureUserStack_spec
    (hsm : (a.ensureUserStack sample (a.findStackID hash sample.userFrames)).2.profile.Small) :
    ∃ contents',
      Dictionaries hash (a.ensureUserStack sample (a.findStackID hash sample.userFrames)).2
        contents' ∧
      Names contents' (a.ensureUserStack sample (a.findStackID hash sample.userFrames)).1
        sample.userFrames ∧
      (contents' = contents ∨
        (a.findStackID hash sample.userFrames).1 = 0 ∧
          contents' = contents ++ [sample.userFrames]) := by
  have hfound := findStackID_spec hd sample.userFrames
  unfold ensureUserStack at hsm ⊢
  by_cases hid : (a.findStackID hash sample.userFrames).1 = 0
  · rw [if_pos hid] at hsm ⊢
    obtain ⟨contents', hd', hnames, hcon⟩ :=
      insertStack_names hd (hfound.fresh hid) findStackID_hash hsm
    exact ⟨contents', hd', hnames, hcon.imp_right fun h => ⟨hid, h⟩⟩
  · rw [if_neg hid]
    exact ⟨contents, hd, hfound.names hid, .inl rfl⟩

theorem ensureKernelStack_spec {a₁ : Aggregator} {contents₁ : List (List ProfileFrame)}
    {userStack : Nat} (hd₁ : Dictionaries hash a₁ contents₁)
    (huser : Names contents₁ userStack sample.userFrames) (hcon : contents₁ = contents ∨
      (a.findStackID hash sample.userFrames).1 = 0 ∧ contents₁ = contents ++ [sample.userFrames])
    (hsm : (a₁.ensureKernelStack sample (a.findStackID hash sample.userFrames)
      (a.findStackID hash sample.kernelFrames) userStack).2.profile.Small) :
    let kernelStack := a₁.ensureKernelStack sample (a.findStackID hash sample.userFrames)
      (a.findStackID hash sample.kernelFrames) userStack
    ∃ contents₂, contents₁ <+: contents₂ ∧ Dictionaries hash kernelStack.2 contents₂ ∧
      Names contents₂ kernelStack.1 sample.kernelFrames := by
  have hfound := findStackID_spec hd sample.kernelFrames
  unfold ensureKernelStack at hsm ⊢
  split at hsm
  · rename_i hunk
    obtain ⟨hid, hne⟩ := hunk
    have hne' : sample.kernelFrames ≠ [] := by simpa using hne
    rw [if_pos ⟨hid, hne⟩]
    split at hsm
    · rename_i hsame
      rw [if_pos hsame]
      exact ⟨contents₁, prefix_rfl, hd₁, hsame.2.2.2 ▸ huser⟩
    · rename_i hdif
      rw [if_neg hdif]
      have hnew : sample.kernelFrames ∉ contents₁ := by
        rcases hcon with rfl | ⟨huserID, rfl⟩
        · exact hfound.fresh hid
        · rw [mem_append, mem_singleton, not_or]
          refine ⟨hfound.fresh hid, fun heq => hdif ?_⟩
          rw [heq] at hne
          exact ⟨huserID, hne, by rw [heq], heq.symm⟩
      obtain ⟨contents₂, hd₂, hnames, hgrown⟩ := insertStack_names hd₁ hnew findStackID_hash hsm
      refine ⟨contents₂, ?_, hd₂, hnames⟩
      rcases hgrown with rfl | rfl
      · exact prefix_rfl
      · exact prefix_append _ _
  · rename_i hknown
    rw [if_neg hknown]
    have hnames : Names contents _ sample.kernelFrames := hfound.names_of_known (by
      rw [not_and_or, not_not] at hknown
      exact hknown)
    refine ⟨contents₁, prefix_rfl, hd₁, ?_⟩
    rcases hcon with rfl | ⟨-, rfl⟩
    · exact hnames
    · exact hnames.mono (prefix_append _ _)

theorem ensureLabelSet_spec {a₁ : Aggregator} {contents₁ : List (List ProfileFrame)}
    (hd₁ : Dictionaries hash a₁ contents₁)
    (hlabelSets : a₁.profile.labelSets = a.profile.labelSets)
    (hsm : (a₁.ensureLabelSet sample (a.findLabelSetID hash sample.labels)).2.profile.Small) :
    let labelSet := a₁.ensureLabelSet sample (a.findLabelSetID hash sample.labels)
    Dictionaries hash labelSet.2 contents₁ ∧
      Names labelSet.2.profile.labelSets labelSet.1 sample.labels := by
  have hfound := findLabelSetID_spec hd sample.labels
  rw [← hlabelSets] at hfound
  unfold ensureLabelSet at hsm ⊢
  split at hsm
  · rename_i hunk
    have hne : sample.labels ≠ [] := by simpa using hunk.2
    rw [if_pos hunk]
    rw [findLabelSetID_hash hne] at hsm ⊢
    obtain ⟨hd₂, hid⟩ := hd₁.insertLabelSet hne (hfound.fresh hunk.1) hsm
    refine ⟨hd₂, ?_⟩
    rw [hid]
    exact Dictionary.names_concat
  · rename_i hknown
    rw [if_neg hknown]
    rw [not_and_or, not_not] at hknown
    exact ⟨hd₁, hfound.names_of_known hknown⟩

end

theorem insertStack_labelSets (h : UInt64) :
    (a.insertStack frames h).2.profile.labelSets = a.profile.labelSets := by
  unfold insertStack
  split
  · rfl
  · exact onlyFrames_insertFrames.labelSets

theorem ensureUserStack_labelSets (user : Nat × UInt64) :
    (a.ensureUserStack sample user).2.profile.labelSets = a.profile.labelSets := by
  unfold ensureUserStack
  split
  · exact insertStack_labelSets _
  · rfl

theorem ensureKernelStack_labelSets (user kernel : Nat × UInt64) (userStack : Nat) :
    (a.ensureKernelStack sample user kernel userStack).2.profile.labelSets =
      a.profile.labelSets := by
  unfold ensureKernelStack
  split
  · split
    · rfl
    · exact insertStack_labelSets _
  · rfl

/-- All that a new sample needs is in the dictionaries, and the key stands for its identity. -/
theorem insertEntries_spec (hd : Dictionaries hash a contents)
    (hsm : (a.insertEntries sample (a.findStackID hash sample.userFrames)
      (a.findStackID hash sample.kernelFrames)
        (a.findLabelSetID hash sample.labels)).2.profile.Small) :
    let inserted := a.insertEntries sample (a.findStackID hash sample.userFrames)
      (a.findStackID hash sample.kernelFrames) (a.findLabelSetID hash sample.labels)
    ∃ contents', contents <+: contents' ∧ Dictionaries hash inserted.2 contents' ∧
      KeyNames contents' inserted.2.profile.labelSets inserted.1 sample.identity := by
  have hsm₂ := (grows_ensureLabelSet _).small hsm
  have hsm₁ := (grows_ensureKernelStack _ _ _).small hsm₂
  obtain ⟨contents₁, hd₁, huser, hcon⟩ := ensureUserStack_spec hd hsm₁
  obtain ⟨contents₂, hpre, hd₂, hker⟩ := ensureKernelStack_spec hd hd₁ huser hcon hsm₂
  obtain ⟨hd₃, hlab⟩ := ensureLabelSet_spec hd hd₂
    ((ensureKernelStack_labelSets _ _ _).trans (ensureUserStack_labelSets _)) hsm
  have hcon₁ : contents <+: contents₁ := by
    rcases hcon with rfl | ⟨-, rfl⟩
    · exact prefix_rfl
    · exact prefix_append _ _
  exact ⟨contents₂, hcon₁.trans hpre, hd₃, huser.mono hpre, hker, hlab⟩

end Insert

/-! ## Samples -/

/-- The key of an aggregated sample. -/
def keyOf (sample : AggregatedSample) : SampleKey :=
  ⟨sample.userStack, sample.kernelStack, sample.labelSet⟩

/-- What an aggregator means: the contents of its stacks, and its entries. -/
structure Represents (hash : Hashes) (heap : Heap AggregatedSample) (a : Aggregator)
    (contents : List (List ProfileFrame)) (entries : List (Identity × Int)) : Prop where
  dictionaries : Dictionaries hash a contents
  valid : heap.Valid a.profile.samples
  decode : a.profile.decode heap = entries.map some
  nodup : (entries.map Prod.fst).Nodup
  index : ∀ key i, a.sampleIndexByKey key = some i ↔
    ∃ sample, (heap.read a.profile.samples)[i]? = some sample ∧ keyOf sample = key

section Samples

variable {hash : Hashes} {heap : Heap AggregatedSample} {a : Aggregator}
  {contents : List (List ProfileFrame)} {entries : List (Identity × Int)}

theorem stackFrames_eq_some (hd : Dictionaries hash a contents) {id : Nat}
    {frames : List ProfileFrame} :
    a.profile.stackFrames id = some frames ↔ Names contents id frames := by
  cases id with
  | zero => simp [AggregatedProfile.stackFrames, names_zero, eq_comm]
  | succ i => simp [AggregatedProfile.stackFrames, names_succ, hd.getElem?_bind]

theorem labelsOf_eq_some {profile : AggregatedProfile} {sample : AggregatedSample}
    {labels : List ProfileLabel} :
    labelsOf profile sample = some labels ↔ Names profile.labelSets sample.labelSet labels := by
  unfold labelsOf
  cases sample.labelSet with
  | zero => simp [names_zero, eq_comm]
  | succ i => simp [names_succ]

variable {entry : Identity × Int} {identity : Identity} {key : SampleKey} {i : Nat}

/-- A sample decodes to the identity that its key stands for. -/
theorem decodeSample_eq_some (hd : Dictionaries hash a contents) {sample : AggregatedSample} :
    a.profile.decodeSample sample = some entry ↔
      KeyNames contents a.profile.labelSets (keyOf sample) entry.1 ∧
        sample.value.toInt = entry.2 := by
  simp only [AggregatedProfile.decodeSample, appendFrames, bind_eq_some_iff,
    map_eq_some_iff, stackFrames_eq_some hd, labelsOf_eq_some]
  constructor
  · rintro ⟨-, ⟨user, huser, kernel, hker, rfl⟩, labels, hlab, rfl⟩
    simp only [nil_append, take_left, drop_left]
    exact ⟨⟨huser, hker, hlab⟩, trivial⟩
  · rintro ⟨⟨huser, hker, hlab⟩, hval⟩
    refine ⟨_, ⟨_, huser, _, hker, rfl⟩, _, hlab, ?_⟩
    simp only [nil_append, take_left, drop_left, hval]

variable {sample : AggregatedSample}

/-- Samples keep their meaning when dictionaries grow. -/
theorem decodeSample_mono {a' : Aggregator} {contents' : List (List ProfileFrame)}
    (hd : Dictionaries hash a contents) (hd' : Dictionaries hash a' contents')
    (hcon : contents <+: contents') (hgrows : Grows a a')
    (h : a.profile.decodeSample sample = some entry) :
    a'.profile.decodeSample sample = some entry := by
  obtain ⟨hnames, hval⟩ := (decodeSample_eq_some hd).1 h
  exact (decodeSample_eq_some hd').2 ⟨⟨hnames.user.mono hcon, hnames.kernel.mono hcon,
    hnames.labels.mono hgrows.labelSets⟩, hval⟩

theorem KeyNames.inj {key' : SampleKey} (hd : Dictionaries hash a contents)
    (h : KeyNames contents a.profile.labelSets key identity)
    (h' : KeyNames contents a.profile.labelSets key' identity) : key = key' := by
  cases key
  cases key'
  rw [SampleKey.mk.injEq]
  exact ⟨hd.stackIDs.names_inj h.user h'.user, hd.stackIDs.names_inj h.kernel h'.kernel,
    hd.labelSetIDs.names_inj h.labels h'.labels⟩

theorem KeyNames.unique {labelSets : List (List ProfileLabel)} {identity' : Identity}
    (h : KeyNames contents labelSets key identity)
    (h' : KeyNames contents labelSets key identity') : identity = identity' := by
  cases identity
  cases identity'
  rw [Identity.mk.injEq]
  exact ⟨h.user.unique h'.user, h.kernel.unique h'.kernel, h.labels.unique h'.labels⟩

/-- The entry of the sample at an index. -/
theorem Represents.getElem? (hr : Represents hash heap a contents entries)
    (h : (heap.read a.profile.samples)[i]? = some sample) :
    ∃ entry, entries[i]? = some entry ∧ a.profile.decodeSample sample = some entry := by
  have hget := congrArg (fun l => l[i]?) hr.decode
  simp only [AggregatedProfile.decode, List.getElem?_map, h, map_some] at hget
  obtain ⟨entry, hent, heq⟩ := map_eq_some_iff.1 hget.symm
  exact ⟨entry, hent, heq.symm⟩

/-- The sample of an entry. -/
theorem Represents.exists_sample (hr : Represents hash heap a contents entries)
    (h : entries[i]? = some entry) :
    ∃ sample, (heap.read a.profile.samples)[i]? = some sample ∧
      a.profile.decodeSample sample = some entry := by
  have hget := congrArg (fun l => l[i]?) hr.decode
  simp only [AggregatedProfile.decode, List.getElem?_map, h, map_some] at hget
  exact map_eq_some_iff.1 hget

variable {sample : Sample}

/-- The key that `Add` looks up. -/
def lookupKey (hash : Hashes) (a : Aggregator) (sample : Sample) : SampleKey :=
  ⟨(a.findStackID hash sample.userFrames).1, (a.findStackID hash sample.kernelFrames).1,
    (a.findLabelSetID hash sample.labels).1⟩

/-- All three parts of the key are known. -/
def Known (sample : Sample) (key : SampleKey) : Prop :=
  (key.userStack ≠ 0 ∨ sample.userFrames.isEmpty = true) ∧
    (key.kernelStack ≠ 0 ∨ sample.kernelFrames.isEmpty = true) ∧
      (key.labelSet ≠ 0 ∨ sample.labels.isEmpty = true)

theorem lookupKey_names (hd : Dictionaries hash a contents)
    (hknown : Known sample (lookupKey hash a sample)) :
    KeyNames contents a.profile.labelSets (lookupKey hash a sample) sample.identity :=
  ⟨(findStackID_spec hd _).names_of_known hknown.1,
    (findStackID_spec hd _).names_of_known hknown.2.1,
    (findLabelSetID_spec hd _).names_of_known hknown.2.2⟩

theorem Found.known_of_names {α : Type*} {entries : List (List α)} {id id' : Nat} {x : List α}
    (h : Found entries id x) (h' : Names entries id' x) : id ≠ 0 ∨ x.isEmpty = true := by
  by_cases hid : id = 0
  · refine .inr (isEmpty_iff.2 ?_)
    rcases h' with ⟨-, hemp⟩ | ⟨-, hget⟩
    · exact hemp
    · exact absurd (mem_of_getElem? hget) (h.fresh hid)
  · exact .inl hid

theorem known_of_names (hd : Dictionaries hash a contents)
    (h : KeyNames contents a.profile.labelSets key sample.identity) :
    Known sample (lookupKey hash a sample) :=
  ⟨(findStackID_spec hd _).known_of_names h.user, (findStackID_spec hd _).known_of_names h.kernel,
    (findLabelSetID_spec hd _).known_of_names h.labels⟩

theorem findSample_of_known (h : Known sample (lookupKey hash a sample)) :
    a.findSample sample (lookupKey hash a sample) = a.sampleIndexByKey (lookupKey hash a sample) :=
  if_pos h

/-- What is found is the sample of the identity. -/
theorem Represents.of_findSample (hr : Represents hash heap a contents entries)
    (h : a.findSample sample (lookupKey hash a sample) = some i) :
    ∃ old, (heap.read a.profile.samples)[i]? = some old ∧
      entries[i]? = some (sample.identity, old.value.toInt) := by
  by_cases hknown : Known sample (lookupKey hash a sample)
  · rw [findSample_of_known hknown] at h
    obtain ⟨old, hget, hkey⟩ := (hr.index _ i).1 h
    obtain ⟨entry, hent, hdec⟩ := hr.getElem? hget
    obtain ⟨hnames, hval⟩ := (decodeSample_eq_some hr.dictionaries).1 hdec
    rw [hkey] at hnames
    refine ⟨old, hget, hent.trans ?_⟩
    rw [hval, (lookupKey_names hr.dictionaries hknown).unique hnames]
  · have hnone : a.findSample sample (lookupKey hash a sample) = none := if_neg hknown
    simp [hnone] at h

/-- If nothing is found, the identity is new. -/
theorem Represents.of_findSample_none (hr : Represents hash heap a contents entries)
    (h : a.findSample sample (lookupKey hash a sample) = none) :
    sample.identity ∉ entries.map Prod.fst := by
  intro hmem
  obtain ⟨⟨identity, value⟩, hent, rfl⟩ := List.mem_map.1 hmem
  obtain ⟨i, hi⟩ := mem_iff_getElem?.1 hent
  obtain ⟨old, hget, hdec⟩ := hr.exists_sample hi
  obtain ⟨hnames, -⟩ := (decodeSample_eq_some hr.dictionaries).1 hdec
  have hknown := known_of_names hr.dictionaries hnames
  have hkey := (lookupKey_names hr.dictionaries hknown).inj hr.dictionaries hnames
  rw [findSample_of_known hknown, (hr.index _ i).2 ⟨old, hget, hkey.symm⟩] at h
  cases h

/-! ## Adding -/

/-- An identity that is there gets its value updated in place. -/
theorem Represents.write {old : AggregatedSample} {value : Int64} {amount : Int}
    (hr : Represents hash heap a contents entries)
    (hold : (heap.read a.profile.samples)[i]? = some old)
    (hent : entries[i]? = some (identity, old.value.toInt))
    (hval : value.toInt = old.value.toInt + amount) :
    Represents hash (heap.write a.profile.samples i { old with value := value }) a contents
      (Ledger.post entries identity amount) where
  dictionaries := hr.dictionaries
  valid := hr.valid.write
  decode := by
    obtain ⟨entry, hent', hdec⟩ := hr.getElem? hold
    rw [hent] at hent'
    cases hent'
    obtain ⟨hnames, -⟩ := (decodeSample_eq_some hr.dictionaries).1 hdec
    have hnew : a.profile.decodeSample { old with value := value } =
        some (identity, old.value.toInt + amount) :=
      (decodeSample_eq_some hr.dictionaries).2 ⟨hnames, hval⟩
    simp [Ledger.post_eq_set hr.nodup hent, ← hr.decode, ← hnew, AggregatedProfile.decode,
      Heap.read_write_self]
  nodup := Ledger.nodup_post hr.nodup
  index := by
    intro key j
    rw [hr.index, Heap.read_write_self, List.getElem?_set]
    by_cases hij : i = j
    · subst hij
      rw [if_pos rfl, if_pos (List.getElem?_eq_some_iff.1 hold).1, hold]
      constructor
      · rintro ⟨_, heq, rfl⟩
        cases heq
        exact ⟨_, rfl, rfl⟩
      · rintro ⟨_, heq, rfl⟩
        cases heq
        exact ⟨_, rfl, rfl⟩
    · rw [if_neg hij]

/-- A new identity gets a sample of its own. -/
theorem Represents.append (hr : Represents hash heap a contents entries) {a' : Aggregator}
    {contents' : List (List ProfileFrame)} {value : Int64} (hd' : Dictionaries hash a' contents')
    (hcon : contents <+: contents') (hgrows : Grows a a')
    (hkey : KeyNames contents' a'.profile.labelSets key identity)
    (hnew : identity ∉ entries.map Prod.fst) :
    let appended := heap.append a'.profile.samples
      { userStack := key.userStack, kernelStack := key.kernelStack, labelSet := key.labelSet,
        value := value }
    Represents hash appended.1
      { a' with
        sampleIndexByKey :=
          update a'.sampleIndexByKey key (some a'.profile.samples.len)
        profile := { a'.profile with samples := appended.2 } }
      contents' (Ledger.post entries identity value.toInt) := by
  rw [hgrows.samples, hgrows.sampleIndexByKey]
  have hold {sample : AggregatedSample} {entry : Identity × Int}
      (h : a.profile.decodeSample sample = some entry) :
      a'.profile.decodeSample sample = some entry :=
    decodeSample_mono hr.dictionaries hd' hcon hgrows h
  refine ⟨⟨hd'.frames, hd'.callStacks, hd'.stackIDs, hd'.labelSetIDs⟩,
    Heap.valid_append_self hr.valid, ?_, Ledger.nodup_post hr.nodup, ?_⟩
  · rw [Ledger.post_eq_append hnew, map_append, ← hr.decode, AggregatedProfile.decode,
      AggregatedProfile.decode, Heap.read_append_self, map_append]
    congr 1
    · refine map_congr_left fun sample hmem => ?_
      obtain ⟨i, hi⟩ := mem_iff_getElem?.1 hmem
      obtain ⟨entry, -, hdec⟩ := hr.getElem? hi
      rw [hdec]
      exact hold hdec
    · exact congrArg (fun entry => [entry]) ((decodeSample_eq_some hd').2 ⟨hkey, rfl⟩)
  · intro key' i
    simp only [Heap.read_append_self, Dictionary.getElem?_concat_eq_some, hr.valid.length_read]
    by_cases hkey' : key' = key
    · subst hkey'
      rw [update_self, Option.some.injEq]
      constructor
      · rintro rfl
        exact ⟨_, .inr ⟨rfl, rfl⟩, rfl⟩
      · rintro ⟨sample, hget | ⟨hi, -⟩, hsam⟩
        · -- a sample that had the key would have had the identity
          obtain ⟨entry, hent, hdec⟩ := hr.getElem? hget
          obtain ⟨hnames, -⟩ := (decodeSample_eq_some hd').1 (hold hdec)
          rw [hsam] at hnames
          exact absurd (mem_map_of_mem (mem_of_getElem? hent))
            (hkey.unique hnames ▸ hnew)
        · exact hi.symm
    · rw [update_of_ne hkey', hr.index]
      constructor
      · rintro ⟨sample, hget, hsam⟩
        exact ⟨sample, .inl hget, hsam⟩
      · rintro ⟨sample, hget | ⟨-, rfl⟩, hsam⟩
        · exact ⟨sample, hget, hsam⟩
        · exact absurd hsam.symm hkey'

end Samples

/-! ## `Add` -/

section Add

variable {hash : Hashes} {heap : Heap AggregatedSample} {a : Aggregator}
  {contents : List (List ProfileFrame)} {entries : List (Identity × Int)}

/-- What `Add` does to an identity that is not there. -/
def appended (hash : Hashes) (heap : Heap AggregatedSample) (a : Aggregator) (sample : Sample) :
    Heap AggregatedSample × Aggregator :=
  a.appendSample heap sample (a.findStackID hash sample.userFrames)
    (a.findStackID hash sample.kernelFrames) (a.findLabelSetID hash sample.labels)

/-- The ways a call can go. -/
theorem add_cases (hash : Hashes) (heap : Heap AggregatedSample) (a : Aggregator)
    (sample : Option Sample) :
    (∃ err, a.add hash heap sample = (.error err, heap, a)) ∨
    ∃ s, sample = some s ∧
      ((∃ i old value, a.findSample s (lookupKey hash a s) = some i ∧
          (heap.read a.profile.samples)[i]? = some old ∧ addValues old.value s.value = .ok value ∧
          a.add hash heap sample =
            (.ok (), heap.write a.profile.samples i { old with value := value }, a)) ∨
        a.findSample s (lookupKey hash a s) = none ∧
          a.add hash heap sample = (.ok (), appended hash heap a s)) := by
  cases sample with
  | none => exact .inl ⟨_, rfl⟩
  | some s =>
    cases hlab : validateLabels s.labels with
    | error err => exact .inl ⟨err, by simp only [add, hlab]⟩
    | ok =>
      cases hfind : a.findSample s (lookupKey hash a s) with
      | none =>
        refine .inr ⟨s, rfl, .inr ⟨hfind, ?_⟩⟩
        simp only [lookupKey] at hfind
        simp only [add, hlab, hfind, appended]
      | some i =>
        simp only [lookupKey] at hfind
        cases hget : (heap.read a.profile.samples)[i]? with
        | none => exact .inl ⟨_, by simp only [add, hlab, hfind, hget]; rfl⟩
        | some old =>
          cases hval : addValues old.value s.value with
          | error err => exact .inl ⟨err, by simp only [add, hlab, hfind, hget, hval]⟩
          | ok value =>
            refine .inr ⟨s, rfl, .inl ⟨i, old, value, hfind, hget, hval, ?_⟩⟩
            simp only [add, hlab, hfind, hget, hval]

variable {sample : Option Sample}

/-- A call that fails changes nothing. -/
theorem add_error {err : String} (h : (a.add hash heap sample).1 = .error err) :
    (a.add hash heap sample).2 = (heap, a) := by
  rcases add_cases hash heap a sample with
    ⟨err', hadd⟩ | ⟨s, -, ⟨i, old, value, -, -, -, hadd⟩ | ⟨-, hadd⟩⟩
  · rw [hadd]
  · simp [hadd] at h
  · simp [hadd] at h

theorem small_of_appended {sample : Sample} (h : (appended hash heap a sample).2.profile.Small) :
    (a.insertEntries sample (a.findStackID hash sample.userFrames)
      (a.findStackID hash sample.kernelFrames)
      (a.findLabelSetID hash sample.labels)).2.profile.Small :=
  ⟨h.frames, h.callStacks, h.labelSets⟩

theorem small_of_add (h : (a.add hash heap sample).2.2.profile.Small) : a.profile.Small := by
  rcases add_cases hash heap a sample with
    ⟨err', hadd⟩ | ⟨s, -, ⟨i, old, value, -, -, -, hadd⟩ | ⟨-, hadd⟩⟩
  · rwa [hadd] at h
  · rwa [hadd] at h
  · rw [hadd] at h
    exact (grows_insertEntries _ _ _).small (small_of_appended h)

/-- `Add` books the value of a sample on its identity. -/
theorem Represents.add (hr : Represents hash heap a contents entries)
    (h : (a.add hash heap sample).1 = .ok ()) (hsm : (a.add hash heap sample).2.2.profile.Small) :
    ∃ s contents', sample = some s ∧
      Represents hash (a.add hash heap sample).2.1 (a.add hash heap sample).2.2 contents'
        (Ledger.post entries s.identity s.value.toInt) := by
  rcases add_cases hash heap a sample with
    ⟨err, hadd⟩ | ⟨s, rfl, ⟨i, old, value, hfind, hget, hval, hadd⟩ | ⟨hfind, hadd⟩⟩
  · simp [hadd] at h
  · obtain ⟨old', hget', hent⟩ := hr.of_findSample hfind
    rw [hget] at hget'
    cases hget'
    rw [hadd]
    exact ⟨s, contents, rfl, hr.write hget hent (addValues_eq_ok.1 hval)⟩
  · rw [hadd] at hsm ⊢
    obtain ⟨contents', hcon, hd', hkey⟩ :=
      insertEntries_spec hr.dictionaries (small_of_appended hsm)
    exact ⟨s, contents', rfl,
      hr.append hd' hcon (grows_insertEntries _ _ _) hkey (hr.of_findSample_none hfind)⟩

/-- `Add` accepts a sample whose labels are valid and whose value fits. -/
theorem Represents.add_ok (hr : Represents hash heap a contents entries) {sample : Sample}
    (hlab : validateLabels sample.labels = .ok ()) {value : Int64}
    (hval : value.toInt = Ledger.total entries sample.identity + sample.value.toInt) :
    (a.add hash heap (some sample)).1 = .ok () := by
  cases hfind : a.findSample sample (lookupKey hash a sample) with
  | none =>
    simp only [lookupKey] at hfind
    simp only [Aggregator.add, hlab, hfind]
  | some i =>
    obtain ⟨old, hget, hent⟩ := hr.of_findSample hfind
    rw [Ledger.total_eq_of_mem hr.nodup (mem_of_getElem? hent)] at hval
    simp only [lookupKey] at hfind
    simp only [Aggregator.add, hlab, hfind, hget, addValues_eq_ok.2 hval]

theorem represents_new : Represents hash heap {} [] [] where
  dictionaries := ⟨fun _ _ => ⟨nofun, nofun⟩, rfl, Dictionary.indexed_nil, Dictionary.indexed_nil⟩
  valid := Heap.valid_nil
  decode := by
    rw [AggregatedProfile.decode, Heap.read_nil]
    rfl
  nodup := nodup_nil
  index := by
    intro key i
    rw [Heap.read_nil]
    exact ⟨nofun, nofun⟩

end Add

/-! ## Runs -/

/-- The samples that `Add` accepts, and the state after all of them. -/
def feed (hash : Hashes) (heap : Heap AggregatedSample) (a : Aggregator) :
    List (Option Sample) → List Sample × Heap AggregatedSample × Aggregator
  | [] => ([], heap, a)
  | sample :: rest =>
    let added := a.add hash heap sample
    let fed := feed hash added.2.1 added.2.2 rest
    match added.1 with
    | .error _ => fed
    | .ok () => (sample.toList ++ fed.1, fed.2)

section Feed

variable {hash : Hashes} {heap : Heap AggregatedSample} {a : Aggregator}
  {contents : List (List ProfileFrame)} {entries : List (Identity × Int)} {sample : Option Sample}

theorem feed_error {err : String} (h : (a.add hash heap sample).1 = .error err)
    (rest : List (Option Sample)) : a.feed hash heap (sample :: rest) = a.feed hash heap rest := by
  rw [feed, h, add_error h]

theorem feed_ok (h : (a.add hash heap sample).1 = .ok ()) (rest : List (Option Sample)) :
    a.feed hash heap (sample :: rest) =
      (sample.toList ++
        ((a.add hash heap sample).2.2.feed hash (a.add hash heap sample).2.1 rest).1,
        ((a.add hash heap sample).2.2.feed hash (a.add hash heap sample).2.1 rest).2) := by
  rw [feed, h]

variable {samples : List (Option Sample)}

theorem small_of_feed (h : (a.feed hash heap samples).2.2.profile.Small) : a.profile.Small := by
  induction samples generalizing heap a with
  | nil => exact h
  | cons sample rest ih =>
    cases hadd : (a.add hash heap sample).1 with
    | error err =>
      rw [feed_error hadd] at h
      exact ih h
    | ok =>
      rw [feed_ok hadd] at h
      exact small_of_add (ih h)

/-- The entries after a run are the ledger of what was booked before it and of the accepted
samples. -/
theorem Represents.feed (hr : Represents hash heap a contents entries)
    (hsm : (a.feed hash heap samples).2.2.profile.Small) :
    ∃ contents', Represents hash (a.feed hash heap samples).2.1 (a.feed hash heap samples).2.2
      contents' (Ledger.postAll entries ((a.feed hash heap samples).1.map Sample.booking)) := by
  induction samples generalizing heap a contents entries with
  | nil => exact ⟨contents, hr⟩
  | cons sample rest ih =>
    cases hadd : (a.add hash heap sample).1 with
    | error err =>
      rw [feed_error hadd] at hsm ⊢
      exact ih hr hsm
    | ok =>
      rw [feed_ok hadd] at hsm ⊢
      obtain ⟨s, contents', rfl, hr'⟩ := hr.add hadd (small_of_feed hsm)
      exact ih hr' hsm

/-- What was rejected left no trace. -/
theorem feed_accepted (samples : List (Option Sample)) :
    a.feed hash heap ((a.feed hash heap samples).1.map some) = a.feed hash heap samples := by
  induction samples generalizing heap a with
  | nil => rfl
  | cons sample rest ih =>
    cases hadd : (a.add hash heap sample).1 with
    | error err =>
      simp [feed_error hadd, ih]
    | ok =>
      cases sample with
      | none => cases hadd
      | some s =>
        simp [feed_ok hadd, ih]

end Feed

/-! ## Profiles -/

/-- No dictionary holds anything twice or anything empty, and no ID leads out of one. -/
structure WellFormed (heap : Heap AggregatedSample) (profile : AggregatedProfile) : Prop where
  frames : profile.frames.Nodup
  callStacks : (profile.callStacks.map profile.resolve).Nodup
  stacks_nonempty : [] ∉ profile.callStacks
  labelSets : profile.labelSets.Nodup
  labelSets_nonempty : [] ∉ profile.labelSets
  frameIDs : ∀ stack ∈ profile.callStacks, ∀ id ∈ stack, id < profile.frames.length
  sampleIDs : ∀ sample ∈ heap.read profile.samples, sample.userStack ≤ profile.callStacks.length ∧
    sample.kernelStack ≤ profile.callStacks.length ∧ sample.labelSet ≤ profile.labelSets.length

theorem Represents.wellFormed {hash : Hashes} {heap : Heap AggregatedSample}
    {contents : List (List ProfileFrame)} {entries : List (Identity × Int)}
    (hr : Represents hash heap a contents entries) : WellFormed heap a.profile where
  frames := hr.dictionaries.frames.nodup
  callStacks := by
    rw [hr.dictionaries.callStacks]
    exact hr.dictionaries.stackIDs.nodup.map fun _ _ => Option.some.inj
  stacks_nonempty := by
    intro hmem
    obtain ⟨frames, hfrs, hres⟩ := hr.dictionaries.resolve hmem
    cases hres
    exact hr.dictionaries.stackIDs.nonempty hfrs
  labelSets := hr.dictionaries.labelSetIDs.nodup
  labelSets_nonempty := hr.dictionaries.labelSetIDs.nonempty
  frameIDs := by
    intro stack hmem
    obtain ⟨frames, -, hres⟩ := hr.dictionaries.resolve hmem
    exact lt_of_resolve hres
  sampleIDs := by
    intro sample hmem
    obtain ⟨i, hi⟩ := mem_iff_getElem?.1 hmem
    obtain ⟨entry, -, hdec⟩ := hr.getElem? hi
    obtain ⟨hnames, -⟩ := (decodeSample_eq_some hr.dictionaries).1 hdec
    rw [hr.dictionaries.length]
    exact ⟨hnames.user.le_length, hnames.kernel.le_length, hnames.labels.le_length⟩

/-- The sum of the values of the samples with an identity. -/
def sumOf (samples : List Sample) (identity : Identity) : Int :=
  ((samples.filter fun sample => sample.identity = identity).map fun sample =>
    sample.value.toInt).sum

theorem total_booking (samples : List Sample) (identity : Identity) :
    Ledger.total (samples.map Sample.booking) identity = sumOf samples identity := by
  rw [Ledger.total, sumOf, List.filter_map, List.map_map]
  rfl

/-- **Aggregation.** Whatever the hash functions, the profile of an aggregator that was fed from the
start decodes to one entry for each identity among the samples that `Add` accepted, with the sum of
their values, and it is well formed. Samples that were rejected have left no trace, and a sample is
rejected only if its labels are invalid or the sum leaves the range of `int64`. -/
theorem aggregated (hash : Hashes) (heap₀ : Heap AggregatedSample) (samples : List (Option Sample))
    (hsmall : (feed hash heap₀ {} samples).2.2.profile.Small) :
    let accepted := (feed hash heap₀ {} samples).1
    let heap := (feed hash heap₀ {} samples).2.1
    let profile := (feed hash heap₀ {} samples).2.2.profile
    (∃ entries : List (Identity × Int), profile.decode heap = entries.map some ∧
      (entries.map Prod.fst).Nodup ∧
      (∀ identity, identity ∈ entries.map Prod.fst ↔
        ∃ sample ∈ accepted, sample.identity = identity) ∧
      ∀ identity value, (identity, value) ∈ entries → value = sumOf accepted identity) ∧
    WellFormed heap profile ∧
    feed hash heap₀ {} (accepted.map some) = feed hash heap₀ {} samples ∧
    (∀ heap a sample err, (add hash heap a sample).1 = .error err →
      (add hash heap a sample).2 = (heap, a)) ∧
    ∀ sample (value : Int64), validateLabels sample.labels = .ok () →
      value.toInt = sumOf accepted sample.identity + sample.value.toInt →
      (add hash heap (feed hash heap₀ {} samples).2.2 (some sample)).1 = .ok () := by
  obtain ⟨contents, hr⟩ := represents_new.feed hsmall
  have htotal (identity : Identity) := (Ledger.total_replay ((feed hash heap₀ {} samples).1.map
    Sample.booking) identity).trans (total_booking _ identity)
  refine ⟨⟨_, hr.decode, hr.nodup, fun identity => ?_, fun identity value hmem => ?_⟩,
    hr.wellFormed, feed_accepted samples, fun _ _ _ _ => add_error,
    fun sample value hlabels hvalue => hr.add_ok hlabels (hvalue.trans ?_)⟩
  · refine Ledger.mem_keys_replay.trans ?_
    rw [List.map_map, List.mem_map]
    rfl
  · rw [← htotal, ← Ledger.total_eq_of_mem hr.nodup hmem]
    rfl
  · rw [← htotal]
    rfl

/-- Hash functions that collide on everything. -/
def collidingHashes : Hashes := ⟨fun _ => 0, fun _ => 0⟩

def sampleHeap : Heap AggregatedSample := .empty fun _ => 1

/-- Samples that share a stack between their user and their kernel side. -/
def sampleInput : List (Option Sample) :=
  [some { userFrames := [{ name := "f" }], kernelFrames := [{ name := "f" }], value := 2 },
    some { userFrames := [{ name := "g" }, { name := "f" }], value := 3 }, none,
    some { userFrames := [{ name := "f" }], kernelFrames := [{ name := "f" }], value := 5 }]

theorem aggregated_collisions :
    (feed collidingHashes sampleHeap {} sampleInput).1.length = 3 ∧
    (feed collidingHashes sampleHeap {} sampleInput).2.2.profile.Small ∧
    ∃ entries : List (Identity × Int),
      (feed collidingHashes sampleHeap {} sampleInput).2.2.profile.decode
        (feed collidingHashes sampleHeap {} sampleInput).2.1 = entries.map some ∧
      (entries.map Prod.fst).Nodup := by
  have hsmall : (feed collidingHashes sampleHeap {} sampleInput).2.2.profile.Small :=
    ⟨by decide, by decide, by decide⟩
  obtain ⟨⟨entries, hdecode, hnodup, -⟩, -⟩ :=
    aggregated collidingHashes sampleHeap sampleInput hsmall
  exact ⟨by decide, hsmall, entries, hdecode, hnodup⟩

end Aggregator

end Huatuo.Profiling
