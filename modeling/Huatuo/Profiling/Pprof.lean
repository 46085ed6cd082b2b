import Mathlib.Algebra.Ring.Nat
import Huatuo.Lib.Interning
import Huatuo.Profiling.Pipeline

/-!
# Profiles for pprof

`Validate` and `BuildProfile` of `internal/profiling/window`. A window refers to frames, stacks and
label sets by number; a profile refers to strings, functions and locations, which are numbered when
they are first used. A frame that is used both in user and in kernel stacks has two locations.

`strings.table` is `StringTable` of the profile that is built. `ctx` says what `ctx.Err()` returns,
the `n`th time it is called. Indexing out of range is an error. Lengths of slices do not overflow.
-/

namespace Huatuo.Pprof

open Profiling (AggregatedProfile AggregatedSample ProfileFrame ProfileLabel
  dropReasonCollection labelsOf
  validateLabels)

/-! ## Windows -/

/-- `types.AggregationWindow`, as far as it is read here. -/
structure Window where
  profileType : String
  /-- a map, by reason -/
  droppedSamples : List (String × UInt64) := []
  aggregated : AggregatedProfile

def metadata (profileType : String) : Except String (List String) :=
  let parts := (profileType.toList.splitOn ':').map String.ofList
  if parts.length ≠ 5 ∨ "" ∈ parts then .error ("invalid profile type: " ++ profileType.quote)
  else .ok parts

/-- The first error of a loop over a slice. -/
def checkAll {α : Type} (check : Nat → α → Except String Unit) (i : Nat) :
    List α → Except String Unit
  | [] => .ok ()
  | x :: rest =>
    match check i x with
    | .error err => .error err
    | .ok () => checkAll check (i + 1) rest

variable (a : AggregatedProfile)

def checkStack (i : Nat) (stack : List Nat) : Except String Unit :=
  if stack.isEmpty then .error ("profiling stack " ++ toString (i + 1) ++ " is empty; use id zero")
  else
    match stack.find? fun id => a.frames.length ≤ id with
    | some id =>
      .error ("profiling stack " ++ toString (i + 1) ++ " references missing frame " ++ toString id)
    | none => .ok ()

def checkLabelSet (i : Nat) (labels : List ProfileLabel) : Except String Unit :=
  if labels.isEmpty then
    .error ("profiling label set " ++ toString (i + 1) ++ " is empty; use id zero")
  else
    match validateLabels labels with
    | .error err => .error ("profiling label set " ++ toString (i + 1) ++ ": " ++ err)
    | .ok () => .ok ()

def checkSample (i : Nat) (s : AggregatedSample) : Except String Unit :=
  if a.callStacks.length < s.userStack ∨ a.callStacks.length < s.kernelStack ∨
      a.labelSets.length < s.labelSet then
    .error ("profiling sample " ++ toString i ++ " references a missing dictionary entry")
  else .ok ()

def dropReasonAggregationQueue : String := "aggregation_queue"

def maxUint32 : Nat := 2 ^ 32 - 1

/-- `Validate`. -/
def validate (heap : Heap AggregatedSample) : Option Window → Except String Unit
  | none => .error "profiling aggregation window is required"
  | some w =>
    match metadata w.profileType with
    | .error err => .error err
    | .ok _ =>
      let a := w.aggregated
      if a.timeNanos ≤ 0 ∨ a.durationNanos < 0 then
        .error "profiling window requires a positive timestamp and nonnegative duration"
      else if maxUint32 < a.frames.length ∨ maxUint32 < a.callStacks.length ∨
          maxUint32 < a.labelSets.length then
        .error "profiling dictionary exceeds uint32 capacity"
      else
        match w.droppedSamples.find? fun entry =>
            entry.1 ≠ dropReasonCollection ∧ entry.1 ≠ dropReasonAggregationQueue with
        | some (reason, _) => .error ("unsupported profiling drop reason " ++ reason.quote)
        | none =>
          match checkAll (checkStack a) 0 a.callStacks with
          | .error err => .error err
          | .ok () =>
            match checkAll checkLabelSet 0 a.labelSets with
            | .error err => .error err
            | .ok () => checkAll (checkSample a) 0 (heap.read a.samples)

/-! ## The format -/

structure ValueType where
  type : Nat
  unit : Nat
  deriving DecidableEq

structure Label where
  key : Nat
  str : Nat := 0
  num : Int := 0
  numUnit : Nat := 0
  deriving DecidableEq

structure Sample where
  locationId : List Nat
  value : List Int64
  label : List Label
  deriving DecidableEq

structure Line where
  functionId : Nat
  line : Int
  deriving DecidableEq

structure Location where
  id : Nat
  line : List Line
  deriving DecidableEq

structure Function where
  id : Nat
  name : Nat
  systemName : Nat
  filename : Nat
  deriving DecidableEq

structure Profile where
  sampleType : List ValueType
  sample : List Sample
  location : List Location
  function : List Function
  stringTable : List String
  timeNanos : Int
  durationNanos : Int
  deriving DecidableEq

/-! ## Building -/

structure LocationKey where
  frameID : Nat
  isKernel : Bool
  deriving DecidableEq

/-- The strings of every profile. -/
def newStrings : Interner String where
  table := [""]
  index := fun s => if s = "" then some 0 else none

structure Builder where
  strings : Interner String := newStrings
  locations : LocationKey → Nat := fun _ => 0
  /-- the index of an empty string other than 0, once there is one -/
  emptyLabelString : Nat := 0
  sample : List Sample := []
  location : List Location := []
  function : List Function := []

def outOfRange : String := "index out of range"

/-- The name of a location. -/
def LocationKey.name (key : LocationKey) (f : ProfileFrame) : String :=
  if key.isKernel then f.name ++ "_[k]" else f.name

/-- A new location, with its function. -/
def addLocation (b : Builder) (key : LocationKey) (f : ProfileFrame) : Builder :=
  let id := b.location.length + 1
  let name := b.strings.intern (key.name f)
  let systemName := name.2.intern (key.name f)
  let filename := systemName.2.intern f.file
  { b with
    strings := filename.2
    locations := Function.update b.locations key id
    function :=
      b.function ++ [{ id, name := name.1, systemName := systemName.1, filename := filename.1 }]
    location := b.location ++ [{ id, line := [{ functionId := id, line := f.line }] }] }

/-- The ID of a location, which is made if there is none. -/
def locate (b : Builder) (key : LocationKey) : Except String (Nat × Builder) :=
  if b.locations key ≠ 0 then .ok (b.locations key, b)
  else
    match a.frames[key.frameID]? with
    | none => .error outOfRange
    | some f => .ok (b.location.length + 1, addLocation b key f)

/-- Appends the locations of keys. -/
def locateAll (acc : List Nat × Builder) (keys : List LocationKey) :
    Except String (List Nat × Builder) :=
  keys.foldlM (fun acc key => (locate a acc.2 key).map fun located =>
    (acc.1 ++ [located.1], located.2)) acc

/-- Appends the locations of a stack, from its last frame to its first. -/
def addStack (isKernel : Bool) (stackID : Nat) (acc : List Nat × Builder) :
    Except String (List Nat × Builder) :=
  if stackID = 0 then .ok acc
  else
    match a.callStacks[stackID - 1]? with
    | none => .error outOfRange
    | some stack => locateAll a acc (stack.reverse.map fun frameID => { frameID, isKernel })

/-- The index of an empty string that is not taken for no string. -/
def emptyString (b : Builder) : Nat × Builder :=
  if b.emptyLabelString = 0 then
    let pushed := b.strings.push ""
    (pushed.1, { b with strings := pushed.2, emptyLabelString := pushed.1 })
  else (b.emptyLabelString, b)

def addLabel (b : Builder) (label : ProfileLabel) : Label × Builder :=
  let key := b.strings.intern label.name
  if label.kind = .string then
    let str := key.2.intern label.stringValue
    let b := { b with strings := str.2 }
    if str.1 = 0 then
      let str := emptyString b
      ({ key := key.1, str := str.1 }, str.2)
    else ({ key := key.1, str := str.1 }, b)
  else
    let numUnit := key.2.intern label.numberUnit
    ({ key := key.1, num := label.numberValue, numUnit := numUnit.1 },
      { b with strings := numUnit.2 })

def addLabels (acc : List Label × Builder) (labels : List ProfileLabel) : List Label × Builder :=
  labels.foldl (fun acc label =>
    let added := addLabel acc.2 label
    (acc.1 ++ [added.1], added.2)) acc

/-- One turn of the loop over samples. -/
def addSample (b : Builder) (s : AggregatedSample) : Except String Builder :=
  match addStack a true s.kernelStack ([], b) with
  | .error err => .error err
  | .ok kernel =>
    match addStack a false s.userStack kernel with
    | .error err => .error err
    | .ok user =>
      match labelsOf a s with
      | none => .error outOfRange
      | some labels =>
        let added := addLabels ([], user.2) labels
        .ok { added.2 with
          sample := added.2.sample ++
            [{ locationId := user.1, value := [s.value], label := added.1 }] }

/-- The loop over samples, from sample `i` on. -/
def addSamples (ctx : Nat → Option String) (a : AggregatedProfile) (i : Nat) (b : Builder) :
    List AggregatedSample → Except String Builder
  | [] => .ok b
  | s :: rest =>
    match ctx (i + 1) with
    | some err => .error err
    | none =>
      match addSample a b s with
      | .error err => .error err
      | .ok b => addSamples ctx a (i + 1) b rest

def Builder.profile (b : Builder) (a : AggregatedProfile) (sampleType : ValueType) : Profile where
  sampleType := [sampleType]
  sample := b.sample
  location := b.location
  function := b.function
  stringTable := b.strings.table
  timeNanos := a.timeNanos
  durationNanos := a.durationNanos

/-- `BuildProfile`. -/
def buildProfile (ctx : Nat → Option String) (heap : Heap AggregatedSample) (w : Window) :
    Except String Profile :=
  match ctx 0 with
  | some err => .error err
  | none =>
    match metadata w.profileType with
    | .error err => .error err
    | .ok parts =>
      match parts[1]?, parts[2]? with
      | some type, some unit =>
        let type := newStrings.intern type
        let unit := type.2.intern unit
        match addSamples ctx w.aggregated 0 { strings := unit.2 }
          (heap.read w.aggregated.samples) with
        | .error err => .error err
        | .ok b => .ok (b.profile w.aggregated { type := type.1, unit := unit.1 })
      | _, _ => .error outOfRange

/-! ## Reading -/

/-- The frame of a location. -/
def Profile.decodeLocation (p : Profile) (id : Nat) : Option ProfileFrame := do
  let location ← p.location.find? fun location => location.id = id
  match location.line with
  | [line] =>
    let function ← p.function.find? fun function => function.id = line.functionId
    let name ← p.stringTable[function.name]?
    let file ← p.stringTable[function.filename]?
    return { name, file, line := line.line }
  | _ => none

/-- A label is a number unless it has a string. -/
def decodeLabel (stringTable : List String) (label : Label) : Option ProfileLabel := do
  let name ← stringTable[label.key]?
  if label.str ≠ 0 then
    let stringValue ← stringTable[label.str]?
    return { name, kind := .string, stringValue }
  else
    let numberUnit ← stringTable[label.numUnit]?
    return { name, kind := .number, numberValue := label.num, numberUnit }

/-- Every use of a string. -/
def Profile.stringIndices (p : Profile) : List Nat :=
  p.sampleType.flatMap (fun valueType => [valueType.type, valueType.unit]) ++
    p.function.flatMap (fun function => [function.name, function.systemName, function.filename]) ++
    p.sample.flatMap fun sample => sample.label.flatMap fun label =>
      [label.key, label.str, label.numUnit]

structure Profile.WellFormed (p : Profile) : Prop where
  empty : p.stringTable[0]? = some ""
  strings : ∀ index ∈ p.stringIndices, index < p.stringTable.length
  locations : ∀ (i : Nat) (location : Location), p.location[i]? = some location →
    ∃ line, location = ⟨i + 1, [⟨i + 1, line⟩]⟩
  functions : p.function.length = p.location.length ∧
    ∀ (i : Nat) (function : Function), p.function[i]? = some function → function.id = i + 1

/-- The keys of a stack, from its last frame to its first. -/
def stackKeys (isKernel : Bool) (stackID : Nat) : List LocationKey :=
  if stackID = 0 then []
  else ((a.callStacks[stackID - 1]?).getD []).reverse.map fun frameID => { frameID, isKernel }

def sampleKeys (s : AggregatedSample) : List LocationKey :=
  stackKeys a true s.kernelStack ++ stackKeys a false s.userStack

/-- A frame of the kernel, as a profile shows it. -/
def kernelFrame (f : ProfileFrame) : ProfileFrame := { f with name := f.name ++ "_[k]" }

/-- The sample of a profile says what the sample of the window says. -/
structure Profile.Shows (p : Profile) (a : AggregatedProfile) (s : AggregatedSample)
    (shown : Sample) :
    Prop where
  value : shown.value = [s.value]
  frames : ∃ kernel user,
    a.stackFrames s.kernelStack = some kernel ∧ a.stackFrames s.userStack = some user ∧
    shown.locationId.mapM p.decodeLocation = some (kernel.reverse.map kernelFrame ++ user.reverse)
  labels : ∃ labels, labelsOf a s = some labels ∧
    shown.label.mapM (decodeLabel p.stringTable) = some labels ∧
    List.Forall₂ (fun label shown => label.kind = .string → shown.str ≠ 0) labels shown.label

end Huatuo.Pprof
