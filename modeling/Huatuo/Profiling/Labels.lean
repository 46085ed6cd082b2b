import Mathlib.Algebra.Ring.Nat
import Mathlib.Data.List.Sort

/-!
# Frames and labels of profiling samples

`pkg/types/profiling.go` and `profiling_labels.go`. Labels come in canonical order, each at most
once, and the labels that Huatuo itself makes have to be in canonical form.
-/

namespace Huatuo.Profiling

structure ProfileFrame where
  name : String
  file : String := ""
  line : Int := 0
  deriving DecidableEq, Repr

inductive ProfileLabelKind where
  | unknown
  | string
  | number
  | unsupported (raw : Nat)
  deriving DecidableEq, Repr

def ProfileLabelKind.raw : ProfileLabelKind → Nat
  | .unknown => 0
  | .string => 1
  | .number => 2
  | .unsupported raw => raw

structure ProfileLabel where
  name : String
  kind : ProfileLabelKind
  stringValue : String := ""
  numberValue : Int := 0
  numberUnit : String := ""
  deriving DecidableEq, Repr

def profileStringLabel (name value : String) : ProfileLabel where
  name := name
  kind := .string
  stringValue := value

def profilePIDLabel (pid : UInt32) : ProfileLabel := profileStringLabel "pid" (toString pid.toNat)
def profileCPULabel (cpu : UInt32) : ProfileLabel := profileStringLabel "cpu" (toString cpu.toNat)

def compareProfileLabels (a b : ProfileLabel) : Ordering :=
  (compare a.name b.name).then <|
  (compare a.kind.raw b.kind.raw).then <|
  (compare a.stringValue b.stringValue).then <|
  (compare a.numberValue b.numberValue).then <|
  compare a.numberUnit b.numberUnit

/-! ## Numbers as text -/

/-- The value of a digit, upper or lower case, in a base up to 36. -/
def digitValue (c : Char) : Option Nat :=
  if '0' ≤ c ∧ c ≤ '9' then some (c.toNat - '0'.toNat)
  else if 'a' ≤ c ∧ c ≤ 'z' then some (c.toNat - 'a'.toNat + 10)
  else if 'A' ≤ c ∧ c ≤ 'Z' then some (c.toNat - 'A'.toNat + 10)
  else none

/-- `strconv.ParseUint`, for a base other than 0. -/
def parseUint (digits : List Char) (base bitSize : Nat) : Option Nat :=
  if digits.isEmpty then none
  else
    (digits.foldlM (fun n c => (digitValue c).bind fun d =>
      if d < base then some (n * base + d) else none) 0).bind fun n =>
        if n < 2 ^ bitSize then some n else none

/-- Whether the text is the one `strconv.AppendUint` makes of a number with `bitSize` bits. -/
def isCanonicalUint (digits : List Char) (base bitSize : Nat) : Bool :=
  match parseUint digits base bitSize with
  | none => false
  | some n => Nat.toDigits base n == digits

/-! ## Validation -/

def singleProfileLabel (name : String) : Bool :=
  name == "pid" || name == "cpu" || name == "comm" || name == "lock_address" || name == "irq" ||
    name == "softirq_vector" || name == "offcpu_category"

/-- The end of `validateProfileLabel`: the values of the built-in labels. -/
def validateBuiltinValue (name value : String) : Except String Unit :=
  if name = "pid" ∨ name = "cpu" ∨ name = "softirq_vector" then
    if isCanonicalUint value.toList 10 32 then .ok ()
    else
      .error ("label " ++ name.quote ++ " requires a canonical unsigned decimal: " ++ value.quote)
  else if name = "lock_address" then
    if value.toList.length < 3 ∨ value.toList.take 2 ≠ ['0', 'x'] then
      .error ("lock_address requires canonical 0x-prefixed hexadecimal: " ++ value.quote)
    else if isCanonicalUint (value.toList.drop 2) 16 64 then .ok ()
    else .error ("lock_address requires canonical hexadecimal: " ++ value.quote)
  else if name = "irq" then
    if value ≠ "source" ∧ value ≠ "victim" then
      .error ("irq requires source or victim: " ++ value.quote)
    else .ok ()
  else if name = "offcpu_category" then
    if value = "" then .error "offcpu_category must not be empty" else .ok ()
  else .ok ()

/-- The switch of `validateProfileLabel` on the kind. -/
def validateKind (label : ProfileLabel) : Except String Unit :=
  match label.kind with
  | .string =>
    if label.numberValue ≠ 0 ∨ label.numberUnit ≠ "" then
      .error ("string label " ++ label.name.quote ++ " contains numeric fields")
    else .ok ()
  | .number =>
    if label.stringValue ≠ "" then
      .error ("numeric label " ++ label.name.quote ++ " contains a string value")
    else .ok ()
  | kind =>
    .error ("profiling label " ++ label.name.quote ++ " has invalid kind " ++ toString kind.raw)

def validateProfileLabel (label : ProfileLabel) : Except String Unit :=
  if label.name = "" then .error "profiling label name is required"
  else
    match validateKind label with
    | .error err => .error err
    | .ok () =>
      if ¬ singleProfileLabel label.name then .ok ()
      else if label.kind ≠ .string then
        .error ("built-in label " ++ label.name.quote ++ " requires a string")
      else validateBuiltinValue label.name label.stringValue

/-- The loop of `ValidateLabels`, from the label after `previous` on. -/
def validateLabelsAfter (previous : Option ProfileLabel) : List ProfileLabel → Except String Unit
  | [] => .ok ()
  | label :: rest =>
    match validateProfileLabel label with
    | .error err => .error err
    | .ok () =>
      match previous with
      | none => validateLabelsAfter (some label) rest
      | some previous =>
        if compareProfileLabels previous label ≠ .lt then
          .error ("profiling labels must be strictly sorted and deduplicated: " ++
            label.name.quote)
        else if previous.name = label.name ∧ singleProfileLabel label.name then
          .error ("profiling label " ++ label.name.quote ++ " permits only one value")
        else validateLabelsAfter (some label) rest

def validateLabels (labels : List ProfileLabel) : Except String Unit :=
  validateLabelsAfter none labels

/-- `slices.Compact`: one of each run of equal labels. -/
def compactLabels : List ProfileLabel → List ProfileLabel
  | [] => []
  | [label] => [label]
  | label :: next :: rest =>
    if label = next then compactLabels (next :: rest) else label :: compactLabels (next :: rest)

def normalizeLabels (labels : List ProfileLabel) : Except String (List ProfileLabel) :=
  let sorted := compactLabels
    (labels.insertionSort fun a b => compareProfileLabels a b != .gt)
  match validateLabels sorted with
  | .error err => .error err
  | .ok () => .ok sorted

end Huatuo.Profiling
