import Huatuo.Time

/-!
# Job parameters

What a Job asks a Node to do, and when that is a supported request: `pkg/observation`,
`pkg/profiling` and `pkg/tracing`, with `Spec` of `internal/job`, the union of the two services'
parameters.
-/

namespace Huatuo

/-! ## Observation scopes -/

namespace Observation

inductive Scope where
  | host
  | container
  | unsupported (raw : String)
  deriving DecidableEq, Repr

def Scope.raw : Scope → String
  | .host => "host"
  | .container => "container"
  | .unsupported raw => raw

def validateScope (scope : Scope) (containerID : String) : Except String Unit :=
  match scope with
  | .host =>
    if containerID ≠ "" then .error "container id must be empty for host scope" else .ok ()
  | .container =>
    if containerID = "" then .error "container id is required for container scope" else .ok ()
  | .unsupported raw => .error ("unsupported observation scope " ++ raw.quote)

end Observation

/-! ## Profiling -/

namespace Profiling

open Observation (Scope)

inductive ProfilingType where
  | cpu
  | memory
  | lock
  | unsupported (raw : String)
  deriving DecidableEq, Repr

inductive Language where
  | c
  | cpp
  | go
  | java
  | python
  | unsupported (raw : String)
  deriving DecidableEq, Repr

inductive Mode where
  | objectAlloc
  | objectUsage
  | virtualAlloc
  | physicalAlloc
  | physicalUsage
  | onCPU
  | offCPU
  | unsupported (raw : String)
  deriving DecidableEq, Repr

def ProfilingType.raw : ProfilingType → String
  | .cpu => "cpu"
  | .memory => "memory"
  | .lock => "lock"
  | .unsupported raw => raw

def Language.raw : Language → String
  | .c => "c"
  | .cpp => "c++"
  | .go => "go"
  | .java => "java"
  | .python => "python"
  | .unsupported raw => raw

def Mode.raw : Mode → String
  | .objectAlloc => "object_alloc"
  | .objectUsage => "object_usage"
  | .virtualAlloc => "virtual_alloc"
  | .physicalAlloc => "physical_alloc"
  | .physicalUsage => "physical_usage"
  | .onCPU => "oncpu"
  | .offCPU => "offcpu"
  | .unsupported raw => raw

/-- A supported combination of type and language. -/
structure Capability where
  type : ProfilingType
  language : Language
  modes : List Mode
  supportsBinaryMatch : Bool := false
  supportedScopes : List Scope
  deriving DecidableEq, Repr

def newNativeCapability (language : Language) (type : ProfilingType) : Capability where
  type := type
  language := language
  modes :=
    if type = .memory then [.virtualAlloc, .physicalAlloc, .physicalUsage] else [.onCPU, .offCPU]
  supportedScopes := if type = .memory then [.container] else [.host, .container]

def capabilities : List Capability :=
  [newNativeCapability .c .cpu, newNativeCapability .cpp .cpu, newNativeCapability .go .cpu,
    { type := .cpu, language := .java, modes := [.onCPU], supportsBinaryMatch := true,
      supportedScopes := [.container] },
    { type := .cpu, language := .python, modes := [.onCPU], supportsBinaryMatch := true,
      supportedScopes := [.container] },
    newNativeCapability .c .memory, newNativeCapability .cpp .memory,
    newNativeCapability .go .memory,
    { type := .memory, language := .java, modes := [.objectAlloc, .objectUsage],
      supportedScopes := [.container] }]

def capabilityFor (language : Language) (type : ProfilingType) : Option Capability :=
  capabilities.find? fun capability => capability.language = language ∧ capability.type = type

def supportsScope (language : Language) (type : ProfilingType) (scope : Scope) : Bool :=
  (capabilityFor language type).any fun capability => capability.supportedScopes.contains scope

structure Spec where
  type : ProfilingType
  language : Language
  mode : Mode
  binaryMatchPath : String := ""
  deriving DecidableEq, Repr

def Spec.validate (s : Spec) : Except String Unit :=
  if ¬ (s.type = .cpu ∨ s.type = .memory) then
    .error ("unsupported profiling type " ++ s.type.raw.quote)
  else if ¬ capabilities.any fun capability => capability.language = s.language then
    .error ("unsupported language " ++ s.language.raw.quote)
  else if ¬ capabilities.any fun capability => capability.modes.contains s.mode then
    .error ("unsupported profiling mode " ++ s.mode.raw.quote)
  else
    match capabilityFor s.language s.type with
    | none =>
      .error ("profiling type " ++ s.type.raw.quote ++ " is not supported for language " ++
        s.language.raw.quote)
    | some capability =>
      if ¬ capability.modes.contains s.mode then
        .error ("profiling mode " ++ s.mode.raw.quote ++ " is not supported for type " ++
          s.type.raw.quote ++ " and language " ++ s.language.raw.quote)
      else if s.binaryMatchPath ≠ "" ∧ ¬ capability.supportsBinaryMatch then
        .error ("binary match path is not supported for type " ++ s.type.raw.quote ++
          " and language " ++ s.language.raw.quote)
      else .ok ()

end Profiling

/-! ## Tracing -/

namespace Tracing

open Observation (Scope)

inductive TracingType where
  | networkingDrop
  | io
  | tcpRetransmit
  | unsupported (raw : String)
  deriving DecidableEq, Repr

def TracingType.raw : TracingType → String
  | .networkingDrop => "networking_drop"
  | .io => "io_tracing"
  | .tcpRetransmit => "tcp_retransmit"
  | .unsupported raw => raw

/-- The scopes of each tracing type that is defined. -/
def capabilityDefinitions : List (TracingType × List Scope) :=
  [(.networkingDrop, [.host]), (.io, [.host]), (.tcpRetransmit, [.host])]

def supportsScope (type : TracingType) (scope : Scope) : Bool :=
  (capabilityDefinitions.lookup type).any fun scopes => scopes.contains scope

structure Spec where
  type : TracingType
  deriving DecidableEq, Repr

def Spec.validate (s : Spec) : Except String Unit :=
  if (capabilityDefinitions.lookup s.type).isNone then
    .error ("unsupported tracing type " ++ s.type.raw.quote)
  else .ok ()

end Tracing

/-! ## The union -/

namespace Job

/-- The service that owns a Job. -/
inductive Kind where
  | profiling
  | tracing
  | unsupported (raw : String)
  deriving DecidableEq, Repr

def Kind.raw : Kind → String
  | .profiling => "profiling"
  | .tracing => "tracing"
  | .unsupported raw => raw

structure Spec where
  profiling : Option Profiling.Spec := none
  tracing : Option Tracing.Spec := none
  deriving DecidableEq, Repr

def Spec.kind (s : Spec) : Kind :=
  match s.profiling, s.tracing with
  | some _, none => .profiling
  | none, some _ => .tracing
  | _, _ => .unsupported ""

def Spec.validate (s : Spec) (kind : Kind) (scope : Observation.Scope) : Except String Unit :=
  match kind with
  | .profiling =>
    match s.profiling, s.tracing with
    | some profiling, none =>
      match profiling.validate with
      | .error err => .error ("validate profiling job spec: " ++ err)
      | .ok () =>
        if ¬ Profiling.supportsScope profiling.language profiling.type scope then
          .error ("profiling job does not support scope " ++ scope.raw.quote)
        else .ok ()
    | _, _ => .error "profiling job must contain only a profiling spec"
  | .tracing =>
    match s.tracing, s.profiling with
    | some tracing, none =>
      match tracing.validate with
      | .error err => .error ("validate tracing job spec: " ++ err)
      | .ok () =>
        if ¬ Tracing.supportsScope tracing.type scope then
          .error ("tracing job does not support scope " ++ scope.raw.quote)
        else .ok ()
    | _, _ => .error "tracing job must contain only a tracing spec"
  | .unsupported raw => .error ("unsupported job kind " ++ raw.quote)

end Job

end Huatuo
