import Mathlib.Data.String.Basic
import Huatuo.Time

/-!
# Flows, namespaces and the matching predicates

The pure half of `cmd/tcpshark/retransmit/match.go`: which dropped packet explains which
retransmission. A flow is an ordered pair of `netip.AddrPort`; a drop may be seen on the
retransmission's own flow (the segment was lost) or on the reverse one (its acknowledgement
was lost), so the stores index both under one `canonicalFlow`.

Sequence numbers are 32-bit words compared by the sign of their difference.
-/

namespace Huatuo.Retransmit

/-! ## Addresses -/

/-- `netip.Addr`: the zero value, an IPv4 address, or an IPv6 address with a zone. -/
inductive Addr where
  | zero
  | v4 (bits : BitVec 32)
  | v6 (bits : BitVec 128) (zone : String)
  deriving DecidableEq, Repr

namespace Addr

def isValid : Addr → Bool
  | zero => false
  | _ => true

def is4 : Addr → Bool
  | v4 _ => true
  | _ => false

/-- `Addr.BitLen`. -/
def bitLen : Addr → Nat
  | zero => 0
  | v4 _ => 32
  | v6 _ _ => 128

/-- The address as a number; `netip` compares its two 64-bit halves in turn. -/
def value : Addr → Nat
  | zero => 0
  | v4 bits => bits.toNat
  | v6 bits _ => bits.toNat

def zone : Addr → String
  | v6 _ zone => zone
  | _ => ""

/-- `Addr.Compare`: by length, then by value, then by zone. -/
def compare (a b : Addr) : Ordering :=
  (Ord.compare a.bitLen b.bitLen).then
    ((Ord.compare a.value b.value).then (Ord.compare a.zone b.zone))

/-- `Addr.Unmap` on an address without a zone: an IPv4-mapped IPv6 address becomes IPv4. -/
def unmap : Addr → Addr
  | v6 bits zone => if bits >>> 32 = 0xffff then v4 (bits.setWidth 32) else v6 bits zone
  | a => a

/-- `netip.AddrFrom4` on the first four bytes of a sixteen-byte field. -/
def from4 (bytes : BitVec 128) : Addr := v4 (bytes.extractLsb' 96 32)

/-- `netip.AddrFrom16`. -/
def from16 (bytes : BitVec 128) : Addr := v6 bytes ""

end Addr

/-- `netip.AddrPort`. -/
structure AddrPort where
  addr : Addr
  port : BitVec 16
  deriving DecidableEq, Repr

/-- `AddrPort.Compare`: by address, then by port. -/
def AddrPort.compare (a b : AddrPort) : Ordering :=
  (a.addr.compare b.addr).then (Ord.compare a.port.toNat b.port.toNat)

/-! ## Flows -/

structure FlowKey where
  source : AddrPort
  destination : AddrPort
  deriving DecidableEq, Repr

def reverseFlow (flow : FlowKey) : FlowKey :=
  { source := flow.destination, destination := flow.source }

/-- The smaller endpoint first. -/
def canonicalFlow (flow : FlowKey) : FlowKey :=
  if flow.source.compare flow.destination = .gt then reverseFlow flow else flow

theorem Addr.compare_swap (a b : Addr) : (a.compare b).swap = b.compare a := by
  simp [Addr.compare, Ordering.swap_then, Std.OrientedOrd.eq_swap (a := b.bitLen),
    Std.OrientedOrd.eq_swap (a := b.value), Std.OrientedOrd.eq_swap (a := b.zone)]

theorem Addr.eq_of_compare {a b : Addr} (h : a.compare b = .eq) : a = b := by
  simp only [Addr.compare, Ordering.then_eq_eq, Std.compare_eq_iff_eq] at h
  obtain ⟨hlen, hval, hzone⟩ := h
  cases a <;> cases b <;> simp_all [bitLen, value, Addr.zone, BitVec.toNat_inj]

theorem AddrPort.compare_swap (a b : AddrPort) : (a.compare b).swap = b.compare a := by
  simp [AddrPort.compare, Ordering.swap_then, Addr.compare_swap,
    Std.OrientedOrd.eq_swap (a := b.port.toNat)]

theorem AddrPort.eq_of_compare {a b : AddrPort} (h : a.compare b = .eq) : a = b := by
  simp only [AddrPort.compare, Ordering.then_eq_eq, Std.compare_eq_iff_eq] at h
  obtain ⟨haddr, hport⟩ := h
  cases a
  cases b
  simp only [AddrPort.mk.injEq]
  exact ⟨Addr.eq_of_compare haddr, BitVec.toNat_inj.1 hport⟩

/-- **A flow and its reverse share one canonical form**, for every pair of endpoints. -/
@[simp] theorem canonicalFlow_reverseFlow (flow : FlowKey) :
    canonicalFlow (reverseFlow flow) = canonicalFlow flow := by
  have hswap := AddrPort.compare_swap flow.source flow.destination
  unfold canonicalFlow
  cases h : flow.source.compare flow.destination with
  | lt | gt =>
    rw [h] at hswap
    simp [reverseFlow, ← hswap, Ordering.swap]
  | eq =>
    -- equal endpoints: the flow is its own reverse
    have heq := AddrPort.eq_of_compare h
    have hrev : reverseFlow flow = flow := by
      cases flow
      simp_all [reverseFlow]
    simp [hrev]

/-! ## Events -/

structure NamespaceID where
  cookie : Nat
  inode : Nat
  deriving DecidableEq, Repr

/-- `abi.TCPRetransmitEventType`, from `tcp_retransmit_types.h`. -/
inductive EventType where
  | skb
  | synack
  | tlp
  | unknown (raw : Nat)
  deriving DecidableEq, Repr

/-- The fields of `abi.TCPRetransmitEvent` that correlation reads. -/
structure Record where
  kernelObservedNS : Nat
  netNamespaceCookie : Nat
  netNamespaceInum : Nat
  family : Nat
  saddr : BitVec 128
  daddr : BitVec 128
  sport : BitVec 16
  dport : BitVec 16
  eventType : EventType
  tcpSeq : BitVec 32
  tcpEndSeq : BitVec 32
  tcpAck : BitVec 32
  tcpFlags : BitVec 8
  deriving DecidableEq, Repr

structure RetransmitEvent where
  record : Record
  deriving DecidableEq, Repr

/-- A dropped packet. Its metadata and kernel stack only go to the output. -/
structure DropEvent where
  kernelObservedNS : Nat
  ns : NamespaceID
  flow : FlowKey
  sequence : BitVec 32
  endSequence : BitVec 32
  ackSequence : BitVec 32
  tcpFlags : BitVec 8
  deriving DecidableEq, Repr

inductive RetransmitMatchKind where
  | unsupported
  | data
  | syn
  | synack
  deriving DecidableEq, Repr

/-- What matching reads of a retransmission. -/
structure RetransmitEntry where
  flow : FlowKey
  ns : NamespaceID
  kernelObservedNS : Nat
  sequence : BitVec 32
  endSequence : BitVec 32
  hasSequenceRange : Bool
  ackSequence : BitVec 32
  kind : RetransmitMatchKind
  deriving DecidableEq, Repr

def tcpFlagSYN : BitVec 8 := 0x02
def tcpFlagRST : BitVec 8 := 0x04
def tcpFlagACK : BitVec 8 := 0x10

def afInet : Nat := 2
def afInet6 : Nat := 10

/-- `maxDropToRetransmitAge`. -/
def maxDropToRetransmitAge : Duration := Duration.second

/-! ## Sequence numbers -/

/-- The sign of the difference, so that ranges may cross the wrap point. -/
def tcpSequenceBefore (first second : BitVec 32) : Bool := decide ((first - second).toInt < 0)

def tcpSequenceRangesOverlap (firstStart firstEnd secondStart secondEnd : BitVec 32) : Bool :=
  tcpSequenceBefore firstStart secondEnd && tcpSequenceBefore secondStart firstEnd

/-! ## From a record to match fields -/

def retransmitAddresses (record : Record) : Addr × Addr :=
  if record.family = afInet then (Addr.from4 record.saddr, Addr.from4 record.daddr)
  else if record.family = afInet6 then
    ((Addr.from16 record.saddr).unmap, (Addr.from16 record.daddr).unmap)
  else (Addr.zero, Addr.zero)

def retransmitMatchKindFromRecord (record : Record) : RetransmitMatchKind :=
  match record.eventType with
  | .synack => .synack
  | .skb =>
    if record.tcpFlags &&& tcpFlagRST ≠ 0 then .unsupported
    else
      let hasSYN := decide (record.tcpFlags &&& tcpFlagSYN ≠ 0)
      let hasACK := decide (record.tcpFlags &&& tcpFlagACK ≠ 0)
      if hasSYN && !hasACK then .syn
      else if !hasSYN && hasACK then .data
      else .unsupported
  | _ => .unsupported

def retransmitEntryFromEvent (event : RetransmitEvent) : Option RetransmitEntry :=
  let record := event.record
  if record.kernelObservedNS = 0 ∨
      (record.netNamespaceCookie = 0 ∧ record.netNamespaceInum = 0) then none
  else
    let source := (retransmitAddresses record).1
    let destination := (retransmitAddresses record).2
    if !source.isValid || source.is4 != destination.is4 then none
    else
      let hasEndSequence := record.eventType == .skb || record.eventType == .synack
      some {
        flow := { source := ⟨source, record.sport⟩, destination := ⟨destination, record.dport⟩ }
        ns := ⟨record.netNamespaceCookie, record.netNamespaceInum⟩
        kernelObservedNS := record.kernelObservedNS
        sequence := record.tcpSeq
        endSequence := record.tcpEndSeq
        hasSequenceRange := hasEndSequence && tcpSequenceBefore record.tcpSeq record.tcpEndSeq
        ackSequence := record.tcpAck
        kind := retransmitMatchKindFromRecord record }

/-! ## The predicates -/

/-- Cookies decide when both sides have one; otherwise the inodes do. -/
def isSameNetNamespace (first second : NamespaceID) : Bool :=
  if first.cookie ≠ 0 ∧ second.cookie ≠ 0 then first.cookie == second.cookie
  else first.inode != 0 && second.inode != 0 && first.inode == second.inode

def dropWithinRetransmitAge (drop : DropEvent) (retransmit : RetransmitEntry) : Bool :=
  if drop.kernelObservedNS > retransmit.kernelObservedNS then false
  else
    decide ((retransmit.kernelObservedNS - drop.kernelObservedNS : Nat) ≤ maxDropToRetransmitAge)

def outboundSegmentMatches (drop : DropEvent) (retransmit : RetransmitEntry) : Bool :=
  drop.tcpFlags &&& tcpFlagRST == 0 && retransmit.kind != .unsupported &&
    drop.sequence != drop.endSequence && retransmit.hasSequenceRange &&
    tcpSequenceRangesOverlap drop.sequence drop.endSequence
      retransmit.sequence retransmit.endSequence

def inboundACKMatches (drop : DropEvent) (retransmit : RetransmitEntry) : Bool :=
  if drop.tcpFlags &&& tcpFlagACK = 0 ∨ drop.tcpFlags &&& tcpFlagRST ≠ 0 ∨
      retransmit.hasSequenceRange = false then false
  else
    match retransmit.kind with
    | .syn =>
      drop.tcpFlags &&& tcpFlagSYN != 0 && drop.ackSequence == retransmit.endSequence
    | .synack =>
      drop.tcpFlags &&& tcpFlagSYN == 0 && drop.ackSequence == retransmit.endSequence &&
        drop.sequence == retransmit.ackSequence
    | .data =>
      drop.tcpFlags &&& tcpFlagSYN == 0 &&
        tcpSequenceBefore retransmit.sequence drop.ackSequence &&
        !tcpSequenceBefore drop.ackSequence retransmit.endSequence
    | .unsupported => false

def isDropCandidateForRetransmit (drop : DropEvent) (retransmit : RetransmitEntry) : Bool :=
  if !dropWithinRetransmitAge drop retransmit then false
  else if drop.flow = retransmit.flow ∧ outboundSegmentMatches drop retransmit then true
  else decide (drop.flow = reverseFlow retransmit.flow) && inboundACKMatches drop retransmit

/-! ## What a candidate pair has in common -/

variable {drop : DropEvent} {retransmit : RetransmitEntry}

section

variable (h : isDropCandidateForRetransmit drop retransmit = true)
include h

/-- A candidate drop was seen on the retransmission's flow, in one direction or the other. -/
theorem flow_of_candidate :
    drop.flow = retransmit.flow ∨ drop.flow = reverseFlow retransmit.flow := by
  unfold isDropCandidateForRetransmit at h
  split at h
  · cases h
  split at h
  · rename_i hout
    exact Or.inl hout.1
  · simp only [Bool.and_eq_true, decide_eq_true_eq] at h
    exact Or.inr h.1

/-- Both sides of a candidate pair are indexed under one flow. -/
theorem canonicalFlow_eq_of_candidate :
    canonicalFlow drop.flow = canonicalFlow retransmit.flow := by
  rcases flow_of_candidate h with hflow | hflow
  · rw [hflow]
  · rw [hflow, canonicalFlow_reverseFlow]

theorem flow_valid_of_candidate (hvalid : retransmit.flow.source.addr.isValid = true ∧
      retransmit.flow.destination.addr.isValid = true) :
    drop.flow.source.addr.isValid = true ∧ drop.flow.destination.addr.isValid = true := by
  rcases flow_of_candidate h with hflow | hflow <;> rw [hflow]
  · exact hvalid
  · exact hvalid.symm

/-- Only a supported retransmission with a sequence range has candidates. -/
theorem supported_of_candidate :
    ¬ (retransmit.kind = .unsupported ∨ retransmit.hasSequenceRange = false) := by
  rw [not_or, Bool.not_eq_false]
  unfold isDropCandidateForRetransmit at h
  split at h
  · cases h
  split at h
  · rename_i hout
    have hseg := hout.2
    simp only [outboundSegmentMatches, Bool.and_eq_true, bne_iff_ne, ne_eq] at hseg
    exact ⟨hseg.1.1.1.2, hseg.1.2⟩
  · simp only [Bool.and_eq_true] at h
    have hack := h.2
    unfold inboundACKMatches at hack
    split at hack
    · cases hack
    rename_i hguard
    refine ⟨fun hkind => ?_, ?_⟩
    · simp [hkind] at hack
    · simp only [not_or, Bool.not_eq_false] at hguard
      exact hguard.2.2

end

/-- Namespaces that agree are known. -/
theorem hasNamespace_of_isSame {first second : NamespaceID}
    (h : isSameNetNamespace first second = true) : first.cookie ≠ 0 ∨ first.inode ≠ 0 := by
  unfold isSameNetNamespace at h
  split at h
  · rename_i hcoo
    exact Or.inl hcoo.1
  · simp only [Bool.and_eq_true, bne_iff_ne] at h
    exact Or.inr h.1.1

theorem Addr.isValid_unmap (a : Addr) : a.unmap.isValid = a.isValid := by
  cases a with
  | v6 bits zone =>
    simp only [unmap]
    split <;> rfl
  | _ => rfl

/-- The two addresses of a record are valid together: they come from one address family. -/
theorem retransmitAddresses_valid (record : Record) :
    (retransmitAddresses record).2.isValid = (retransmitAddresses record).1.isValid := by
  unfold retransmitAddresses
  split
  · simp only [Addr.from4, Addr.isValid]
  split
  · simp only [Addr.isValid_unmap]
    simp only [Addr.from16, Addr.isValid]
  · rfl

/-- Both endpoints of a retransmission's flow are valid addresses. -/
theorem flow_valid_of_entry {event : RetransmitEvent} {entry : RetransmitEntry}
    (h : retransmitEntryFromEvent event = some entry) :
    entry.flow.source.addr.isValid = true ∧ entry.flow.destination.addr.isValid = true := by
  simp only [retransmitEntryFromEvent] at h
  split at h
  · cases h
  split at h
  · cases h
  rename_i hvalid
  simp only [Bool.or_eq_true, Bool.not_eq_true', not_or, Bool.not_eq_false] at hvalid
  cases h
  exact ⟨hvalid.1, (retransmitAddresses_valid event.record).trans hvalid.1⟩

end Huatuo.Retransmit
