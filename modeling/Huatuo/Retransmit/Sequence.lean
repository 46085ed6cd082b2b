import Huatuo.Retransmit.Match

/-!
# Sequence ranges

`tcpSequenceBefore` compares by the sign of a difference, which says that the second number is at
most 2^31 ahead of the first. The relation is not transitive, and the overlap of two ranges is two
comparisons of a start with the other range's end. The theorem says within which lengths the two
comparisons mean what they should: the ranges are circular, and a number is in one if it is less
than a length ahead of its start.
-/

namespace Huatuo.Retransmit

/-- How far a number is ahead of another. -/
def forwardDistance (start sequence : BitVec 32) : Nat := (sequence - start).toNat

/-- A number is in the circular range of a length from a start. -/
def InRange (start : BitVec 32) (length : Nat) (sequence : BitVec 32) : Prop :=
  forwardDistance start sequence < length

variable {start start' sequence : BitVec 32} {length length' : Nat}

theorem forwardDistance_lt (start sequence : BitVec 32) : forwardDistance start sequence < 2 ^ 32 :=
  (sequence - start).isLt

theorem tcpSequenceBefore_iff (first second : BitVec 32) :
    tcpSequenceBefore first second ↔
      1 ≤ forwardDistance first second ∧ forwardDistance first second ≤ 2 ^ 31 := by
  rw [tcpSequenceBefore, decide_eq_true_eq, BitVec.toInt_neg_iff, forwardDistance, BitVec.toNat_sub,
    BitVec.toNat_sub]
  have := first.isLt
  have := second.isLt
  omega

/-- The distance to the end of a range that begins `forwardDistance` ahead. -/
theorem forwardDistance_add (start start' : BitVec 32) (length : Nat) :
    forwardDistance start (start' + BitVec.ofNat 32 length) =
      (forwardDistance start start' + length) % 2 ^ 32 := by
  simp only [forwardDistance, BitVec.toNat_sub, BitVec.toNat_add, BitVec.toNat_ofNat]
  have := start.isLt
  have := start'.isLt
  omega

theorem forwardDistance_swap (start start' : BitVec 32) :
    forwardDistance start' start = (2 ^ 32 - forwardDistance start start') % 2 ^ 32 := by
  simp only [forwardDistance, BitVec.toNat_sub]
  have := start.isLt
  have := start'.isLt
  omega

/-- Two circular ranges have a common number if one of them has the start of the other. -/
theorem exists_inRange_iff (hlen : 1 ≤ length) (hlen' : 1 ≤ length') :
    (∃ sequence, InRange start length sequence ∧ InRange start' length' sequence) ↔
      InRange start length start' ∨ InRange start' length' start := by
  constructor
  · rintro ⟨sequence, h, h'⟩
    unfold InRange forwardDistance at h h' ⊢
    rw [BitVec.toNat_sub] at h h' ⊢
    rw [BitVec.toNat_sub]
    have := start.isLt
    have := start'.isLt
    have := sequence.isLt
    omega
  · have hself (start : BitVec 32) {length : Nat} (h : 1 ≤ length) :
        InRange start length start := by
      rw [InRange, forwardDistance, BitVec.sub_self]
      exact h
    rintro (h | h)
    · exact ⟨start', h, hself start' hlen'⟩
    · exact ⟨start, hself start hlen, h⟩

theorem tcpSequenceRangesOverlap_iff (hlen : 1 ≤ length) (hlen' : 1 ≤ length')
    (hsum : length + length' ≤ 2 ^ 31) :
    tcpSequenceRangesOverlap start (start + BitVec.ofNat 32 length) start'
        (start' + BitVec.ofNat 32 length') ↔
      ∃ sequence, InRange start length sequence ∧ InRange start' length' sequence := by
  have hlt := forwardDistance_lt start start'
  rw [exists_inRange_iff hlen hlen', tcpSequenceRangesOverlap, Bool.and_eq_true,
    tcpSequenceBefore_iff, tcpSequenceBefore_iff, forwardDistance_add, forwardDistance_add,
    InRange, InRange, forwardDistance_swap start start']
  omega

/-- The entry of a retransmitted data segment has a range. -/
theorem hasSequenceRange_of_data {event : RetransmitEvent} {entry : RetransmitEntry}
    (hent : retransmitEntryFromEvent event = some entry) (hkind : entry.kind = .data)
    (hend : entry.endSequence = entry.sequence + BitVec.ofNat 32 length) (hlen : 1 ≤ length)
    (hmax : length ≤ 2 ^ 31) : entry.hasSequenceRange := by
  have hbef : tcpSequenceBefore entry.sequence entry.endSequence := by
    have hself : forwardDistance entry.sequence entry.sequence = 0 := by
      rw [forwardDistance, BitVec.sub_self]
      rfl
    rw [hend, tcpSequenceBefore_iff, forwardDistance_add, hself]
    omega
  simp only [retransmitEntryFromEvent] at hent
  split at hent
  · cases hent
  split at hent
  · cases hent
  cases hent
  dsimp only at hkind hbef ⊢
  rw [hbef, Bool.and_true]
  -- only segments of the first kind carry data
  unfold retransmitMatchKindFromRecord at hkind
  split at hkind
  · cases hkind
  · next hev => rw [hev]; rfl
  · cases hkind

theorem inboundACKMatches_data_iff {drop : DropEvent} {entry : RetransmitEntry}
    (hkind : entry.kind = .data) (hrg : entry.hasSequenceRange)
    (hend : entry.endSequence = entry.sequence + BitVec.ofNat 32 length) (hlen : 1 ≤ length)
    (hmax : length ≤ 2 ^ 31) (hack : drop.tcpFlags &&& tcpFlagACK ≠ 0)
    (hrst : drop.tcpFlags &&& tcpFlagRST = 0) (hsyn : drop.tcpFlags &&& tcpFlagSYN = 0) :
    inboundACKMatches drop entry ↔
      length ≤ forwardDistance entry.sequence drop.ackSequence ∧
        forwardDistance entry.sequence drop.ackSequence ≤ 2 ^ 31 := by
  have hguard : ¬(drop.tcpFlags &&& tcpFlagACK = 0 ∨ drop.tcpFlags &&& tcpFlagRST ≠ 0 ∨
      entry.hasSequenceRange = false) := by
    rintro (h | h | h)
    · exact hack h
    · exact h hrst
    · exact absurd hrg (h ▸ Bool.false_ne_true)
  have hlt := forwardDistance_lt entry.sequence drop.ackSequence
  rw [inboundACKMatches, if_neg hguard, hkind]
  dsimp only
  rw [hsyn, Bool.and_eq_true, Bool.and_eq_true, Bool.not_eq_true', ← Bool.not_eq_true,
    tcpSequenceBefore_iff, tcpSequenceBefore_iff, hend, forwardDistance_add,
    forwardDistance_swap entry.sequence drop.ackSequence]
  simp only [BEq.rfl, true_and]
  omega

/-- **Sequence arithmetic.** Two ranges of at most 2^31 numbers together overlap if the comparisons
say so, and a dropped acknowledgement matches retransmitted data if it is ahead of the data's first
number by the length of the data or more, up to 2^31. -/
theorem sequence_ranges :
    (∀ (start start' : BitVec 32) (length length' : Nat), 1 ≤ length → 1 ≤ length' →
      length + length' ≤ 2 ^ 31 →
      (tcpSequenceRangesOverlap start (start + BitVec.ofNat 32 length) start'
          (start' + BitVec.ofNat 32 length') ↔
        ∃ sequence, InRange start length sequence ∧ InRange start' length' sequence)) ∧
      ∀ (event : RetransmitEvent) (entry : RetransmitEntry) (drop : DropEvent) (length : Nat),
        retransmitEntryFromEvent event = some entry → entry.kind = .data →
        entry.endSequence = entry.sequence + BitVec.ofNat 32 length → 1 ≤ length → length ≤ 2 ^ 31 →
        drop.tcpFlags &&& tcpFlagACK ≠ 0 → drop.tcpFlags &&& tcpFlagRST = 0 →
        drop.tcpFlags &&& tcpFlagSYN = 0 →
        (inboundACKMatches drop entry ↔
          length ≤ forwardDistance entry.sequence drop.ackSequence ∧
            forwardDistance entry.sequence drop.ackSequence ≤ 2 ^ 31) := by
  constructor
  · intro start start' length length' hlength hlength' hsum
    exact tcpSequenceRangesOverlap_iff hlength hlength' hsum
  · intro event entry drop length hentry hkind hend hlength hmax hack hrst hsyn
    exact inboundACKMatches_data_iff hkind
      (hasSequenceRange_of_data hentry hkind hend hlength hmax) hend
      hlength hmax hack hrst hsyn

/-- A data segment of 32 bytes across the wrap point. -/
def wrappedSegment : RetransmitEvent where
  record :=
    { kernelObservedNS := 1
      netNamespaceCookie := 1
      netNamespaceInum := 0
      family := afInet
      saddr := 0
      daddr := 0
      sport := 1
      dport := 2
      eventType := .skb
      tcpSeq := 0xfffffff0
      tcpEndSeq := 0x10
      tcpAck := 0
      tcpFlags := tcpFlagACK }

/-- The segment overlaps the one from 8 to 16. An acknowledgement of 16 matches, and one of 15 does
not. -/
theorem sequence_ranges_wrapped :
    (∃ sequence, InRange 0xfffffff0 32 sequence ∧ InRange 8 8 sequence) ∧
      ∃ entry, retransmitEntryFromEvent wrappedSegment = some entry ∧
        ∀ drop : DropEvent, drop.tcpFlags = tcpFlagACK →
          (drop.ackSequence = 16 → inboundACKMatches drop entry) ∧
            (drop.ackSequence = 15 → ¬inboundACKMatches drop entry) := by
  refine ⟨(sequence_ranges.1 0xfffffff0 8 32 8 (by decide) (by decide) (by decide)).1 (by decide),
    ?_⟩
  obtain ⟨entry, hentry, hkind, hsequence, hend⟩ : ∃ entry,
      retransmitEntryFromEvent wrappedSegment = some entry ∧ entry.kind = .data ∧
        entry.sequence = 0xfffffff0 ∧ entry.endSequence = 0x10 := ⟨_, rfl, rfl, rfl, rfl⟩
  refine ⟨entry, hentry, fun drop hflags => ?_⟩
  have hmatches := sequence_ranges.2 wrappedSegment entry drop 32 hentry hkind
    (by rw [hsequence, hend]; decide) (by decide) (by decide) (by rw [hflags]; decide)
    (by rw [hflags]; decide) (by rw [hflags]; decide)
  rw [hmatches, hsequence]
  refine ⟨fun hack => ?_, fun hack => ?_⟩ <;> rw [hack]
  · decide
  · decide

end Huatuo.Retransmit
