import Huatuo.IoLatency.Completion
import Huatuo.Lib.Segments
import Mathlib.Data.UInt

/-!
# The walk accounts each bio when its last byte is completed

The chunks together are one walk of 511 bios (`completeBioChunks_eq`), and with the first bio an
event accounts the bios that its bytes complete, up to 512 of them (`traceRequestComplete_spec`).
The bios that an event completes are the next `Segments.whole` ones of the chain. Over the events of
a request these numbers add up, whatever the bytes are split into.

An `Account` says which bio was counted at which event. `Adds` says what the accounts add to the two
histograms, and `Credited` that the disk has got this, and each container that of its own bios.
-/

namespace Huatuo.IoLatency

open List Function

variable {β δ : Type}

def sizes (bios : List (Bio β)) : List Nat := bios.map fun bio => bio.size.toNat

theorem sizes_cons (bio : Bio β) (bios : List (Bio β)) :
    sizes (bio :: bios) = bio.size.toNat :: sizes bios := rfl

/-! ## What the histograms get -/

/-- The bucket of a bio that an event completes, at each stage. -/
def latencyBucket (config : Config) (event : Event β) (bio : Bio β) : Stage → Option Nat
  | .q2g => accountedBucket
      (ioLatencyBucket (ioLatencyBioQueueNs config bio event.now) event.startTimeNs true)
  | .q2d => accountedBucket
      (ioLatencyBucket (ioLatencyBioQueueNs config bio event.now) event.ioStartTimeNs true)
  | .d2c => accountedBucket (ioLatencyBucket event.ioStartTimeNs event.now false)

def sizeBucket (issuedBytes : UInt64) : Option Nat :=
  if issuedBytes = 0 then none else some (ioSizeBucket issuedBytes.toUInt32)

/-- A bio that is counted at an event, and the size of the request that is counted with it. -/
structure Account (β : Type) where
  index : Nat
  event : Event β
  bio : Bio β
  issuedBytes : UInt64

/-- Each account adds one to its bucket at each stage, and one to that of its size. -/
structure Adds (config : Config) (accounts : List (Account β)) (counters counters' : Counters) :
    Prop where
  latency : ∀ stage bucket, counters'.buckets stage bucket = counters.buckets stage bucket +
    UInt64.ofNat (accounts.countP fun account =>
      latencyBucket config account.event account.bio stage = some bucket)
  issuedSize : ∀ bucket, counters'.issuedSize bucket = counters.issuedSize bucket +
    UInt64.ofNat (accounts.countP fun account => sizeBucket account.issuedBytes = some bucket)

section

variable {config : Config} {accounts accounts' : List (Account β)}
  {counters counters' counters'' : Counters}

theorem Adds.refl : Adds (β := β) config [] counters counters := ⟨by simp, by simp⟩

theorem Adds.trans (h : Adds config accounts counters counters')
    (h' : Adds config accounts' counters' counters'') :
    Adds config (accounts ++ accounts') counters counters'' where
  latency stage bucket := by
    rw [h'.latency, h.latency, countP_append, UInt64.ofNat_add, UInt64.add_assoc]
  issuedSize bucket := by
    rw [h'.issuedSize, h.issuedSize, countP_append, UInt64.ofNat_add, UInt64.add_assoc]

@[simp] theorem buckets_accountLatency (stage stage' : Stage) (bucket : Option Nat) (b : Nat) :
    (counters.accountLatency stage bucket).buckets stage' b =
      counters.buckets stage' b + if stage' = stage ∧ bucket = some b then 1 else 0 := by
  cases bucket with
  | none => simp [Counters.accountLatency]
  | some bucket =>
    by_cases hstage : stage' = stage
    · subst hstage
      by_cases hbucket : b = bucket <;>
        simp [Counters.accountLatency, Counters.incrementLatency, hbucket, eq_comm]
    · simp [Counters.accountLatency, Counters.incrementLatency, hstage]

@[simp] theorem issuedSize_accountLatency (stage : Stage) (bucket : Option Nat) :
    (counters.accountLatency stage bucket).issuedSize = counters.issuedSize := by
  cases bucket <;> rfl

@[simp] theorem buckets_accountSize (size : Option Nat) :
    (counters.accountSize size).buckets = counters.buckets := by
  cases size <;> rfl

@[simp] theorem issuedSize_accountSize (size : Option Nat) (b : Nat) :
    (counters.accountSize size).issuedSize b =
      counters.issuedSize b + if size = some b then 1 else 0 := by
  cases size with
  | none => simp [Counters.accountSize]
  | some size =>
    by_cases hsize : b = size <;>
      simp [Counters.accountSize, Counters.incrementIssuedSize, hsize, eq_comm]

theorem ofNat_countP_singleton {α : Type} (p : α → Prop) [DecidablePred p] (a : α) :
    UInt64.ofNat ([a].countP fun a => p a) = if p a then 1 else 0 := by
  by_cases h : p a <;> simp [h]

/-- The increments of `complete_bio_latency`, on the counters of the disk. -/
theorem adds_host (account : Account β) (bucket : Stage → Option Nat)
    (hbucket : latencyBucket config account.event account.bio = bucket) :
    Adds config [account] counters
      ((((counters.accountSize (sizeBucket account.issuedBytes)).accountLatency .d2c
        (bucket .d2c)).accountLatency .q2g (bucket .q2g)).accountLatency .q2d (bucket .q2d)) where
  latency stage b := by
    rw [ofNat_countP_singleton, hbucket]
    cases stage <;> simp
  issuedSize b := by
    rw [ofNat_countP_singleton]
    simp

/-- Those of `account_completed_container` are the same. -/
theorem adds_container (account : Account β) (bucket : Stage → Option Nat)
    (hbucket : latencyBucket config account.event account.bio = bucket) :
    Adds config [account] counters
      ((((counters.accountLatency .q2g (bucket .q2g)).accountLatency .q2d
        (bucket .q2d)).accountLatency .d2c (bucket .d2c)).accountSize
          (sizeBucket account.issuedBytes)) where
  latency stage b := by
    rw [ofNat_countP_singleton, hbucket]
    cases stage <;> simp
  issuedSize b := by
    rw [ofNat_countP_singleton]
    simp

end

/-! ## Packed words -/

theorem toNat_or_shiftLeft (low high shift : UInt64) {k : Nat} (hshift : shift.toNat % 64 = k)
    (hlow : low.toNat < 2 ^ k) (hhigh : high.toNat * 2 ^ k < 2 ^ 64) :
    (low ||| high <<< shift).toNat = high.toNat * 2 ^ k + low.toNat := by
  rw [UInt64.toNat_or, UInt64.toNat_shiftLeft, hshift, Nat.or_comm, Nat.shiftLeft_eq,
    Nat.mod_eq_of_lt hhigh, ← Nat.shiftLeft_eq, ← Nat.shiftLeft_add_eq_or_of_lt hlow,
    Nat.shiftLeft_eq]

theorem toNat_byte (word : UInt64) : (word &&& 255).toNat = word.toNat % 256 := by
  rw [UInt64.toNat_and]
  exact Nat.and_two_pow_sub_one_eq_mod _ 8

theorem toNat_packBucket_lt (bucket : Option Nat) : (packBucket bucket).toNat < 256 := by
  rw [packBucket, toNat_byte]
  exact Nat.mod_lt _ (by decide)

/-- The four bytes of a word. -/
theorem unpack_buckets (a b c d : Option Nat) {word : UInt64}
    (hword : packBucket a ||| packBucket b <<< 8 ||| packBucket c <<< 16 |||
      packBucket d <<< 24 = word) :
    word &&& 255 = packBucket a ∧ word >>> 8 &&& 255 = packBucket b ∧
      word >>> 16 &&& 255 = packBucket c ∧ word >>> 24 &&& 255 = packBucket d := by
  have ha := toNat_packBucket_lt a
  have hb := toNat_packBucket_lt b
  have hc := toNat_packBucket_lt c
  have hd := toNat_packBucket_lt d
  have hab := toNat_or_shiftLeft (packBucket a) (packBucket b) 8 (k := 8) rfl ha (by omega)
  have habc := toNat_or_shiftLeft _ (packBucket c) 16 (k := 16) rfl (by rw [hab]; omega) (by omega)
  have habcd := toNat_or_shiftLeft _ (packBucket d) 24 (k := 24) rfl (by rw [habc]; omega)
    (by omega)
  rw [hword] at habcd
  simp only [← UInt64.toNat_inj, toNat_byte, UInt64.toNat_shiftRight, Nat.shiftRight_eq_div_pow]
  refine ⟨by omega, ?_, ?_, ?_⟩
  · change word.toNat / 2 ^ 8 % 256 = _
    omega
  · change word.toNat / 2 ^ 16 % 256 = _
    omega
  · change word.toNat / 2 ^ 24 % 256 = _
    omega

theorem toNat_packBucket {bucket : Nat} (h : bucket < latencyBuckets) :
    (packBucket (some bucket)).toNat = bucket := by
  have hlt : bucket < 17 := h
  rw [packBucket, toNat_byte, Option.getD_some]
  change bucket % 2 ^ 64 % 256 = bucket
  omega

theorem eq_none_of_packBucket {bucket : Option Nat} (hlt : ∀ b ∈ bucket, b < latencyBuckets)
    (h : packBucket bucket = 255) : bucket = none := by
  cases bucket with
  | none => rfl
  | some b =>
    have hb : b < 17 := hlt b rfl
    have heq := toNat_packBucket hb
    rw [h] at heq
    exact absurd (heq ▸ hb) (by decide)

theorem decode_latency (counters : Counters) (stage : Stage) {bucket : Option Nat}
    (hlt : ∀ b ∈ bucket, b < latencyBuckets) :
    (if (packBucket bucket).toNat < latencyBuckets then
      counters.incrementLatency stage (packBucket bucket).toNat else counters) =
    counters.accountLatency stage bucket := by
  cases bucket with
  | none => rfl
  | some b => rw [toNat_packBucket (hlt b rfl), if_pos (hlt b rfl), Counters.accountLatency]

theorem decode_size (counters : Counters) {size : Option Nat} (hlt : ∀ b ∈ size, b < sizeBuckets) :
    (if (packBucket size).toNat < sizeBuckets then
      counters.incrementIssuedSize (packBucket size).toNat else counters) =
    counters.accountSize size := by
  cases size with
  | none => rfl
  | some b =>
    have hb : b < 6 := hlt b rfl
    rw [toNat_packBucket (Nat.lt_trans hb (by decide)), if_pos (hlt b rfl), Counters.accountSize]

theorem unpack_disk (major minor : UInt32) :
    ((major.toUInt64 <<< 32 ||| minor.toUInt64) >>> 32).toUInt32 = major ∧
      (major.toUInt64 <<< 32 ||| minor.toUInt64).toUInt32 = minor := by
  have hmajor := major.toNat_lt
  have hminor := minor.toNat_lt
  have hword := toNat_or_shiftLeft minor.toUInt64 major.toUInt64 32 (k := 32) rfl hminor
    (Nat.mul_lt_mul_of_pos_right hmajor (by decide))
  rw [UInt64.or_comm] at hword
  simp only [← UInt32.toNat_inj, UInt64.toNat_toUInt32, UInt64.toNat_shiftRight,
    Nat.shiftRight_eq_div_pow, hword, UInt32.toNat_toUInt64]
  constructor
  · change (major.toNat * 2 ^ 32 + minor.toNat) / 2 ^ 32 % 2 ^ 32 = _
    omega
  · omega

/-- A value with the high bit is above every threshold without it; for the others the high bit of
the difference is the comparison. -/
theorem ioHistogramAbove_eq (value : UInt64) {threshold : UInt64} (h : threshold.toNat < 2 ^ 63) :
    ioHistogramAbove value threshold = if threshold < value then 1 else 0 := by
  have hlt := value.toNat_lt
  have hor : ioHistogramAbove value threshold =
      (threshold - value).toNat / 2 ^ 63 ||| value.toNat / 2 ^ 63 := by
    rw [ioHistogramAbove, UInt64.toNat_shiftRight, UInt64.toNat_or]
    exact Nat.shiftRight_or_distrib.trans (by simp only [Nat.shiftRight_eq_div_pow]; rfl)
  simp only [hor, UInt64.toNat_sub, UInt64.lt_iff_toNat_lt]
  rcases Nat.lt_or_ge value.toNat (2 ^ 63) with hlow | hhigh
  · rw [Nat.div_eq_of_lt hlow, Nat.or_zero]
    split <;> omega
  · have hbit : value.toNat / 2 ^ 63 = 1 := by omega
    have hdiff : (2 ^ 64 - value.toNat + threshold.toNat) % 2 ^ 64 / 2 ^ 63 ≤ 1 := by omega
    rw [hbit, if_pos (Nat.lt_of_lt_of_le h hhigh)]
    rcases Nat.le_one_iff_eq_zero_or_eq_one.1 hdiff with hzero | hone
    · rw [hzero]
      rfl
    · rw [hone]
      rfl

theorem sum_ioHistogramAbove (value : UInt64) {thresholds : List UInt64}
    (h : ∀ threshold ∈ thresholds, threshold.toNat < 2 ^ 63) :
    (thresholds.map (ioHistogramAbove value)).sum =
      thresholds.countP fun threshold => decide (threshold < value) := by
  induction thresholds with
  | nil => rfl
  | cons threshold rest ih =>
    rw [map_cons, sum_cons, countP_cons, ih fun x hx => h x (mem_cons_of_mem _ hx),
      ioHistogramAbove_eq value (h threshold mem_cons_self), Nat.add_comm]
    simp

theorem ioSizeBucket_lt (bytes : UInt32) : ioSizeBucket bytes < sizeBuckets := by
  unfold ioSizeBucket
  split
  · decide
  · have hall : (sizeThresholds.all fun threshold => decide (threshold.toNat < 2 ^ 63)) = true := by
      decide +kernel
    rw [sum_ioHistogramAbove _ fun x hx => of_decide_eq_true (all_eq_true.1 hall x hx)]
    exact Nat.lt_succ_of_le countP_le_length

/-! ## Containers -/

/-- What is counted for a container that has no row. -/
def Session.row (s : Session β δ) (key : ContainerKey) : Counters := (s.blkcgLatMap key).getD {}

/-- The serial numbers that the session knows are right. -/
def Session.Groups (s : Session β δ) (serial : UInt64 → UInt64) : Prop :=
  ∀ css number, s.groupMap css = some number → number = serial css

/-- The serial numbers at the event, whose insertions succeed. -/
structure Event.Identifies (event : Event β) (serial : UInt64 → UInt64) : Prop where
  serialNr : event.serialNr = serial
  groupInsert : ∀ bio, event.groupInsert bio = 0 ∨ event.groupInsert bio = -eexist
  seriesInsert : ∀ bio, event.seriesInsert bio = 0 ∨ event.seriesInsert bio = -eexist

/-- Where the bios of a request are counted. -/
structure Target (δ : Type) where
  disk : δ
  major : UInt32
  minor : UInt32
  operation : UInt32

/-- The row of the container of a bio. -/
def containerKey (config : Config) (serial : UInt64 → UInt64) (target : Target δ) (bio : Bio β) :
    Option ContainerKey :=
  let css := ioLatencyBioCss config bio
  if css = 0 ∨ serial css = 0 then none
  else some
    { blkcg := css, serial := serial css, major := target.major, minor := target.minor,
      operation := target.operation }

section

variable {config : Config} {event : Event β} {s s' : Session β δ} {serial : UInt64 → UInt64}

theorem ioLatencyCssSerial_spec {bio : β} {css number : UInt64} (hgroups : s.Groups serial)
    (hevent : event.Identifies serial) (h : s.ioLatencyCssSerial event bio css = (number, s')) :
    number = serial css ∧ s'.Groups serial ∧ s'.blkcgLatMap = s.blkcgLatMap := by
  unfold Session.ioLatencyCssSerial at h
  split at h
  · next hknown =>
    cases h
    exact ⟨hgroups css number hknown, hgroups, rfl⟩
  have hinsert : ¬ (event.groupInsert bio ≠ 0 ∧ event.groupInsert bio ≠ -eexist) := by
    rw [not_and_or, not_not, not_not]
    exact hevent.groupInsert bio
  dsimp only at h
  rw [hevent.serialNr, if_neg hinsert] at h
  split at h
  · next hzero =>
    cases h
    exact ⟨hzero.symm, hgroups, rfl⟩
  cases h
  refine ⟨rfl, fun css' number' hnumber' => ?_, rfl⟩
  by_cases hcss : css' = css
  · subst hcss
    simpa [eq_comm] using hnumber'
  · exact hgroups css' number' (by simpa [hcss] using hnumber')

theorem ioLatencyBioIdentity_spec {bio : Bio β} {identity : UInt64 × UInt64}
    (hgroups : s.Groups serial) (hevent : event.Identifies serial)
    (h : s.ioLatencyBioIdentity config event bio = (identity, s')) :
    s'.Groups serial ∧ s'.blkcgLatMap = s.blkcgLatMap ∧
      identity = if ioLatencyBioCss config bio = 0 ∨ serial (ioLatencyBioCss config bio) = 0
        then (0, 0) else (ioLatencyBioCss config bio, serial (ioLatencyBioCss config bio)) := by
  unfold Session.ioLatencyBioIdentity at h
  dsimp only at h
  generalize ioLatencyBioCss config bio = css at h ⊢
  split at h
  · next hzero =>
    cases h
    exact ⟨hgroups, rfl, (if_pos (.inl hzero)).symm⟩
  next hcss =>
  rcases hserial : s.ioLatencyCssSerial event bio.address css with ⟨number, s₁⟩
  obtain ⟨rfl, hgroups₁, hrows⟩ := ioLatencyCssSerial_spec hgroups hevent hserial
  rw [hserial] at h
  dsimp only at h
  split at h
  · next hzero =>
    cases h
    exact ⟨hgroups₁, hrows, (if_pos (.inr hzero)).symm⟩
  · next hnumber =>
    cases h
    exact ⟨hgroups₁, hrows, (if_neg (not_or.2 ⟨hcss, hnumber⟩)).symm⟩

theorem lookupContainerCounters_spec {bio : β} {key : ContainerKey} {found : Option Counters}
    (hevent : event.Identifies serial)
    (h : s.lookupContainerCounters event bio key = (found, s')) :
    s'.groupMap = s.groupMap ∧ (∀ key', s'.row key' = s.row key') ∧
      found = if key.blkcg = 0 ∨ key.serial = 0 then none else some (s.row key) := by
  unfold Session.lookupContainerCounters at h
  split at h
  · next hzero =>
    cases h
    exact ⟨rfl, fun _ => rfl, (if_pos hzero).symm⟩
  next hkey =>
  rw [if_neg hkey]
  split at h
  · next counters hrow =>
    cases h
    exact ⟨rfl, fun _ => rfl, by rw [Session.row, hrow, Option.getD_some]⟩
  next hrow =>
  dsimp only at h
  rw [if_pos (hevent.seriesInsert bio)] at h
  cases h
  refine ⟨rfl, fun key' => ?_, by rw [Session.row, hrow, Option.getD_none]⟩
  by_cases hkey' : key' = key
  · subst hkey'
    simp [Session.row, hrow]
  · simp [Session.row, hkey']

/-- A call adds to the row of the bio's container, and to no other. -/
theorem accountCompletedContainer_spec {bio : Bio β} {target : Target δ} {disk : UInt64}
    {bucket : Stage → Option Nat} {size : Option Nat}
    (h : s.accountCompletedContainer config event bio disk target.operation
      (packBucket (bucket .q2g) ||| packBucket (bucket .q2d) <<< 8 |||
        packBucket (bucket .d2c) <<< 16 ||| packBucket size <<< 24) = s')
    (hgroups : s.Groups serial) (hevent : event.Identifies serial)
    (hmajor : (disk >>> 32).toUInt32 = target.major) (hminor : disk.toUInt32 = target.minor)
    (hbucket : ∀ stage, ∀ b ∈ bucket stage, b < latencyBuckets)
    (hsize : ∀ b ∈ size, b < sizeBuckets) :
    s'.Groups serial ∧ ∀ key, s'.row key =
      if containerKey config serial target bio = some key then
        ((((s.row key).accountLatency .q2g (bucket .q2g)).accountLatency .q2d
          (bucket .q2d)).accountLatency .d2c (bucket .d2c)).accountSize size
      else s.row key := by
  obtain ⟨word, hword⟩ : ∃ word, packBucket (bucket .q2g) ||| packBucket (bucket .q2d) <<< 8 |||
    packBucket (bucket .d2c) <<< 16 ||| packBucket size <<< 24 = word := ⟨_, rfl⟩
  obtain ⟨hq2g, hq2d, hd2c, hlast⟩ := unpack_buckets _ _ _ _ hword
  rw [hword] at h
  unfold Session.accountCompletedContainer at h
  split at h
  · -- no sample at all
    next hnone =>
    cases h
    subst hnone
    have hsize' : ∀ b ∈ size, b < latencyBuckets := fun b hb =>
      Nat.lt_trans (hsize b hb) (by decide)
    rw [eq_none_of_packBucket (hbucket .q2g) hq2g.symm,
      eq_none_of_packBucket (hbucket .q2d) hq2d.symm,
      eq_none_of_packBucket (hbucket .d2c) hd2c.symm, eq_none_of_packBucket hsize' hlast.symm]
    exact ⟨hgroups, fun key => (ite_self _).symm⟩
  dsimp only at h
  rcases hidentity : s.ioLatencyBioIdentity config event bio with ⟨identity, s₁⟩
  obtain ⟨hgroups₁, hrows₁, rfl⟩ := ioLatencyBioIdentity_spec hgroups hevent hidentity
  rw [hidentity] at h
  dsimp only at h
  rw [hmajor, hminor, hq2g, hq2d, hd2c, hlast] at h
  simp only [decode_latency _ _ (hbucket _), decode_size _ hsize] at h
  have hrow₁ (key : ContainerKey) : s₁.row key = s.row key := by
    rw [Session.row, hrows₁, Session.row]
  unfold containerKey
  dsimp only
  generalize ioLatencyBioCss config bio = css at h ⊢
  by_cases hcontainer : css = 0 ∨ serial css = 0
  · rw [if_pos hcontainer] at h ⊢
    cases h
    exact ⟨hgroups₁, fun key => (hrow₁ key).trans (if_neg nofun).symm⟩
  · rw [if_neg hcontainer] at h ⊢
    dsimp only at h
    generalize hkey : ContainerKey.mk css (serial css) target.major target.minor
      target.operation 0 = key at h ⊢
    rcases hlookup : s₁.lookupContainerCounters event bio.address key with ⟨found, s₂⟩
    obtain ⟨hgroups₂, hrow₂, rfl⟩ := lookupContainerCounters_spec hevent hlookup
    rw [hlookup] at h
    subst hkey
    rw [if_neg hcontainer] at h
    dsimp only at h
    subst h
    refine ⟨fun css' number hnumber => hgroups₁ css' number (hgroups₂ ▸ hnumber), fun key => ?_⟩
    rw [← hrow₁ key, ← hrow₂ key]
    split
    · next heq =>
      obtain rfl := Option.some.inj heq
      rw [hrow₂]
      simp [Session.row]
    · next hne =>
      dsimp only [Session.row]
      rw [update_of_ne fun h => hne (congrArg some h.symm)]

end

/-! ## What a session owes to the accounts -/

/-- From `s` to `s'` the disk has got what the accounts add, and each container what those of its
own bios add. -/
structure Credited (config : Config) (target : Target δ) (s s' : Session β δ)
    (accounts : List (Account β)) : Prop where
  host : ∀ host, s.blkdiskLatMap target.disk = some host → ∃ counters,
    s'.blkdiskLatMap target.disk =
      some { host with counters := update host.counters target.operation counters } ∧
    Adds config accounts (host.counters target.operation) counters
  containers : ∀ serial, s.Groups serial →
    (∀ account ∈ accounts, account.event.Identifies serial) →
    s'.Groups serial ∧ ∀ key,
      Adds config (accounts.filter fun account =>
        containerKey config serial target account.bio = some key) (s.row key) (s'.row key)

section

variable {config : Config} {target : Target δ} {s s' s'' : Session β δ}
  {accounts accounts' : List (Account β)}

/-- A change of the status only. -/
theorem Credited.of_eq (hdisks : s'.blkdiskLatMap = s.blkdiskLatMap)
    (hrows : s'.blkcgLatMap = s.blkcgLatMap) (hgroups : s'.groupMap = s.groupMap) :
    Credited config target s s' [] where
  host := fun host hhost => ⟨host.counters target.operation, by
    rw [hdisks, hhost, update_eq_self], .refl⟩
  containers := fun serial hserial _ =>
    ⟨fun css number hnumber => hserial css number (hgroups ▸ hnumber), fun key => by
      rw [Session.row, Session.row, hrows]
      exact .refl⟩

theorem Credited.refl : Credited config target s s [] := .of_eq rfl rfl rfl

theorem Credited.trans (h : Credited config target s s' accounts)
    (h' : Credited config target s' s'' accounts') :
    Credited config target s s'' (accounts ++ accounts') where
  host := by
    intro host hhost
    obtain ⟨counters, hhost', hadds⟩ := h.host host hhost
    obtain ⟨counters', hhost'', hadds'⟩ := h'.host _ hhost'
    refine ⟨counters', ?_, ?_⟩
    · rw [hhost'', update_idem]
    · refine hadds.trans ?_
      simpa only [update_self] using hadds'
  containers := by
    intro serial hserial hevents
    rw [forall_mem_append] at hevents
    obtain ⟨hserial', hrows⟩ := h.containers serial hserial hevents.1
    obtain ⟨hserial'', hrows'⟩ := h'.containers serial hserial' hevents.2
    refine ⟨hserial'', fun key => ?_⟩
    rw [filter_append]
    exact (hrows key).trans (hrows' key)

theorem Credited.fail (failure : Failure) (error : Int32) :
    Credited config target s (s.ioLatencyFail failure error) [] := by
  unfold Session.ioLatencyFail
  split
  · exact .refl
  · exact .of_eq rfl rfl rfl

end

/-- Containers have maps of their own. -/
theorem blkdiskLatMap_accountCompletedContainer (s : Session β δ) (config : Config)
    (event : Event β) (bio : Bio β) (disk : UInt64) (operation : UInt32) (buckets : UInt64) :
    (s.accountCompletedContainer config event bio disk operation buckets).blkdiskLatMap =
      s.blkdiskLatMap := by
  have hserial (css : UInt64) :
      (s.ioLatencyCssSerial event bio.address css).2.blkdiskLatMap = s.blkdiskLatMap := by
    unfold Session.ioLatencyCssSerial Session.ioLatencyFail
    dsimp only
    split_ifs <;> split <;> rfl
  have hidentity : (s.ioLatencyBioIdentity config event bio).2.blkdiskLatMap =
      s.blkdiskLatMap := by
    unfold Session.ioLatencyBioIdentity
    dsimp only
    split_ifs
    · rfl
    · exact hserial _
    · exact hserial _
  have hlookup (s : Session β δ) (key : ContainerKey) :
      (s.lookupContainerCounters event bio.address key).2.blkdiskLatMap = s.blkdiskLatMap := by
    unfold Session.lookupContainerCounters
    dsimp only
    split_ifs <;> (try split) <;> rfl
  unfold Session.accountCompletedContainer
  split
  · rfl
  dsimp only
  split
  · exact (hlookup _ _).trans hidentity
  · exact (hlookup _ _).trans hidentity

def completionOf (event : Event β) (disk : UInt64) (operation : UInt32) (host : δ) :
    Completion δ where
  disk
  operation
  host
  getRequestNs := event.startTimeNs
  issueNs := event.ioStartTimeNs
  now := event.now
  d2cBucket := ioLatencyBucket event.ioStartTimeNs event.now false

theorem latencyBucket_lt (config : Config) (event : Event β) (bio : Bio β) (stage : Stage) :
    ∀ b ∈ latencyBucket config event bio stage, b < latencyBuckets := by
  have haccounted (bucket : Option Nat) : ∀ b ∈ accountedBucket bucket, b < latencyBuckets :=
    fun b hb => of_decide_eq_true (Option.filter_eq_some_iff.1 hb).2
  cases stage <;> exact haccounted _

theorem sizeBucket_lt (issuedBytes : UInt64) : ∀ b ∈ sizeBucket issuedBytes, b < sizeBuckets := by
  intro b hb
  unfold sizeBucket at hb
  split at hb
  · cases hb
  · cases hb
    exact ioSizeBucket_lt _

/-- The accounts of the bios that an event completes: the first one has the size of the request. -/
def accountsOf (index : Nat) (event : Event β) (issuedBytes : UInt64) :
    List (Bio β) → List (Account β)
  | [] => []
  | bio :: next => ⟨index, event, bio, issuedBytes⟩ :: next.map (⟨index, event, ·, 0⟩)

section

variable [DecidableEq δ] {config : Config} {event : Event β} {target : Target δ}
  {disk : UInt64} {s : Session β δ}

/-- Without a time of the submission the code does not look for a bucket, and there is none. -/
theorem completeBioLatency_eq (bio : Bio β) (operation : UInt32) (host : δ) (issuedBytes : UInt64)
    {bucket : Stage → Option Nat} (hbucket : latencyBucket config event bio = bucket) :
    s.completeBioLatency config event bio (completionOf event disk operation host) issuedBytes =
      (s.updateHost host operation fun counters =>
        (((counters.accountSize (sizeBucket issuedBytes)).accountLatency .d2c
          (bucket .d2c)).accountLatency .q2g (bucket .q2g)).accountLatency .q2d
            (bucket .q2d)).accountCompletedContainer config event bio disk operation
        (packBucket (bucket .q2g) ||| packBucket (bucket .q2d) <<< 8 |||
          packBucket (bucket .d2c) <<< 16 ||| packBucket (sizeBucket issuedBytes) <<< 24) := by
  have hqueued (endNs : UInt64) :
      (if ioLatencyBioQueueNs config bio event.now = 0 then none else
        accountedBucket (ioLatencyBucket (ioLatencyBioQueueNs config bio event.now) endNs true)) =
      accountedBucket (ioLatencyBucket (ioLatencyBioQueueNs config bio event.now) endNs true) := by
    split
    · next hzero => simp [hzero, ioLatencyBucket, accountedBucket]
    · rfl
  subst hbucket
  unfold Session.completeBioLatency completionOf
  dsimp only
  rw [hqueued, hqueued]
  rfl

/-- **One bio.** It is counted in one bucket of each histogram, for the disk and for its
container. -/
theorem credited_completeBioLatency (index : Nat) (bio : Bio β) (issuedBytes : UInt64)
    (hmajor : (disk >>> 32).toUInt32 = target.major) (hminor : disk.toUInt32 = target.minor) :
    Credited config target s
      (s.completeBioLatency config event bio
        (completionOf event disk target.operation target.disk) issuedBytes)
      [⟨index, event, bio, issuedBytes⟩] := by
  obtain ⟨bucket, hbucket⟩ : ∃ bucket, latencyBucket config event bio = bucket := ⟨_, rfl⟩
  rw [completeBioLatency_eq bio _ _ _ hbucket]
  constructor
  · intro host hhost
    refine ⟨_, ?_, adds_host ⟨index, event, bio, issuedBytes⟩ bucket hbucket⟩
    rw [blkdiskLatMap_accountCompletedContainer]
    simp only [Session.updateHost, update_self, hhost, Option.map_some]
  · intro serial hgroups hevent
    generalize hcounted : Session.accountCompletedContainer _ _ _ _ _ _ _ = s'
    obtain ⟨hgroups', hrows⟩ := accountCompletedContainer_spec hcounted hgroups
      (hevent _ mem_cons_self) hmajor hminor (hbucket ▸ latencyBucket_lt config event bio)
      (sizeBucket_lt issuedBytes)
    refine ⟨hgroups', fun key => ?_⟩
    rw [hrows key]
    by_cases hkey : containerKey config serial target bio = some key
    · rw [if_pos hkey, filter_cons_of_pos (by simpa using hkey)]
      exact adds_container ⟨index, event, bio, issuedBytes⟩ bucket hbucket
    · rw [if_neg hkey, filter_cons_of_neg (by simpa using hkey)]
      exact .refl

/-- The calls for some bios, none of which has the size of the request. -/
def Session.completeBios (s : Session β δ) (config : Config) (event : Event β)
    (completion : Completion δ) (bios : List (Bio β)) : Session β δ :=
  bios.foldl (fun s bio => s.completeBioLatency config event bio completion 0) s

theorem credited_completeBios (index : Nat) (bios : List (Bio β))
    (hmajor : (disk >>> 32).toUInt32 = target.major) (hminor : disk.toUInt32 = target.minor) :
    Credited config target s
      (s.completeBios config event (completionOf event disk target.operation target.disk) bios)
      (bios.map (⟨index, event, ·, 0⟩)) := by
  induction bios generalizing s with
  | nil => exact .refl
  | cons bio bios ih =>
    exact (credited_completeBioLatency index bio 0 hmajor hminor).trans ih

end

/-! ## Chunks -/

section

variable [DecidableEq δ] {config : Config} {event : Event β} {completion : Completion δ}
  {s : Session β δ}

theorem completeBioChunk_nil (limit : Nat) (remaining : UInt32) :
    completeBioChunk config event completion limit ⟨[], remaining⟩ s =
      (s, some ⟨[], remaining⟩) := by
  cases limit <;> rfl

theorem completeBioChunk_add (m n : Nat) (cursor : Cursor β) :
    completeBioChunk config event completion (m + n) cursor s =
      match completeBioChunk config event completion m cursor s with
      | (s, none) => (s, none)
      | (s, some cursor) => completeBioChunk config event completion n cursor s := by
  induction m generalizing cursor s with
  | zero => rw [Nat.zero_add, completeBioChunk]
  | succ m ih =>
    obtain ⟨_ | ⟨bio, next⟩, remaining⟩ := cursor
    · rw [completeBioChunk_nil, completeBioChunk_nil]
      exact (completeBioChunk_nil n remaining).symm
    · rw [Nat.add_right_comm, completeBioChunk, completeBioChunk]
      split
      · rfl
      dsimp only
      split
      · rfl
      · exact ih _

/-- The chunks are one walk. -/
theorem completeBioChunks_eq (limits : List Nat) (cursor : Cursor β) :
    completeBioChunks config event completion limits cursor s =
      completeBioChunk config event completion limits.sum cursor s := by
  induction limits generalizing cursor s with
  | nil => rfl
  | cons limit limits ih =>
    rw [completeBioChunks, sum_cons, completeBioChunk_add]
    split
    · next hemp =>
      obtain ⟨bios, remaining⟩ := cursor
      cases List.isEmpty_iff.1 hemp
      rw [completeBioChunk_nil]
      exact (completeBioChunk_nil _ remaining).symm
    · generalize completeBioChunk config event completion limit cursor s = result
      obtain ⟨s', _ | cursor'⟩ := result
      · rfl
      · exact ih _

theorem sum_chunkLimit : ((List.range completionChunkCount).map chunkLimit).sum = 511 := by decide

omit [DecidableEq δ] in
theorem toNat_sub_size {bio : Bio β} {remaining : UInt32} (h : ¬ bio.size > remaining) :
    (remaining - bio.size).toNat = remaining.toNat - bio.size.toNat :=
  UInt32.toNat_sub_of_le _ _ (UInt32.not_lt.1 h)

/-- **The walk.** It accounts the bios that the bytes complete, up to the limit, and goes on only if
the bytes reach beyond the limit. -/
theorem completeBioChunk_spec (config : Config) (event : Event β) (completion : Completion δ)
    (s : Session β δ) (limit : Nat) {bios : List (Bio β)} {remaining : UInt32}
    (hpositive : ∀ size ∈ sizes bios, 0 < size) (hrem : remaining ≠ 0)
    (hbytes : remaining.toNat ≤ (sizes bios).sum) :
    ∃ outcome, completeBioChunk config event completion limit ⟨bios, remaining⟩ s =
        (s.completeBios config event completion
          (bios.take (min limit (Segments.whole remaining.toNat (sizes bios)))), outcome) ∧
      (((sizes bios).take limit).sum < remaining.toNat →
        ∃ cursor, outcome = some cursor ∧ cursor.bios ≠ []) ∧
      (remaining.toNat ≤ ((sizes bios).take limit).sum → outcome = none) := by
  induction limit generalizing bios remaining s with
  | zero =>
    have hpos : 0 < remaining.toNat := Nat.pos_of_ne_zero fun h => hrem (UInt32.toNat_inj.1 h)
    refine ⟨some ⟨bios, remaining⟩, by rw [Nat.zero_min]; rfl, fun _ => ⟨_, rfl, fun hnil => ?_⟩,
      fun hle => absurd hle (Nat.not_le.2 hpos)⟩
    cases hnil
    exact absurd hbytes (Nat.not_le.2 hpos)
  | succ limit ih =>
    cases bios with
    | nil =>
      have hzero : remaining.toNat = 0 := Nat.le_zero.1 hbytes
      exact absurd (UInt32.toNat_inj.1 hzero) hrem
    | cons bio next =>
      simp only [sizes, map_cons, sum_cons, forall_mem_cons] at hbytes hpositive
      rw [completeBioChunk]
      simp only [sizes, map_cons, Segments.whole, take_succ_cons, sum_cons]
      split
      · next hsize =>
        have hlt : remaining.toNat < bio.size.toNat := UInt32.lt_iff_toNat_lt.1 hsize
        rw [if_neg (Nat.not_le.2 hlt)]
        exact ⟨none, rfl, fun hbeyond => by omega, fun _ => rfl⟩
      · next hsize =>
        have hle : bio.size.toNat ≤ remaining.toNat :=
          UInt32.le_iff_toNat_le.1 (UInt32.not_lt.1 hsize)
        rw [if_pos hle, Nat.add_min_add_right, take_succ_cons]
        have hsub := toNat_sub_size hsize
        split
        · next hzero =>
          rw [hzero] at hsub
          have heq : remaining.toNat - bio.size.toNat = 0 := hsub.symm
          rw [heq, Segments.whole_zero hpositive.2, Nat.min_zero, take_zero]
          exact ⟨none, rfl, fun hbeyond => by omega, fun _ => rfl⟩
        · next hrest =>
          obtain ⟨outcome, hwalk, hbeyond, hwithin⟩ :=
            ih (s.completeBioLatency config event bio completion 0) hpositive.2 hrest
              (by rw [hsub]; exact Nat.sub_le_iff_le_add'.2 hbytes)
          rw [hsub] at hwalk hbeyond hwithin
          exact ⟨outcome, hwalk, fun hlt => hbeyond (Nat.lt_sub_iff_add_lt'.2 hlt),
            fun hle => hwithin (Nat.sub_le_iff_le_add'.2 hle)⟩

end

/-! ## One event -/

/-- What the kernel guarantees about a request of reads or writes. -/
structure Request.Valid (req : Request β δ) : Prop where
  readWrite : req.operation = reqOpRead ∨ req.operation = reqOpWrite
  distinct : (req.bios.map Bio.address).Nodup
  positive : ∀ size ∈ sizes req.bios, 0 < size
  dataLen : req.dataLen.toNat = (sizes req.bios).sum

/-- The size of a request as it was issued, as far as the last event tells. -/
def Event.dispatchBytes (event : Event β) (scsi : UInt64) : UInt64 :=
  if scsi ≠ 0 then event.statsSectors.toUInt64 <<< 9 else event.bytes.toUInt64

def Event.issuedBytes (event : Event β) (scsi : UInt64) (req : Request β δ) : UInt64 :=
  if event.bytes ≥ req.dataLen ∧ event.ioStartTimeNs ≠ 0 then event.dispatchBytes scsi else 0

/-- The bios that the bytes of an event complete. -/
def completed (event : Event β) (req : Request β δ) : Nat :=
  Segments.whole event.bytes.toNat (sizes req.bios)

def eventAccounts (scsi : UInt64) (index : Nat) (event : Event β) (req : Request β δ) :
    List (Account β) :=
  accountsOf index event (event.issuedBytes scsi req)
    (req.bios.take (min requestScanBudget (completed event req)))

theorem tail_of_single {bio : Bio β} {next : List (Bio β)}
    (hdistinct : ((bio :: next).map Bio.address).Nodup)
    (htail : (bio :: next).getLast?.map Bio.address = some bio.address) : next = [] := by
  cases next with
  | nil => rfl
  | cons second rest =>
    rw [List.getLast?_cons_cons, Option.map_eq_some_iff] at htail
    obtain ⟨last, hlast, hadd⟩ := htail
    have hmem : bio.address ∈ (second :: rest).map Bio.address :=
      mem_map.2 ⟨last, mem_of_getLast? hlast, hadd⟩
    exact absurd hmem (nodup_cons.1 hdistinct).1

section

variable [DecidableEq β] [DecidableEq δ] {config : Config} {event : Event β} {req : Request β δ}
  {s : Session β δ} {disk : δ} {host : HostCounters}

theorem traceRequestComplete_eq {bio : Bio β} {next : List (Bio β)} {completion : Completion δ}
    {first : Session β δ} (hreadWrite : req.operation = reqOpRead ∨ req.operation = reqOpWrite)
    (hdisk : req.disk = some disk) (hhost : s.blkdiskLatMap disk = some host)
    (hbytes : event.bytes ≠ 0) (hbios : req.bios = bio :: next)
    (hcompletion : completionOf event (host.major.toUInt64 <<< 32 ||| host.minor.toUInt64)
      req.operation disk = completion)
    (hfirst : s.completeBioLatency config event bio completion (event.issuedBytes host.scsi req) =
      first) :
    traceRequestComplete config event req s =
      if event.bytes = req.dataLen ∧
          (if config.readsTail then (bio :: next).getLast?.map Bio.address else none) =
            some bio.address then
        first
      else if bio.size > event.bytes then s
      else if event.bytes - bio.size = 0 then first
      else
        match completeBioChunk config event completion 511 ⟨next, event.bytes - bio.size⟩ first with
        | (s, none) => s
        | (s, some cursor) =>
          if cursor.bios.isEmpty then s else s.ioLatencyFail .chainOverflow 0 := by
  have hoperation : ¬ (req.operation ≠ reqOpRead ∧ req.operation ≠ reqOpWrite) := by
    obtain h | h := hreadWrite <;> simp [h]
  subst hcompletion hfirst
  simp only [traceRequestComplete, if_neg hbytes, if_neg hoperation, hdisk, hhost, hbios,
    completeBioChunks_eq, sum_chunkLimit]
  rfl

/-- **One event.** It accounts the bios that its bytes complete, up to 512 of them, and reports an
overflow if the bytes reach beyond these. -/
theorem traceRequestComplete_spec (config : Config) (index : Nat) (hreq : req.Valid)
    (hdisk : req.disk = some disk) (hhost : s.blkdiskLatMap disk = some host)
    (hbytes : event.bytes ≠ 0) (hle : event.bytes.toNat ≤ (sizes req.bios).sum) :
    Credited config ⟨disk, host.major, host.minor, req.operation⟩ s
        (traceRequestComplete config event req s) (eventAccounts host.scsi index event req) ∧
      (((sizes req.bios).take requestScanBudget).sum < event.bytes.toNat →
        (traceRequestComplete config event req s).failure =
          Failure.chainOverflow.reason <<< 32) := by
  obtain ⟨hreadWrite, hdistinct, hpositive, hdataLen⟩ := hreq
  have hpos : 0 < event.bytes.toNat := Nat.pos_of_ne_zero fun h => hbytes (UInt32.toNat_inj.1 h)
  cases hbios : req.bios with
  | nil =>
    rw [hbios] at hle
    exact absurd hle (Nat.not_le.2 hpos)
  | cons bio next =>
    obtain ⟨hmajor, hminor⟩ := unpack_disk host.major host.minor
    obtain ⟨completion, hcompletion⟩ : ∃ completion, completionOf event
      (host.major.toUInt64 <<< 32 ||| host.minor.toUInt64) req.operation disk = completion :=
      ⟨_, rfl⟩
    obtain ⟨first, hfirst⟩ : ∃ first, s.completeBioLatency config event bio completion
      (event.issuedBytes host.scsi req) = first := ⟨_, rfl⟩
    rw [traceRequestComplete_eq hreadWrite hdisk hhost hbytes hbios hcompletion hfirst]
    have hcredited : Credited config ⟨disk, host.major, host.minor, req.operation⟩ s first
        [⟨index, event, bio, event.issuedBytes host.scsi req⟩] := by
      subst hfirst hcompletion
      exact credited_completeBioLatency index bio _ hmajor hminor
    have hnext (bios : List (Bio β)) :
        Credited config ⟨disk, host.major, host.minor, req.operation⟩ first
          (first.completeBios config event completion bios) (bios.map (⟨index, event, ·, 0⟩)) := by
      subst hcompletion
      exact credited_completeBios index bios hmajor hminor
    rw [eventAccounts, completed, hbios]
    rw [hbios] at hdistinct hpositive hdataLen hle
    simp only [sizes, map_cons, sum_cons, forall_mem_cons] at hpositive hdataLen hle
    simp only [sizes, map_cons, Segments.whole]
    have htake :
        ((bio.size.toNat :: next.map fun bio => bio.size.toNat).take requestScanBudget).sum =
          bio.size.toNat + ((next.map fun bio => bio.size.toNat).take 511).sum := rfl
    rw [htake]
    generalize htail :
      (if config.readsTail then (bio :: next).getLast?.map Bio.address else none) = tail
    split
    · next hsingle =>
      obtain ⟨hall, rfl⟩ := hsingle
      obtain rfl : next = [] := by
        split at htail
        · exact tail_of_single hdistinct htail
        · cases htail
      have hsize : event.bytes.toNat = bio.size.toNat := by rw [hall, hdataLen]; rfl
      rw [if_pos (le_of_eq hsize.symm)]
      exact ⟨hcredited, fun hbeyond => by omega⟩
    · split
      · next hsize =>
        have hlt : event.bytes.toNat < bio.size.toNat := UInt32.lt_iff_toNat_lt.1 hsize
        rw [if_neg (Nat.not_le.2 hlt), Nat.min_zero]
        exact ⟨.refl, fun hbeyond => by omega⟩
      · next hsize =>
        have hsub := toNat_sub_size hsize
        have hfits : bio.size.toNat ≤ event.bytes.toNat :=
          UInt32.le_iff_toNat_le.1 (UInt32.not_lt.1 hsize)
        rw [if_pos hfits, show requestScanBudget = 511 + 1 from rfl, Nat.add_min_add_right,
          take_succ_cons, ← hsub]
        split
        · next hzero =>
          have heq : event.bytes.toNat - bio.size.toNat = 0 := by rw [← hsub, hzero]; rfl
          rw [hsub, heq, Segments.whole_zero hpositive.2, Nat.min_zero, take_zero]
          exact ⟨hcredited, fun hbeyond => by omega⟩
        · next hrest =>
          obtain ⟨outcome, hwalk, hbeyond, hwithin⟩ :=
            completeBioChunk_spec config event completion first 511 hpositive.2 hrest
              (by rw [hsub]; exact Nat.sub_le_iff_le_add'.2 hle)
          rw [hwalk]
          have hall := hcredited.trans (hnext
            (next.take (min 511 (Segments.whole (event.bytes - bio.size).toNat (sizes next)))))
          by_cases hreach : ((sizes next).take 511).sum < (event.bytes - bio.size).toNat
          · obtain ⟨cursor, rfl, hcursor⟩ := hbeyond hreach
            dsimp only
            rw [if_neg (mt List.isEmpty_iff.1 hcursor)]
            have hfail := hall.trans (.fail .chainOverflow 0)
            rw [append_nil] at hfail
            exact ⟨hfail, fun _ => rfl⟩
          · obtain rfl := hwithin (Nat.not_lt.1 hreach)
            exact ⟨hall, fun hlt => absurd (hsub ▸ Nat.lt_sub_iff_add_lt'.2 hlt) hreach⟩

end

/-! ## All events of a request -/

theorem sizes_advance (bytes : UInt32) (bios : List (Bio β)) :
    sizes (advance bytes bios) = Segments.rest bytes.toNat (sizes bios) := by
  induction bios generalizing bytes with
  | nil => rfl
  | cons bio bios ih =>
    rw [advance, sizes_cons, Segments.rest]
    split
    · next hsize =>
      rw [if_pos (UInt32.le_iff_toNat_le.1 hsize), ← UInt32.toNat_sub_of_le _ _ hsize]
      exact ih _
    · next hsize =>
      have hle : bytes ≤ bio.size := UInt32.le_of_lt (UInt32.not_le.1 hsize)
      rw [if_neg (mt UInt32.le_iff_toNat_le.2 hsize), ← UInt32.toNat_sub_of_le _ _ hle]
      rfl

/-- What a partial completion leaves of a bio: its address, its time and its container. -/
def Bio.fixed (bio : Bio β) : β × UInt64 × UInt64 := (bio.address, bio.stamp, bio.blkcg)

theorem map_fixed_advance (bytes : UInt32) (bios : List (Bio β)) :
    (advance bytes bios).map Bio.fixed =
      (bios.map Bio.fixed).drop (Segments.whole bytes.toNat (sizes bios)) := by
  induction bios generalizing bytes with
  | nil => rfl
  | cons bio bios ih =>
    rw [advance, sizes_cons, Segments.whole]
    split
    · next hsize =>
      rw [if_pos (UInt32.le_iff_toNat_le.1 hsize), ← UInt32.toNat_sub_of_le _ _ hsize]
      exact ih _
    · next hsize =>
      rw [if_neg (mt UInt32.le_iff_toNat_le.2 hsize)]
      rfl

theorem Request.Valid.advance {req : Request β δ} (h : req.Valid) {bytes : UInt32}
    (hle : bytes.toNat ≤ (sizes req.bios).sum) : (req.advance bytes).Valid where
  readWrite := h.readWrite
  distinct := by
    have haddress := congrArg (map Prod.fst) (map_fixed_advance bytes req.bios)
    rw [map_drop, map_map, map_map] at haddress
    change ((IoLatency.advance bytes req.bios).map (Prod.fst ∘ Bio.fixed)).Nodup
    rw [haddress]
    exact h.distinct.drop
  positive := by
    rw [Request.advance, sizes_advance]
    exact Segments.pos_of_mem_rest h.positive
  dataLen := by
    rw [Request.advance, sizes_advance, Segments.sum_rest hle, ← h.dataLen]
    exact UInt32.toNat_sub_of_le _ _ (UInt32.le_iff_toNat_le.2 (h.dataLen ▸ hle))

/-- The bytes of some events. -/
def bytesOf (events : List (Event β)) : Nat := (events.map fun event => event.bytes.toNat).sum

def requestAccounts (scsi : UInt64) : Nat → List (Event β) → Request β δ → List (Account β)
  | _, [], _ => []
  | index, event :: events, req =>
    eventAccounts scsi index event req ++
      requestAccounts scsi (index + 1) events (req.advance event.bytes)

/-- What is left of a request has room for the other events. -/
theorem bytesOf_le_advance {event : Event β} {events : List (Event β)} {req : Request β δ}
    (hle : bytesOf (event :: events) ≤ (sizes req.bios).sum) :
    event.bytes.toNat ≤ (sizes req.bios).sum ∧
      bytesOf events ≤ (sizes (req.advance event.bytes).bios).sum := by
  rw [bytesOf, map_cons, sum_cons] at hle
  have hev : event.bytes.toNat ≤ (sizes req.bios).sum := (Nat.le_add_right _ _).trans hle
  refine ⟨hev, ?_⟩
  rw [Request.advance, sizes_advance, Segments.sum_rest hev]
  exact Nat.le_sub_of_add_le' hle

section

variable [DecidableEq β] [DecidableEq δ] {events : List (Event β)} {req : Request β δ}
  {s : Session β δ} {disk : δ} {host : HostCounters}

theorem credited_complete (config : Config) (index : Nat) (hreq : req.Valid)
    (hdisk : req.disk = some disk) (hhost : s.blkdiskLatMap disk = some host)
    (hbytes : ∀ event ∈ events, event.bytes ≠ 0) (hle : bytesOf events ≤ (sizes req.bios).sum) :
    Credited config ⟨disk, host.major, host.minor, req.operation⟩ s (complete config events req s)
      (requestAccounts host.scsi index events req) := by
  induction events generalizing index req s host with
  | nil => exact .refl
  | cons event events ih =>
    rw [forall_mem_cons] at hbytes
    obtain ⟨hev, hrest⟩ := bytesOf_le_advance hle
    obtain ⟨hcredited, -⟩ :=
      traceRequestComplete_spec config index hreq hdisk hhost hbytes.1 hev
    obtain ⟨counters, hhost', -⟩ := hcredited.host host hhost
    have hlater := ih (index + 1) (hreq.advance hev) hdisk hhost' hbytes.2 hrest
    exact hcredited.trans hlater

end

section

variable {scsi : UInt64} {index : Nat} {event : Event β} {events : List (Event β)}
  {req : Request β δ}

theorem bytesOf_cons (event : Event β) (events : List (Event β)) :
    bytesOf (event :: events) = event.bytes.toNat + bytesOf events := rfl

/-- What an account tells of its bio. -/
def Account.fixed (account : Account β) : β × UInt64 × UInt64 := account.bio.fixed

theorem map_fixed_eventAccounts :
    (eventAccounts scsi index event req).map Account.fixed =
      (req.bios.map Bio.fixed).take (min requestScanBudget (completed event req)) := by
  rw [eventAccounts, ← map_take]
  cases req.bios.take (min requestScanBudget (completed event req)) with
  | nil => rfl
  | cons bio next => simp [accountsOf, Account.fixed, Function.comp_def]

/-- No bio is accounted twice. -/
theorem sublist_requestAccounts (scsi : UInt64) (index : Nat) (events : List (Event β))
    (req : Request β δ) :
    ((requestAccounts scsi index events req).map Account.fixed).Sublist
      (req.bios.map Bio.fixed) := by
  induction events generalizing index req with
  | nil => exact nil_sublist _
  | cons event events ih =>
    rw [requestAccounts, map_append, map_fixed_eventAccounts]
    have hrest : ((requestAccounts scsi (index + 1) events (req.advance event.bytes)).map
        Account.fixed).Sublist ((req.bios.map Bio.fixed).drop (completed event req)) := by
      rw [completed, ← map_fixed_advance]
      exact ih _ _
    have hfirst :
        ((req.bios.map Bio.fixed).take (min requestScanBudget (completed event req))).Sublist
          ((req.bios.map Bio.fixed).take (completed event req)) :=
      (take_prefix_take_left (Nat.min_le_right _ _)).sublist
    simpa only [take_append_drop] using hfirst.append hrest

/-- If an event cannot complete more than 512 bios, every bio is accounted. -/
theorem map_fixed_requestAccounts (hreq : req.Valid) (hbudget : req.bios.length ≤ requestScanBudget)
    (hsplit : bytesOf events = (sizes req.bios).sum) :
    (requestAccounts scsi index events req).map Account.fixed = req.bios.map Bio.fixed := by
  induction events generalizing index req with
  | nil =>
    cases hbios : req.bios with
    | nil => rfl
    | cons bio bios =>
      have hpos : 0 < bio.size.toNat := hreq.positive _ (by rw [hbios]; exact mem_cons_self)
      have hzero : 0 = bio.size.toNat + (sizes bios).sum := by rwa [hbios] at hsplit
      omega
  | cons event events ih =>
    have hcomp : completed event req ≤ req.bios.length :=
      (Segments.whole_le_length _ _).trans (le_of_eq (length_map _))
    obtain ⟨hev, -⟩ := bytesOf_le_advance (le_of_eq hsplit)
    rw [requestAccounts, map_append, map_fixed_eventAccounts,
      Nat.min_eq_right (hcomp.trans hbudget), ih (hreq.advance hev), Request.advance,
      map_fixed_advance]
    · exact take_append_drop _ _
    · have hlen := congrArg List.length (map_fixed_advance event.bytes req.bios)
      rw [length_map, length_drop, length_map] at hlen
      exact hlen.le.trans ((Nat.sub_le _ _).trans hbudget)
    · rw [bytesOf_cons] at hsplit
      rw [Request.advance, sizes_advance, Segments.sum_rest hev]
      omega

/-- The bytes of event `j` end at or after the last byte of bio `i`, and those before it do not. -/
def Completes (events : List (Event β)) (bios : List (Bio β)) (j i : Nat) : Prop :=
  bytesOf (events.take j) < ((sizes bios).take (i + 1)).sum ∧
    ((sizes bios).take (i + 1)).sum ≤ bytesOf (events.take (j + 1))

theorem completes_zero (event : Event β) (events : List (Event β))
    (hpositive : ∀ size ∈ sizes req.bios, 0 < size) {i : Nat} (hi : i < req.bios.length) :
    Completes (event :: events) req.bios 0 i ↔ i < completed event req := by
  have hlen : i < (sizes req.bios).length := (length_map _).symm ▸ hi
  rw [completed, Segments.lt_whole_iff hlen]
  exact ⟨And.right, fun hle => ⟨Segments.sum_take_pos hpositive hlen, hle⟩⟩

theorem completes_succ (hev : event.bytes.toNat ≤ (sizes req.bios).sum) {i j : Nat}
    (hi : completed event req + i < req.bios.length) :
    Completes (event :: events) req.bios (j + 1) (completed event req + i) ↔
      Completes events (req.advance event.bytes).bios j i := by
  have hsum : ((sizes req.bios).take (completed event req + i + 1)).sum =
      event.bytes.toNat +
        ((Segments.rest event.bytes.toNat (sizes req.bios)).take (i + 1)).sum := by
    obtain hsum | hall := Segments.sum_take_rest i hev
    · exact hsum
    · rw [sizes, length_map] at hall
      exact absurd ((Nat.le_add_right _ i).trans_lt hi) (Nat.not_lt.2 hall)
  rw [Completes, Completes, hsum, take_succ_cons, take_succ_cons, bytesOf_cons, bytesOf_cons,
    Request.advance, sizes_advance, Nat.add_lt_add_iff_left, Nat.add_le_add_iff_left]

theorem of_mem_eventAccounts {account : Account β}
    (h : account ∈ eventAccounts scsi index event req) :
    account.index = index ∧ account.event = event := by
  unfold eventAccounts at h
  cases hbios : req.bios.take (min requestScanBudget (completed event req)) with
  | nil =>
    rw [hbios] at h
    cases h
  | cons bio next =>
    rw [hbios, accountsOf, mem_cons] at h
    obtain rfl | h := h
    · exact ⟨rfl, rfl⟩
    · obtain ⟨other, -, rfl⟩ := mem_map.1 h
      exact ⟨rfl, rfl⟩

/-- A bio is accounted at the event that completes it. -/
theorem mem_requestAccounts (hreq : req.Valid) (hle : bytesOf events ≤ (sizes req.bios).sum)
    {account : Account β} (h : account ∈ requestAccounts scsi index events req) :
    ∃ j i, account.index = index + j ∧ events[j]? = some account.event ∧
      (req.bios.map Bio.fixed)[i]? = some account.fixed ∧ Completes events req.bios j i := by
  induction events generalizing index req with
  | nil => cases h
  | cons event events ih =>
    obtain ⟨hev, hrest⟩ := bytesOf_le_advance hle
    rw [requestAccounts, mem_append] at h
    obtain hfirst | hlater := h
    · have hbio : account.fixed ∈ (req.bios.map Bio.fixed).take
          (min requestScanBudget (completed event req)) :=
        map_fixed_eventAccounts ▸ mem_map_of_mem hfirst
      obtain ⟨i, hi⟩ := mem_iff_getElem?.1 hbio
      rw [List.getElem?_take] at hi
      split at hi
      · next hlt =>
        have hlen : i < req.bios.length := by
          rw [← length_map (f := Bio.fixed)]
          exact (List.getElem?_eq_some_iff.1 hi).1
        obtain ⟨hindex, hevent⟩ := of_mem_eventAccounts hfirst
        exact ⟨0, i, hindex, congrArg some hevent.symm, hi,
          (completes_zero event events hreq.positive hlen).2
            (Nat.lt_of_lt_of_le hlt (Nat.min_le_right _ _))⟩
      · cases hi
    · obtain ⟨j, i, hj, hevent, hi, hcompletes⟩ := ih (hreq.advance hev) hrest hlater
      rw [Request.advance, map_fixed_advance, List.getElem?_drop] at hi
      have hlen : completed event req + i < req.bios.length := by
        rw [← length_map (f := Bio.fixed)]
        exact (List.getElem?_eq_some_iff.1 hi).1
      exact ⟨j + 1, completed event req + i, by rw [hj]; omega, hevent, hi,
        (completes_succ hev hlen).2 hcompletes⟩

theorem issued_accountsOf (issuedBytes : UInt64) (bios : List (Bio β)) :
    ((accountsOf index event issuedBytes bios).filter fun account =>
        account.issuedBytes ≠ 0).map (fun account => (account.index, account.issuedBytes)) =
      if issuedBytes ≠ 0 ∧ bios ≠ [] then [(index, issuedBytes)] else [] := by
  cases bios with
  | nil => simp [accountsOf]
  | cons bio next =>
    have hnext : (next.map fun bio => Account.mk index event bio 0).filter
        (fun account => account.issuedBytes ≠ 0) = [] := by
      refine filter_eq_nil_iff.2 fun account haccount => ?_
      obtain ⟨other, -, rfl⟩ := mem_map.1 haccount
      simp
    rw [accountsOf, filter_cons, hnext]
    by_cases hissued : issuedBytes = 0 <;> simp [hissued]

/-- The size of the request is counted once, at the last event. -/
theorem issued_requestAccounts (hreq : req.Valid) (hbytes : ∀ event ∈ events, event.bytes ≠ 0)
    {last : Event β} (hlast : events.getLast? = some last)
    (hsplit : bytesOf events = (sizes req.bios).sum) :
    ((requestAccounts scsi index events req).filter fun account => account.issuedBytes ≠ 0).map
        (fun account => (account.index, account.issuedBytes)) =
      if last.ioStartTimeNs ≠ 0 ∧ last.dispatchBytes scsi ≠ 0 then
        [(index + (events.length - 1), last.dispatchBytes scsi)]
      else [] := by
  induction events generalizing index req with
  | nil => cases hlast
  | cons event events ih =>
    rw [requestAccounts, filter_append, map_append, eventAccounts, issued_accountsOf]
    rw [bytesOf_cons] at hsplit
    cases events with
    | nil =>
      cases hlast
      have hall : event.bytes.toNat = (sizes req.bios).sum := hsplit
      have hdataLen : event.bytes = req.dataLen := UInt32.toNat_inj.1 (hall.trans hreq.dataLen.symm)
      have hbios : req.bios.take (min requestScanBudget (completed event req)) ≠ [] := by
        cases hcases : req.bios with
        | nil =>
          rw [hcases] at hall
          exact absurd (UInt32.toNat_inj.1 hall) (hbytes event mem_cons_self)
        | cons bio bios =>
          rw [completed, Segments.whole_eq_length (le_of_eq hall.symm), hcases]
          simp [sizes, requestScanBudget]
      have hiss : event.issuedBytes scsi req =
          if event.ioStartTimeNs ≠ 0 then event.dispatchBytes scsi else 0 := by
        simp [Event.issuedBytes, hdataLen]
      rw [hiss]
      by_cases hissue : event.ioStartTimeNs = 0 <;>
        simp [hissue, hbios, requestAccounts]
    | cons second events =>
      have hsec : second.bytes.toNat ≠ 0 := fun hzero =>
        hbytes second (mem_cons_of_mem _ mem_cons_self) (UInt32.toNat_inj.1 hzero)
      have hpar : ¬ event.bytes ≥ req.dataLen := by
        rw [ge_iff_le, UInt32.le_iff_toNat_le, hreq.dataLen, ← hsplit, bytesOf_cons]
        omega
      have hiss : event.issuedBytes scsi req = 0 := if_neg fun h => hpar h.1
      have hev : event.bytes.toNat ≤ (sizes req.bios).sum := hsplit ▸ Nat.le_add_right _ _
      rw [List.getLast?_cons_cons] at hlast
      rw [ih (hreq.advance hev) (forall_mem_cons.1 hbytes).2 hlast, hiss]
      · simp [Nat.add_assoc, Nat.add_comm]
      · rw [Request.advance, sizes_advance, Segments.sum_rest hev, ← hsplit,
          Nat.add_sub_cancel_left]

end

section

variable [DecidableEq β] [DecidableEq δ] {config : Config} {events : List (Event β)}
  {req : Request β δ} {s s' : Session β δ} {disk : δ} {host : HostCounters}

/-- An event that completes more than 512 bios, from bio `i` on, reports it. -/
theorem overflow_complete (hreq : req.Valid) (hdisk : req.disk = some disk)
    (hhost : s.blkdiskLatMap disk = some host) (hbytes : ∀ event ∈ events, event.bytes ≠ 0)
    (hle : bytesOf events ≤ (sizes req.bios).sum) {i j : Nat}
    (hi : i + requestScanBudget < req.bios.length) (hfirst : Completes events req.bios j i)
    (hlast : Completes events req.bios j (i + requestScanBudget)) :
    (complete config (events.take (j + 1)) req s).failure =
      Failure.chainOverflow.reason <<< 32 := by
  induction events generalizing req s host i j with
  | nil =>
    have hnone : bytesOf (List.take (j + 1) ([] : List (Event β))) = 0 := rfl
    exact absurd (hnone ▸ hfirst.1.trans_le hfirst.2) (Nat.not_lt_zero _)
  | cons event events ih =>
    obtain ⟨hev, hrest⟩ := bytesOf_le_advance hle
    rw [forall_mem_cons] at hbytes
    obtain ⟨hcredited, hoverflow⟩ := traceRequestComplete_spec config 0 hreq hdisk hhost
      hbytes.1 hev
    cases j with
    | zero =>
      have hlt : requestScanBudget < completed event req :=
        (Nat.le_add_left _ i).trans_lt ((completes_zero event events hreq.positive hi).1 hlast)
      exact hoverflow (Segments.sum_take_lt hreq.positive hlt)
    | succ j =>
      -- bio `i` is still there after the first event
      obtain ⟨i', rfl⟩ : ∃ i', i = completed event req + i' := by
        refine Nat.exists_eq_add_of_le (Nat.not_lt.1 fun hlt => ?_)
        have hends := ((completes_zero event events hreq.positive
          ((Nat.le_add_right _ _).trans_lt hi)).2 hlt).2
        have hstarts := hfirst.1
        rw [take_succ_cons, bytesOf_cons] at hstarts hends
        exact absurd (hends.trans (Nat.add_le_add_left (Nat.zero_le _) _)) (Nat.not_le.2 hstarts)
      rw [Nat.add_assoc] at hi hlast
      have hlen : i' + requestScanBudget < (req.advance event.bytes).bios.length := by
        have hmap := congrArg List.length (map_fixed_advance event.bytes req.bios)
        rw [length_map, length_drop, length_map] at hmap
        rw [Request.advance, hmap]
        exact Nat.lt_sub_iff_add_lt'.2 hi
      obtain ⟨counters, hhost', -⟩ := hcredited.host host hhost
      exact ih (hreq.advance hev) hdisk hhost' hbytes.2 hrest hlen
        ((completes_succ hev (by omega)).1 hfirst) ((completes_succ hev hi).1 hlast)

/-- **The completion of a request.** However its bytes are split into events, each bio is accounted
at the event that completes its last byte: every bio if there are at most 512 of them, and none
twice in any case. The issued size is counted at the last event, once, if it is known. An event that
completes more than 512 bios reports the overflow. The histograms of the disk get one for each
account, in its buckets, and those of a container one for each account of its bios. -/
theorem request_completed (config : Config) (hreq : req.Valid) (hdisk : req.disk = some disk)
    (hhost : s.blkdiskLatMap disk = some host) (hbytes : ∀ event ∈ events, event.bytes ≠ 0)
    (hsplit : bytesOf events = (sizes req.bios).sum) (hrun : complete config events req s = s') :
    ∃ accounts : List (Account β),
      (req.bios.length ≤ requestScanBudget →
        accounts.map Account.fixed = req.bios.map Bio.fixed) ∧
      (accounts.map fun account => account.bio.address).Nodup ∧
      (∀ account ∈ accounts, events[account.index]? = some account.event ∧
        ∃ i, (req.bios.map Bio.fixed)[i]? = some account.fixed ∧
          Completes events req.bios account.index i) ∧
      (∀ last, events.getLast? = some last →
        (accounts.filter fun account => account.issuedBytes ≠ 0).map
            (fun account => (account.index, account.issuedBytes)) =
          if last.ioStartTimeNs ≠ 0 ∧ last.dispatchBytes host.scsi ≠ 0 then
            [(events.length - 1, last.dispatchBytes host.scsi)]
          else []) ∧
      (∀ i j, i + requestScanBudget < req.bios.length → Completes events req.bios j i →
        Completes events req.bios j (i + requestScanBudget) →
          (complete config (events.take (j + 1)) req s).failure =
            Failure.chainOverflow.reason <<< 32) ∧
      (∃ counters,
        s'.blkdiskLatMap disk =
          some { host with counters := update host.counters req.operation counters } ∧
        Adds config accounts (host.counters req.operation) counters) ∧
      ∀ serial, s.Groups serial → (∀ event ∈ events, event.Identifies serial) →
        ∀ key, Adds config (accounts.filter fun account =>
          containerKey config serial ⟨disk, host.major, host.minor, req.operation⟩ account.bio =
            some key) (s.row key) (s'.row key) := by
  subst hrun
  have hcredited := credited_complete config 0 hreq hdisk hhost hbytes (le_of_eq hsplit)
  have hevents : ∀ account ∈ requestAccounts host.scsi 0 events req,
      events[account.index]? = some account.event ∧
        ∃ i, (req.bios.map Bio.fixed)[i]? = some account.fixed ∧
          Completes events req.bios account.index i := by
    intro account haccount
    obtain ⟨j, i, hj, hevent, hi, hcompletes⟩ :=
      mem_requestAccounts hreq (le_of_eq hsplit) haccount
    rw [Nat.zero_add] at hj
    rw [hj]
    exact ⟨hevent, i, hi, hcompletes⟩
  refine ⟨requestAccounts host.scsi 0 events req,
    fun hbudget => map_fixed_requestAccounts hreq hbudget hsplit, ?_, hevents,
    fun last hlast => ?_, fun i j hi hfirst hlast => ?_, hcredited.host host hhost,
    fun serial hgroups hserial => ?_⟩
  · have haddress := (sublist_requestAccounts host.scsi 0 events req).map Prod.fst
    rw [map_map, map_map] at haddress
    exact haddress.nodup hreq.distinct
  · rw [issued_requestAccounts hreq hbytes hlast hsplit, Nat.zero_add]
  · exact overflow_complete hreq hdisk hhost hbytes (le_of_eq hsplit) hi hfirst hlast
  · exact (hcredited.containers serial hgroups fun account haccount =>
      hserial _ (mem_of_getElem? (hevents account haccount).1)).2

end

section

/-- Two bios of 8 and 4 KiB, of one container. -/
def twoBios : Request Nat Unit where
  cmdFlags := 1
  disk := some ()
  bios := [⟨1, 8192, 5, 7⟩, ⟨2, 4096, 0, 7⟩]
  dataLen := 12288

def completionAt (bytes : UInt32) (now : UInt64) : Event Nat where
  bytes
  now
  startTimeNs := 6
  ioStartTimeNs := 8
  statsSectors := 24
  serialNr := fun _ => 3
  groupInsert := fun _ => 0
  seriesInsert := fun _ => 0

def scsiSession : Session Nat Unit where
  blkdiskLatMap := fun _ => some { major := 8, minor := 0, counters := fun _ => {}, scsi := 1 }

/-- The first event ends within the first bio, which is accounted at the second one with the other
bio. Both waits on the device are counted, for the disk and for the container; only the first bio
has a time of its submission. -/
theorem request_completed_in_two :
    let s' := complete ⟨false, true, 0, 0⟩ [completionAt 512 10, completionAt 11776 60008] twoBios
      scsiSession
    let counts (counters : Counters) := (counters.buckets .d2c 1, counters.buckets .q2g 0,
      counters.buckets .q2d 0, counters.issuedSize 1)
    (∃ accounts : List (Account Nat), accounts.map Account.fixed = [(1, 5, 7), (2, 0, 7)] ∧
      (accounts.filter fun account => account.issuedBytes ≠ 0).map
        (fun account => (account.index, account.issuedBytes)) = [(1, 12288)] ∧
      ∃ counters, Adds ⟨false, true, 0, 0⟩ accounts {} counters ∧
        (s'.blkdiskLatMap ()).map (fun host => host.counters 1) = some counters) ∧
    (s'.blkdiskLatMap ()).map (fun host => counts (host.counters 1)) = some (2, 1, 1, 1) ∧
    counts (s'.row ⟨7, 3, 8, 0, 1, 0⟩) = (2, 1, 1, 1) := by
  have hvalid : twoBios.Valid := ⟨by decide, by decide, by decide, by decide⟩
  have hpositive : ∀ event ∈ [completionAt 512 10, completionAt 11776 60008], event.bytes ≠ 0 := by
    decide
  have hsplit : bytesOf [completionAt 512 10, completionAt 11776 60008] =
      (sizes twoBios.bios).sum := by decide
  obtain ⟨accounts, hall, -, -, hissued, -, ⟨counters, hdisk, hadds⟩, -⟩ :=
    request_completed (s := scsiSession) ⟨false, true, 0, 0⟩ hvalid rfl rfl hpositive hsplit rfl
  refine ⟨⟨accounts, hall (by decide), hissued _ rfl, counters, hadds, ?_⟩, by decide +kernel,
    by decide +kernel⟩
  have hoperation : twoBios.operation = 1 := by decide
  simp only [hdisk, hoperation, Option.map_some, update_self]

end

/-! ## The arithmetic of times -/

/-- The bounds between the buckets. -/
def latencyBounds : List UInt64 := 50 * nsPerUs :: latencyThresholds

theorem ioLatencyBucket_eq {start stop : UInt64} (queueStage : Bool) (hstart : start ≠ 0)
    (hstop : stop ≠ 0) (hle : start ≤ stop) :
    ioLatencyBucket start stop queueStage =
      some (latencyBounds.countP fun bound => decide (bound < stop - start)) := by
  have hnot : ¬stop < start := UInt64.not_lt.2 hle
  rw [ioLatencyBucket, if_neg (by simp [hstart, hstop]), if_neg hnot]
  dsimp only
  split
  · rename_i hfirst
    -- the other bounds are above the first one
    have hnone : ∀ bound ∈ latencyBounds, ¬decide (bound < stop - start) = true := by
      intro bound hmem
      have hall : (latencyBounds.all fun bound => decide (50 * nsPerUs ≤ bound)) = true := by
        decide +kernel
      simpa using UInt64.le_trans hfirst (of_decide_eq_true (all_eq_true.1 hall bound hmem))
    rw [countP_eq_zero.2 hnone]
  · rename_i hfirst
    have hall : (latencyThresholds.all fun threshold =>
        decide (threshold.toNat < 2 ^ 63)) = true := by decide +kernel
    rw [latencyBounds, countP_cons_of_pos (by simpa using hfirst),
      sum_ioHistogramAbove _ fun x hx => of_decide_eq_true (all_eq_true.1 hall x hx), Nat.add_comm]

def stampMask : UInt64 := (1 : UInt64) <<< 51 - 1

theorem toNat_and_stampMask (x : UInt64) : (x &&& stampMask).toNat = x.toNat % 2 ^ 51 := by
  rw [UInt64.toNat_and]
  exact Nat.and_two_pow_sub_one_eq_mod _ 51

/-- The low bits of a time give it back for as long as they do not repeat. -/
theorem ioLatencyBioQueueNs_eq {config : Config} {bio : Bio β} {t now : UInt64}
    (hpacked : config.packedStamp = true) (hbio : bio.stamp &&& stampMask = t &&& stampMask)
    (hle : t ≤ now) (hage : (now - t).toNat < 2 ^ 51) (ht : ¬2 ^ 51 ∣ t.toNat) :
    ioLatencyBioQueueNs config bio now = t := by
  have hle := UInt64.le_iff_toNat_le.1 hle
  have hnow := now.toNat_lt
  have hstamp := toNat_and_stampMask t
  have hdiff : (now - t).toNat = now.toNat - t.toNat := by
    rw [UInt64.toNat_sub]
    omega
  have hrestored : (now - (t &&& stampMask)) &&& stampMask = now - t := by
    rw [← UInt64.toNat_inj, toNat_and_stampMask, UInt64.toNat_sub, hstamp, hdiff]
    omega
  have hset : t &&& stampMask ≠ 0 := by
    intro hzero
    rw [hzero] at hstamp
    exact ht (Nat.dvd_of_mod_eq_zero hstamp.symm)
  have hwithin : now - t ≤ now := by
    rw [UInt64.le_iff_toNat_le, hdiff]
    exact Nat.sub_le _ _
  show (if config.packedStamp then if bio.stamp &&& stampMask = 0 then 0 else
    if (now - (bio.stamp &&& stampMask)) &&& stampMask ≤ now then
      now - ((now - (bio.stamp &&& stampMask)) &&& stampMask) else 0 else _) = t
  rw [if_pos hpacked, hbio, if_neg hset, hrestored, if_pos hwithin, ← UInt64.toNat_inj,
    UInt64.toNat_sub, hdiff]
  omega

/-- **The arithmetic of times is that of numbers**, across the high bit and across the epochs of
a packed time. -/
theorem latency_arithmetic :
    (∀ (start stop : UInt64) (queueStage : Bool), start ≠ 0 → stop ≠ 0 → start ≤ stop →
      ioLatencyBucket start stop queueStage =
        some (latencyBounds.countP fun bound => decide (bound < stop - start))) ∧
    ∀ (config : Config) (bio : Bio β) (t now : UInt64), config.packedStamp = true →
      bio.stamp &&& stampMask = t &&& stampMask → t ≤ now → (now - t).toNat < 2 ^ 51 →
      ¬2 ^ 51 ∣ t.toNat →
      ioLatencyBioQueueNs config bio now = t :=
  ⟨fun _ _ queueStage => ioLatencyBucket_eq queueStage, fun _ _ _ _ => ioLatencyBioQueueNs_eq⟩

theorem latency_arithmetic_large :
    ioLatencyBucket 1 9223372036854775809 false = some 16 ∧
    ioLatencyBioQueueNs ⟨true, false, 0, 0⟩ ⟨(), 0, 2251799813685247, 0⟩ 4503599627370503 =
      4503599627370495 :=
  ⟨((latency_arithmetic (β := Unit)).1 1 _ false (by decide +kernel) (by decide +kernel)
      (by decide +kernel)).trans
      (by decide +kernel),
    latency_arithmetic.2 _ _ _ _ rfl (by decide +kernel) (by decide +kernel) (by decide +kernel)
      (by decide +kernel)⟩

end Huatuo.IoLatency
