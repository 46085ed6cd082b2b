import Huatuo.IoControl.SessionSteps

/-!
# Wait rows and their baseline

`Rows` relates the rows to the baseline: a word is what the baseline has for it with the waits added
that landed since its last read, and a row that is not there has nothing left to report and no entry
in the baseline, so that it would begin at zero.

`Reading.Inv` is about a snapshot in progress. Its words were read one after the other, each at its
own place in the log. A row that was not there when the dump began may be missing in it, and then
its word has followed the log from zero since the dump began. Nothing has landed in the rows of
retired identities since the dump began.
-/

namespace Huatuo.IoControl

open Function List

variable {cpus : Nat} {log : List (Settlement cpus)} {start mid stop place : Nat}
  {key key' : WaitKey}
  {cpu cpu' : Fin cpus}

/-! ## Waits between places -/

/-- The waits that were added to a word since a place. -/
def since (log : List (Settlement cpus)) (place : Nat) (key : WaitKey) (cpu : Fin cpus) :
    List UInt64 :=
  landed log place log.length key cpu

theorem landed_self (log : List (Settlement cpus)) (place : Nat) (key : WaitKey) (cpu : Fin cpus) :
    landed log place place key cpu = [] := by
  rw [landed, Journal.between_self, filter_nil, map_nil]

theorem since_length (log : List (Settlement cpus)) (key : WaitKey) (cpu : Fin cpus) :
    since log log.length key cpu = [] :=
  landed_self ..

theorem landed_append (hsta : start ≤ mid) (hstop : mid ≤ stop) :
    landed log start mid key cpu ++ landed log mid stop key cpu =
      landed log start stop key cpu := by
  unfold landed
  rw [← map_append, ← filter_append, Journal.between_append hsta hstop]

theorem landed_concat (hstop : stop ≤ log.length) (settlement : Settlement cpus) :
    landed (log ++ [settlement]) start stop key cpu = landed log start stop key cpu := by
  rw [landed, Journal.between_concat_of_le hstop, landed]

theorem since_concat (hplace : place ≤ log.length) (settlement : Settlement cpus) :
    since (log ++ [settlement]) place key cpu = since log place key cpu ++
      if settlement.key = key ∧ settlement.cpu = cpu then [settlement.waitNS] else [] := by
  rw [since, landed, Journal.between_concat hplace, filter_append, map_append, since, landed]
  split <;> simp_all

theorem since_concat_of_ne {settlement : Settlement cpus} (hplace : place ≤ log.length)
    (hne : settlement.key ≠ key) :
    since (log ++ [settlement]) place key cpu = since log place key cpu := by
  rw [since_concat hplace, if_neg fun h => hne h.1, append_nil]

theorem since_eq_nil_of_le (hsta : start ≤ mid) (hmid : mid ≤ log.length)
    (h : since log start key cpu = []) : since log mid key cpu = [] := by
  rw [since, ← landed_append hsta hmid] at h
  exact (append_eq_nil_iff.1 h).2

/-! ## Words -/

/-- A word was `word` at a place, and has followed the log since. -/
def Follows (rows : AList fun _ : WaitKey => Fin cpus → UInt64) (log : List (Settlement cpus))
    (place : Nat) (key : WaitKey) (cpu : Fin cpus) (word : UInt64) : Prop :=
  ∃ words, rows.lookup key = some words ∧ words cpu = (since log place key cpu).foldl waitAdd word

variable {rows rows' : AList fun _ : WaitKey => Fin cpus → UInt64} {word : UInt64}
  {words : Fin cpus → UInt64} {waitNS : UInt64}

theorem Follows.mem (h : Follows rows log place key cpu word) : key ∈ rows := by
  obtain ⟨words, hwords, -⟩ := h
  exact AList.lookup_isSome.1 (hwords ▸ rfl)

theorem Follows.settle (h : Follows rows log place key' cpu' word) (hplace : place ≤ log.length)
    (hwords : rows.lookup key = some words) :
    Follows (rows.insert key (update words cpu (waitAdd (words cpu) waitNS)))
      (log ++ [⟨key, cpu, waitNS⟩]) place key' cpu' word := by
  obtain ⟨words', hwords', hword⟩ := h
  by_cases hkey : key' = key
  · subst hkey
    obtain rfl := Option.some.inj (hwords.symm.trans hwords')
    refine ⟨_, AList.lookup_insert .., ?_⟩
    rw [since_concat hplace]
    by_cases hcpu : cpu' = cpu
    · subst hcpu
      rw [if_pos ⟨rfl, rfl⟩, update_self, foldl_append, ← hword]
      rfl
    · rw [if_neg fun h => hcpu h.2.symm, update_of_ne hcpu, append_nil, hword]
  · refine ⟨words', (AList.lookup_insert_ne hkey).trans hwords', ?_⟩
    rw [since_concat_of_ne hplace (Ne.symm hkey), hword]

/-- Changes of other rows do not matter. -/
theorem Follows.of_lookup (h : Follows rows log place key cpu word)
    (hlk : rows'.lookup key = rows.lookup key) : Follows rows' log place key cpu word := by
  obtain ⟨words, hwords, hword⟩ := h
  exact ⟨words, hlk.trans hwords, hword⟩

theorem lookup_ensure_of_mem (h : key' ∈ rows) :
    AList.lookup key' (if key ∈ rows then rows else rows.insert key fun _ => 0) =
      rows.lookup key' := by
  split
  · rfl
  · next hkey => exact AList.lookup_insert_ne fun heq => hkey (heq ▸ h)

theorem mem_ensure :
    key' ∈ (if key ∈ rows then rows else rows.insert key fun _ => 0) ↔ key' = key ∨
      key' ∈ rows := by
  split
  · next hkey => exact ⟨.inr, fun h => h.elim (fun heq => heq ▸ hkey) id⟩
  · exact AList.mem_insert rows

/-- A row begins at zero. -/
theorem follows_ensure (hkey : key ∉ rows) (hsince : since log place key cpu = []) :
    Follows (if key ∈ rows then rows else rows.insert key fun _ => 0) log place key cpu 0 := by
  rw [if_neg hkey]
  exact ⟨_, AList.lookup_insert .., by rw [hsince]; rfl⟩

theorem mem_insert_of_mem (hwords : rows.lookup key = some words) (value : Fin cpus → UInt64) :
    key' ∈ rows.insert key value ↔ key' ∈ rows := by
  rw [AList.mem_insert]
  exact ⟨fun h => h.elim (fun heq => heq ▸ AList.lookup_isSome.1 (hwords ▸ rfl)) id, .inr⟩

/-! ## The rows and the baseline -/

structure Rows (rows : AList fun _ : WaitKey => Fin cpus → UInt64) (log : List (Settlement cpus))
    (previous : Option WaitSnapshot) (lastRead : WaitKey → Fin cpus → Nat) : Prop where
  place (key : WaitKey) (cpu : Fin cpus) : lastRead key cpu ≤ log.length
  absent (key : WaitKey) (cpu : Fin cpus) : key ∉ rows → since log (lastRead key cpu) key cpu = []
  dropped (key : WaitKey) (_ : Fin cpus) : ∀ p, previous = some p → key ∉ rows → key ∉ p
  word (key : WaitKey) (cpu : Fin cpus) : ∀ p, previous = some p → key ∈ rows →
    ∃ old, unpack old = oldLane (p.lookup key) cpu ∧ Follows rows log (lastRead key cpu) key cpu old

variable {previous : Option WaitSnapshot} {lastRead : WaitKey → Fin cpus → Nat}

theorem Rows.forget (h : Rows rows log previous lastRead) : Rows rows log none lastRead where
  place := h.place
  absent := h.absent
  dropped _ _ _ hp := nomatch hp
  word _ _ _ hp := nomatch hp

theorem Rows.ensure (h : Rows rows log previous lastRead) (key : WaitKey) :
    Rows (if key ∈ rows then rows else rows.insert key fun _ => 0) log previous lastRead where
  place := h.place
  absent key' cpu hkey' := h.absent key' cpu fun hmem => hkey' (mem_ensure.2 (.inr hmem))
  dropped key' cpu p hp hkey' := h.dropped key' cpu p hp fun hmem =>
    hkey' (mem_ensure.2 (.inr hmem))
  word key' cpu p hp hkey' := by
    by_cases hmem : key' ∈ rows
    · obtain ⟨old, hold, hfol⟩ := h.word key' cpu p hp hmem
      exact ⟨old, hold, hfol.of_lookup (lookup_ensure_of_mem hmem)⟩
    · obtain rfl : key' = key := (mem_ensure.1 hkey').resolve_right hmem
      have hlk := AList.lookup_eq_none.2 (h.dropped key' cpu p hp hmem)
      exact ⟨0, by rw [hlk]; rfl, follows_ensure hmem (h.absent key' cpu hmem)⟩

theorem Rows.settle (h : Rows rows log previous lastRead) (hwords : rows.lookup key = some words)
    (cpu : Fin cpus) (waitNS : UInt64) :
    Rows (rows.insert key (update words cpu (waitAdd (words cpu) waitNS)))
      (log ++ [⟨key, cpu, waitNS⟩]) previous lastRead where
  place key' cpu' := by
    rw [length_append]
    exact Nat.le_add_right_of_le (h.place key' cpu')
  absent key' cpu' hkey' := by
    rw [mem_insert_of_mem hwords] at hkey'
    have hne : key ≠ key' := fun heq => hkey' (heq ▸ AList.lookup_isSome.1 (hwords ▸ rfl))
    rw [since_concat_of_ne (h.place key' cpu') hne]
    exact h.absent key' cpu' hkey'
  dropped key' cpu' p hp hkey' :=
    h.dropped key' cpu' p hp fun hmem => hkey' ((mem_insert_of_mem hwords _).2 hmem)
  word key' cpu' p hp hkey' := by
    obtain ⟨old, hold, hfol⟩ := h.word key' cpu' p hp ((mem_insert_of_mem hwords _).1 hkey')
    exact ⟨old, hold, hfol.settle (h.place key' cpu') hwords⟩

/-- A row is deleted after its last read. -/
theorem Rows.delete {p : WaitSnapshot} (h : Rows rows log (some p) lastRead)
    (hsince : ∀ cpu, since log (lastRead key cpu) key cpu = []) (hmem : key ∉ rows')
    (hlk : ∀ key' ≠ key, rows'.lookup key' = rows.lookup key') :
    Rows rows' log (some (p.erase key)) lastRead := by
  have hmem' {key' : WaitKey} (hne : key' ≠ key) : key' ∈ rows' ↔ key' ∈ rows := by
    rw [← AList.lookup_isSome, ← AList.lookup_isSome, hlk key' hne]
  refine ⟨h.place, fun key' cpu hkey' => ?_, ?_, ?_⟩
  · by_cases heq : key' = key
    · exact heq ▸ hsince cpu
    · exact h.absent key' cpu fun hmem => hkey' ((hmem' heq).2 hmem)
  · rintro key' cpu _ ⟨⟩ hkey' herase
    obtain ⟨hne, hp⟩ := AList.mem_erase.1 herase
    exact h.dropped key' cpu p rfl (fun hmem => hkey' ((hmem' hne).2 hmem)) hp
  · rintro key' cpu _ ⟨⟩ hkey'
    have hne : key' ≠ key := fun heq => hmem (heq ▸ hkey')
    obtain ⟨old, hold, hfol⟩ := h.word key' cpu p rfl ((hmem' hne).1 hkey')
    exact ⟨old, by rw [AList.lookup_erase_ne hne, hold], hfol.of_lookup (hlk key' hne)⟩

theorem deleteMapItem_ok {κ β : Type*} [DecidableEq κ] (items : AList fun _ : κ => β) (key : κ) :
    key ∉ (deleteMapItem items key false).1 ∧
      ∀ key' ≠ key, (deleteMapItem items key false).1.lookup key' = items.lookup key' := by
  unfold deleteMapItem
  rw [if_neg Bool.false_ne_true]
  split
  · exact ⟨fun h => (AList.mem_erase.1 h).1 rfl, fun key' hne => AList.lookup_erase_ne hne⟩
  · next hkey => exact ⟨hkey, fun _ _ => rfl⟩

theorem mem_of_mem_deleteMapItem {κ β : Type*} [DecidableEq κ] {items : AList fun _ : κ => β}
    {key key' : κ} {fault : Bool} (h : key' ∈ (deleteMapItem items key fault).1) :
    key' ∈ items := by
  unfold deleteMapItem at h
  split at h
  · exact h
  split at h
  · exact (AList.mem_erase.1 h).2
  · exact h

/-! ## Snapshots in progress -/

/-- What a dump of the counters knows. -/
structure Reading.Inv (reading : Reading cpus) (rows : AList fun _ : WaitKey => Fin cpus → UInt64)
    (log : List (Settlement cpus)) (previous : Option WaitSnapshot)
    (lastRead : WaitKey → Fin cpus → Nat) (published : List RetiredKey) : Prop where
  started_le : reading.started ≤ log.length
  lastRead_le (key : WaitKey) (cpu : Fin cpus) : lastRead key cpu ≤ reading.started
  unborn (key : WaitKey) (cpu : Fin cpus) : key ∉ reading.present → key ∉ rows →
    since log reading.started key cpu = []
  newborn (key : WaitKey) (cpu : Fin cpus) : key ∉ reading.present → key ∈ rows →
    Follows rows log reading.started key cpu 0
  unbased (key : WaitKey) (_ : Fin cpus) : ∀ p, previous = some p → key ∉ reading.present → key ∉ p
  started_le_readAt {key : WaitKey} {cpu : Fin cpus} {word : UInt64} :
    reading.words key cpu = some word → reading.started ≤ reading.readAt key cpu
  readAt_le {key : WaitKey} {cpu : Fin cpus} {word : UInt64} :
    reading.words key cpu = some word → reading.readAt key cpu ≤ log.length
  follows {key : WaitKey} {cpu : Fin cpus} {word : UInt64} : reading.words key cpu = some word →
    Follows rows log (reading.readAt key cpu) key cpu word
  old {key : WaitKey} {cpu : Fin cpus} {word : UInt64} : ∀ p, previous = some p →
    reading.words key cpu = some word → ∃ old, unpack old = oldLane (p.lookup key) cpu ∧
      word = (landed log (lastRead key cpu) (reading.readAt key cpu) key cpu).foldl waitAdd old
  published : ∀ identity ∈ reading.retired, identity ∈ published
  final (key : WaitKey) (cpu : Fin cpus) : retiredIdentity key ∈ reading.retired →
    since log reading.started key cpu = []

variable {reading : Reading cpus} {published : List RetiredKey}

theorem Reading.Inv.ensure (h : reading.Inv rows log previous lastRead published) (key : WaitKey) :
    reading.Inv (if key ∈ rows then rows else rows.insert key fun _ => 0) log previous lastRead
      published where
  started_le := h.started_le
  lastRead_le := h.lastRead_le
  unborn key' cpu hpre hkey' :=
    h.unborn key' cpu hpre fun hmem => hkey' (mem_ensure.2 (.inr hmem))
  newborn key' cpu hpre hkey' := by
    by_cases hmem : key' ∈ rows
    · exact (h.newborn key' cpu hpre hmem).of_lookup (lookup_ensure_of_mem hmem)
    · obtain rfl : key' = key := (mem_ensure.1 hkey').resolve_right hmem
      exact follows_ensure hmem (h.unborn key' cpu hpre hmem)
  unbased := h.unbased
  started_le_readAt := h.started_le_readAt
  readAt_le := h.readAt_le
  follows hword := (h.follows hword).of_lookup (lookup_ensure_of_mem (h.follows hword).mem)
  old := h.old
  published := h.published
  final := h.final

theorem Reading.Inv.settle (h : reading.Inv rows log previous lastRead published)
    (hwords : rows.lookup key = some words) (hret : retiredIdentity key ∉ published)
    (cpu : Fin cpus) (waitNS : UInt64) :
    reading.Inv (rows.insert key (update words cpu (waitAdd (words cpu) waitNS)))
      (log ++ [⟨key, cpu, waitNS⟩]) previous lastRead published := by
  have hlen : log.length ≤ (log ++ [(⟨key, cpu, waitNS⟩ : Settlement cpus)]).length := by simp
  refine ⟨h.started_le.trans hlen, h.lastRead_le, ?_, ?_, h.unbased, h.started_le_readAt,
    fun hword => (h.readAt_le hword).trans hlen,
    fun hword => (h.follows hword).settle (h.readAt_le hword) hwords, ?_, h.published, ?_⟩
  · intro key' cpu' hpre hkey'
    rw [mem_insert_of_mem hwords] at hkey'
    have hne : key ≠ key' := fun heq => hkey' (heq ▸ AList.lookup_isSome.1 (hwords ▸ rfl))
    rw [since_concat_of_ne h.started_le hne]
    exact h.unborn key' cpu' hpre hkey'
  · intro key' cpu' hpre hkey'
    exact (h.newborn key' cpu' hpre ((mem_insert_of_mem hwords _).1 hkey')).settle h.started_le
      hwords
  · intro key' cpu' word p hp hword
    rw [landed_concat (h.readAt_le hword)]
    exact h.old p hp hword
  · intro key' cpu' hkey'
    have hne : key ≠ key' := fun heq => hret (heq ▸ h.published _ hkey')
    rw [since_concat_of_ne h.started_le hne]
    exact h.final key' cpu' hkey'

/-- A dump begins. -/
theorem Rows.beginReading {retired : List RetiredKey} (h : Rows rows log previous lastRead)
    (hret : ∀ identity ∈ retired, identity ∈ published) (attempt : Nat) :
    Reading.Inv { retired, attempt, present := rows.keys, started := log.length } rows log previous
      lastRead published where
  started_le := Nat.le_refl _
  lastRead_le := h.place
  unborn key cpu _ _ := since_length log key cpu
  newborn _ _ hpre hkey := absurd (AList.mem_keys.1 hkey) hpre
  unbased key cpu p hp hpre := h.dropped key cpu p hp fun hkey => hpre (AList.mem_keys.1 hkey)
  started_le_readAt hword := nomatch hword
  readAt_le hword := nomatch hword
  follows hword := nomatch hword
  old _ _ hword := nomatch hword
  published := hret
  final key cpu _ := since_length log key cpu

/-- The dump reads a word. -/
theorem Reading.Inv.readWord (h : reading.Inv rows log previous lastRead published)
    (hrows : Rows rows log previous lastRead) (hwords : rows.lookup key = some words)
    (cpu : Fin cpus) :
    Reading.Inv
      { reading with
        words := update reading.words key
          (update (reading.words key) cpu (some (words cpu)))
        readAt := update reading.readAt key
          (update (reading.readAt key) cpu log.length) }
      rows log previous lastRead published := by
  -- a word is this one, or as before
  have hcases (key' : WaitKey) (cpu' : Fin cpus) :
      (key' = key ∧ cpu' = cpu ∧
        update reading.words key (update (reading.words key) cpu (some (words cpu)))
          key' cpu' = some (words cpu) ∧
        update reading.readAt key (update (reading.readAt key) cpu log.length)
          key' cpu' = log.length) ∨
      (update reading.words key (update (reading.words key) cpu (some (words cpu)))
          key' cpu' = reading.words key' cpu' ∧
        update reading.readAt key (update (reading.readAt key) cpu log.length)
          key' cpu' = reading.readAt key' cpu') := by
    by_cases hkey : key' = key
    · subst hkey
      by_cases hcpu : cpu' = cpu
      · subst hcpu
        simp
      · simp [hcpu]
    · simp [hkey]
  have hkey : key ∈ rows := AList.lookup_isSome.1 (hwords ▸ rfl)
  refine ⟨h.started_le, h.lastRead_le, h.unborn, h.newborn, h.unbased, ?_, ?_, ?_, ?_, h.published,
    h.final⟩
  · intro key' cpu' word hword
    dsimp only at hword ⊢
    obtain ⟨-, -, -, hplace⟩ | ⟨hold, hplace⟩ := hcases key' cpu'
    · exact h.started_le.trans (Nat.le_of_eq hplace.symm)
    · exact hplace ▸ h.started_le_readAt (hold ▸ hword)
  · intro key' cpu' word hword
    dsimp only at hword ⊢
    obtain ⟨-, -, -, hplace⟩ | ⟨hold, hplace⟩ := hcases key' cpu'
    · exact Nat.le_of_eq hplace
    · exact hplace ▸ h.readAt_le (hold ▸ hword)
  · intro key' cpu' word hword
    dsimp only at hword ⊢
    obtain ⟨rfl, rfl, hnew, hplace⟩ | ⟨hold, hplace⟩ := hcases key' cpu'
    · obtain rfl := Option.some.inj (hnew.symm.trans hword)
      exact ⟨words, hwords, by rw [hplace, since_length]; rfl⟩
    · exact hplace ▸ h.follows (hold ▸ hword)
  · intro key' cpu' word p hp hword
    dsimp only at hword ⊢
    obtain ⟨rfl, rfl, hnew, hplace⟩ | ⟨hold, hplace⟩ := hcases key' cpu'
    · obtain rfl := Option.some.inj (hnew.symm.trans hword)
      obtain ⟨old, hold, words', hwords', hword'⟩ := hrows.word key' cpu' p hp hkey
      obtain rfl := Option.some.inj (hwords.symm.trans hwords')
      exact ⟨old, hold, by rw [hplace]; exact hword'⟩
    · rw [hplace]
      exact h.old p hp (hold ▸ hword)

/-- The snapshot becomes the baseline. `absent` is the place of the rows that it does not have, the
old one or the beginning of the dump. -/
theorem Reading.Inv.commit {current : WaitSnapshot} {absent : WaitKey → Fin cpus → Nat}
    (h : reading.Inv rows log previous lastRead published)
    (hrows : Rows rows log previous lastRead) (hcur : reading.Returned current)
    (hpre : ∀ key ∈ reading.present, key ∈ current)
    (habs : (absent = fun _ _ => reading.started) ∨ absent = lastRead ∧ previous.isSome) :
    Rows rows log (some current) fun key cpu =>
      if key ∈ current then reading.readAt key cpu else absent key cpu := by
  have hold {key : WaitKey} (hkey : key ∉ current) : key ∉ reading.present := fun hmem =>
    hkey (hpre key hmem)
  refine ⟨fun key cpu => ?_, fun key cpu hkey => ?_, ?_, ?_⟩
  · split
    · next hmem =>
      obtain ⟨words, hwords, -⟩ := hcur key hmem
      exact h.readAt_le (hwords cpu)
    · obtain rfl | ⟨rfl, -⟩ := habs
      · exact h.started_le
      · exact hrows.place key cpu
  · split
    · next hmem =>
      obtain ⟨words, hwords, -⟩ := hcur key hmem
      exact absurd (h.follows (hwords cpu)).mem hkey
    · next hmem =>
      obtain rfl | ⟨rfl, -⟩ := habs
      · exact h.unborn key cpu (hold hmem) hkey
      · exact hrows.absent key cpu hkey
  · rintro key cpu _ ⟨⟩ hkey hmem
    obtain ⟨words, hwords, -⟩ := hcur key hmem
    exact hkey (h.follows (hwords cpu)).mem
  · rintro key cpu _ ⟨⟩ hkey
    split
    · next hmem =>
      obtain ⟨words, hwords, hlk⟩ := hcur key hmem
      refine ⟨words cpu, ?_, h.follows (hwords cpu)⟩
      rw [hlk]
      simp [oldLane]
    · next hmem =>
      rw [AList.lookup_eq_none.2 hmem]
      obtain rfl | ⟨rfl, hsome⟩ := habs
      · exact ⟨0, rfl, h.newborn key cpu (hold hmem) hkey⟩
      · obtain ⟨p, hp⟩ := Option.isSome_iff_exists.1 hsome
        obtain ⟨old, hunp, hfol⟩ := hrows.word key cpu p hp hkey
        rw [AList.lookup_eq_none.2 (h.unbased key cpu p hp (hold hmem))] at hunp
        exact ⟨old, hunp, hfol⟩

end Huatuo.IoControl
