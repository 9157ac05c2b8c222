import SoundArchive.Proofs.Collect.InitialPatch
import SoundArchive.Proofs.Collect.Reselection

/-!
# Collecting twice is collecting once

What is left by the first time is settled: numbers have moved together, so selecting again gives
every one of them its own place.
-/

namespace SoundArchive

open PatchScan

namespace Archive

variable {a b : Archive} {summary : CollectSummary} {plans : BankPlans}

/-! ## Plans -/

theorem mem_usersOf {n : UInt16} {s : ScannedSequence} :
    s ∈ a.usersOf n ↔ ∃ i entry, a.sequences.entry? i = some entry ∧ entry.settings.bank = n ∧
      scanEntry entry = s := by
  rw [usersOf, Slots.live_mapLive, List.mem_filter, List.mem_map]
  simp only [Slots.mem_live, decide_eq_true_eq]
  constructor
  · rintro ⟨⟨entry, ⟨i, hi⟩, rfl⟩, hn⟩
    exact ⟨i, entry, hi, hn, rfl⟩
  · rintro ⟨i, entry, hi, hn, rfl⟩
    exact ⟨⟨entry, ⟨i, hi⟩, rfl⟩, hn⟩

theorem shrunk?_ofUsers {bank : Bank} {users : List ScannedSequence} {shrunk : ShrunkBank} :
    (BankPlan.ofUsers bank users).shrunk? = some shrunk ↔
      users ≠ [] ∧ (∀ s ∈ users, s.isDynamic = false) ∧
        shrunk = bank.shrink (users.flatMap (·.patches)) := by
  unfold BankPlan.ofUsers
  split
  · next hempty => simp [BankPlan.shrunk?, List.isEmpty_iff.1 hempty]
  · next hsome =>
    split
    · next hdynamic =>
      obtain ⟨s, hs, hs'⟩ := List.any_eq_true.1 hdynamic
      simp only [BankPlan.shrunk?, reduceCtorEq, false_iff]
      rintro ⟨-, hall, -⟩
      rw [hall s hs] at hs'
      cases hs'
    · next hstatic =>
      simp only [BankPlan.shrunk?, Option.some.injEq]
      constructor
      · rintro rfl
        exact ⟨by simpa using hsome, by simpa using hstatic, rfl⟩
      · rintro ⟨-, -, rfl⟩
        rfl

theorem bank_of_mem_usersOf {n : UInt16} {s : ScannedSequence} (hs : s ∈ a.usersOf n) :
    s.bank = n := by
  obtain ⟨i, entry, -, rfl, rfl⟩ := mem_usersOf.1 hs
  rfl

/-- A sequence that tells the number `n` of a bank means the only one that was read. -/
theorem ownsNumber_of_user (howns : ∀ s ∈ a.sequences.live, a.OwnsNumber s.settings.bank)
    {n : UInt16} {s : ScannedSequence} (hs : s ∈ a.usersOf n) : a.OwnsNumber n := by
  obtain ⟨i, entry, hi, rfl, -⟩ := mem_usersOf.1 hs
  exact howns entry (Slots.mem_live.2 ⟨i, hi⟩)

theorem shrunk?_eq (howns : ∀ s ∈ a.sequences.live, a.OwnsNumber s.settings.bank) (n : UInt16) :
    a.bankPlans.shrunk? n = ((a.bank? n).bind (·.resource)).bind fun bank =>
      (BankPlan.ofUsers bank (a.usersOf n)).shrunk? := by
  have hn : n.toNat.toUInt16 = n := by simp
  rw [BankPlans.shrunk?_of_alone, shrunk?_planAt, hn, bank?]
  intro i
  have hi : ((i + 1) * BankPlans.page + n.toNat).toUInt16 = n := by
    apply UInt16.toNat_inj.1
    have hlt := n.toNat_lt
    rw [Nat.toUInt16_eq, UInt16.toNat_ofNat', BankPlans.page]
    omega
  rw [shrunk?_planAt, hi]
  cases husers : a.usersOf n with
  | nil => simp [BankPlan.ofUsers, BankPlan.shrunk?]
  | cons s rest =>
    rw [ownsNumber_of_user howns (s := s) (by simp [husers]) i]
    rfl

/-! ## What is left in the slots -/

/-- Every bank that a sequence tells has its number for itself, and what a scan records of a
sequence that is to be renumbered lies apart. Offsets are words of 64 bits. -/
structure Separate (a : Archive) : Prop where
  numbers : ∀ entry ∈ a.sequences.live, a.OwnsNumber entry.settings.bank
  parts : ∀ entry ∈ a.sequences.live, ∀ sequence, Renumbers a.bankPlans entry sequence →
    PartsApart sequence.code ∧ sequence.code.size < 2 ^ 62

theorem sequence_before_collect (h : a.collect = .ok (b, summary)) {i : Nat}
    {entry' : SequenceEntry} (hentry : b.sequences.entry? i = some entry') :
    ∃ entry, a.sequences.entry? i = some entry := by
  obtain ⟨news, -, hb⟩ := sequences_of_collect h
  rw [← Option.ne_none_iff_exists']
  intro hhole
  rw [hb, Slots.entry?_replace_of_hole hhole] at hentry
  cases hentry

/-- New numbers are no more than there are numbers that the bytecode of sequences can tell. -/
theorem renumber_literal_lt (ha : a.Separate) {n : UInt16} {s : ScannedSequence}
    (hs : s ∈ a.usersOf n) {bank : ShrunkBank} (hbank : a.bankPlans.shrunk? n = some bank) {m : Nat}
    (hm : m ∈ s.literals) : bank.selection.renumber m < 2 ^ 28 := by
  rw [shrunk?_eq ha.numbers] at hbank
  obtain ⟨old, -, hplan⟩ := Option.bind_eq_some_iff.1 hbank
  obtain ⟨-, -, rfl⟩ := shrunk?_ofUsers.1 hplan
  refine Selection.renumber_lt _ ?_
    (List.mem_flatMap.2 ⟨s, hs, ScannedSequence.mem_patches.2 (.inr hm)⟩)
  intro k hk
  obtain ⟨t, ht, hk⟩ := List.mem_flatMap.1 hk
  obtain ⟨i, entry, -, -, rfl⟩ := mem_usersOf.1 ht
  rcases ScannedSequence.mem_patches.1 hk with rfl | hk
  · decide
  · exact lt_of_mem_literals hk

theorem rescanned_of_collect (ha : a.Separate) (h : a.collect = .ok (b, summary)) {i : Nat}
    {entry : SequenceEntry} (hentry : a.sequences.entry? i = some entry) :
    ∃ entry', b.sequences.entry? i = some entry' ∧
      Rescanned a.bankPlans (scanEntry entry) (scanEntry entry') := by
  obtain ⟨entry', new, hentry', hnew, hsettings, hresource⟩ := sequence_of_collect h hentry
  refine ⟨entry', hentry', rescanned_of_newSequence hnew hsettings hresource ?_
    (ha.parts entry (Slots.mem_live.2 ⟨i, hentry⟩))⟩
  intro bank hbank m hm
  exact renumber_literal_lt ha (mem_usersOf.2 ⟨i, entry, hentry, rfl, rfl⟩) hbank hm

theorem rescanned_users (ha : a.Separate) (h : a.collect = .ok (b, summary)) (n : UInt16) :
    (∀ s ∈ a.usersOf n, ∃ s' ∈ b.usersOf n, Rescanned a.bankPlans s s') ∧
      ∀ s' ∈ b.usersOf n, ∃ s ∈ a.usersOf n, Rescanned a.bankPlans s s' := by
  constructor
  · intro s hs
    obtain ⟨i, entry, hentry, rfl, rfl⟩ := mem_usersOf.1 hs
    obtain ⟨entry', hentry', hrescanned⟩ := rescanned_of_collect ha h hentry
    exact ⟨_, mem_usersOf.2 ⟨i, entry', hentry', hrescanned.bank, rfl⟩, hrescanned⟩
  · intro s' hs'
    obtain ⟨i, entry', hentry', rfl, rfl⟩ := mem_usersOf.1 hs'
    obtain ⟨entry, hentry⟩ := sequence_before_collect h hentry'
    obtain ⟨entry'', hentry'', hrescanned⟩ := rescanned_of_collect ha h hentry
    cases hentry'.symm.trans hentry''
    exact ⟨_, mem_usersOf.2 ⟨i, entry, hentry, hrescanned.bank.symm, rfl⟩, hrescanned⟩

/-! ## What is left of banks -/

theorem bank_before_collect (h : a.collect = .ok (b, summary)) {i : Nat} {entry' : BankEntry}
    (hentry : b.banks.entry? i = some entry') : ∃ entry, a.banks.entry? i = some entry := by
  obtain ⟨-, news, -, hb⟩ := eq_replace_of_collect h
  rw [← Option.ne_none_iff_exists']
  intro hhole
  rw [hb, Slots.entry?_replace_of_hole hhole] at hentry
  cases hentry

/-- A bank that is read afterwards was read before, and has what was left of it. -/
theorem bank_of_collect (h : a.collect = .ok (b, summary)) {i : Nat} {bank' : Bank}
    (hbank' : (b.banks.entry? i).bind (·.resource) = some bank') :
    ∃ entry bank old, a.banks.entry? i = some entry ∧ entry.resource = some bank ∧
      remaining a.bankPlans entry i = some old ∧ bank' = ⟨old.map (·.mapRanges
        (·.renumberWave a.shrunkWaves.toArray entry.settings.waveArchives))⟩ := by
  obtain ⟨entry', hentry', hresource'⟩ := Option.bind_eq_some_iff.1 hbank'
  obtain ⟨entry, hentry⟩ := bank_before_collect h hentry'
  obtain ⟨entry'', new, hentry'', hnew, -, hresource, -⟩ := bankEntry_of_collect h hentry
  cases hentry'.symm.trans hentry''
  cases hbank : entry.resource with
  | none =>
    have hnone : remaining a.bankPlans entry i = none := by rw [remaining, hbank]
    simp only [newBank, hnone] at hnew
    cases hnew
    rw [hresource', Option.elim_none, hbank] at hresource
    cases hresource
  | some bank =>
    obtain ⟨old, hold⟩ : ∃ old, remaining a.bankPlans entry i = some old := by
      unfold remaining
      rw [hbank]
      cases a.bankPlans.shrunk? i.toUInt16 <;> exact ⟨_, rfl⟩
    rw [hresource', resource_of_newBank hold hnew] at hresource
    exact ⟨entry, bank, old, hentry, hbank, hold, Option.some.inj hresource⟩

theorem numbers_of_collect (ha : a.Separate) (h : a.collect = .ok (b, summary)) :
    ∀ entry ∈ b.sequences.live, b.OwnsNumber entry.settings.bank := by
  intro entry' hentry' k
  obtain ⟨i, hi⟩ := Slots.mem_live.1 hentry'
  obtain ⟨entry, hentry⟩ := sequence_before_collect h hi
  obtain ⟨entry'', hentry'', hrescanned⟩ := rescanned_of_collect ha h hentry
  cases hi.symm.trans hentry''
  rw [Option.eq_none_iff_forall_ne_some]
  intro bank' hbank'
  obtain ⟨bankEntry, bank, -, hbankEntry, hbank, -⟩ := bank_of_collect h hbank'
  have howns := ha.numbers entry (Slots.mem_live.2 ⟨i, hentry⟩) k
  have hbanks : entry'.settings.bank = entry.settings.bank := hrescanned.bank
  rw [← hbanks, hbankEntry, Option.bind_some, hbank] at howns
  cases howns

theorem mem_literals_of_rescanned {n : UInt16} {s s' : ScannedSequence} {bank : ShrunkBank}
    (hrescanned : Rescanned a.bankPlans s s') (hs : s ∈ a.usersOf n)
    (hbank : a.bankPlans.shrunk? n = some bank) {m : Nat} :
    m ∈ s'.literals ↔ ∃ k ∈ s.literals, bank.selection.renumber k = m := by
  rw [← bank_of_mem_usersOf hs] at hbank
  exact hrescanned.literals bank hbank m

/-- Selecting again keeps all, in the same order. -/
theorem settled_users (ha : a.Separate) (h : a.collect = .ok (b, summary)) {n : UInt16}
    {bank : Bank}
    (hshrunk : a.bankPlans.shrunk? n = some (bank.shrink ((a.usersOf n).flatMap (·.patches))))
    (f : KeyRange → KeyRange) :
    let left := (bank.shrink ((a.usersOf n).flatMap (·.patches))).instruments
    let bank' : Bank := ⟨left.map (·.mapRanges f)⟩
    Selection.Settled bank'.hasInstrument ((b.usersOf n).flatMap (·.patches))
      bank'.instruments.length := by
  obtain ⟨hfore, hback⟩ := rescanned_users ha h n
  intro left bank'
  have hlength : bank'.instruments.length
      = (bank.shrink ((a.usersOf n).flatMap (·.patches))).selection.kept.length := by
    rw [List.length_map, Bank.length_shrunk]
  rw [hlength]
  refine Selection.settled_renumber (bank.hasInstrument_shrunk _ f) ?_ ?_
  · intro m hm
    obtain ⟨s, hs, hms⟩ := List.mem_flatMap.1 (Selection.mem_kept.1 hm).1
    obtain ⟨s', hs', hrescanned⟩ := hfore s hs
    refine List.mem_flatMap.2 ⟨s', hs', ScannedSequence.mem_patches.2 ?_⟩
    rcases ScannedSequence.mem_patches.1 hms with rfl | hliteral
    · exact .inl (Nat.le_zero.1 (Selection.renumber_le_self hm))
    · exact .inr ((mem_literals_of_rescanned hrescanned hs hshrunk).2 ⟨m, hliteral, rfl⟩)
  · intro k hk
    obtain ⟨s', hs', hks⟩ := List.mem_flatMap.1 hk
    obtain ⟨s, hs, hrescanned⟩ := hback s' hs'
    rcases ScannedSequence.mem_patches.1 hks with rfl | hliteral
    · exact Nat.zero_le _
    · obtain ⟨m, hm, rfl⟩ := (mem_literals_of_rescanned hrescanned hs hshrunk).1 hliteral
      exact Selection.renumber_le_length
        (List.mem_flatMap.2 ⟨s, hs, ScannedSequence.mem_patches.2 (.inr hm)⟩)

theorem shrunk?_of_collect (ha : a.Separate) (h : a.collect = .ok (b, summary)) {n : UInt16}
    {shrunk' : ShrunkBank} (hshrunk' : b.bankPlans.shrunk? n = some shrunk') :
    ∃ shrunk bank', a.bankPlans.shrunk? n = some shrunk ∧
      (b.bank? n).bind (·.resource) = some bank' ∧
      (∀ m, shrunk'.selection.renumber m = m) ∧ shrunk'.instruments = bank'.instruments := by
  rw [shrunk?_eq (numbers_of_collect ha h)] at hshrunk'
  obtain ⟨bank', hbank', hplan'⟩ := Option.bind_eq_some_iff.1 hshrunk'
  obtain ⟨husers', hstatic', rfl⟩ := shrunk?_ofUsers.1 hplan'
  obtain ⟨entry, bank, old, hentry, hbank, hold, rfl⟩ := bank_of_collect h hbank'
  obtain ⟨hfore, hback⟩ := rescanned_users ha h n
  -- It was shrunk before too: its users are the same, and as static as they are now.
  have hshrunk : a.bankPlans.shrunk? n
      = some (bank.shrink ((a.usersOf n).flatMap (·.patches))) := by
    rw [shrunk?_eq ha.numbers, bank?, hentry, Option.bind_some, hbank, Option.bind_some]
    refine shrunk?_ofUsers.2 ⟨?_, fun s hs => ?_, rfl⟩
    · obtain ⟨s', hs'⟩ := List.exists_mem_of_ne_nil _ husers'
      obtain ⟨s, hs, -⟩ := hback s' hs'
      exact List.ne_nil_of_mem hs
    · obtain ⟨s', hs', hrescanned⟩ := hfore s hs
      rw [← hrescanned.isDynamic]
      exact hstatic' s' hs'
  have hinstruments : old = (bank.shrink ((a.usersOf n).flatMap (·.patches))).instruments := by
    have hn : n.toNat.toUInt16 = n := by simp
    simp only [remaining, hbank, hn, hshrunk] at hold
    exact (Option.some.inj hold).symm
  subst hinstruments
  have hsettled := settled_users ha h hshrunk
    (·.renumberWave a.shrunkWaves.toArray entry.settings.waveArchives)
  exact ⟨_, _, hshrunk, hbank', hsettled.renumber, Bank.instruments_of_settled hsettled⟩

/-- A bank that was read and has users is in the slot of its number. -/
theorem slot_of_user (howns : ∀ entry ∈ a.sequences.live, a.OwnsNumber entry.settings.bank)
    {i : Nat} {bank : Bank} (hbank : (a.banks.entry? i).bind (·.resource) = some bank)
    (husers : a.usersOf i.toUInt16 ≠ []) : i.toUInt16.toNat = i := by
  obtain ⟨s, hs⟩ := List.exists_mem_of_ne_nil _ husers
  have halone := ownsNumber_of_user howns hs
  have hi : i.toUInt16.toNat = i % 65536 := by rw [Nat.toUInt16_eq, UInt16.toNat_ofNat']
  -- Behind the first page it would be another bank of the same number.
  by_contra hne
  have hbehind := halone (i / 65536 - 1)
  rw [hi, BankPlans.page, show (i / 65536 - 1 + 1) * 65536 + i % 65536 = i by omega, hbank]
    at hbehind
  cases hbehind

theorem instruments_of_collect (ha : a.Separate) (h : a.collect = .ok (b, summary)) {i : Nat}
    {bank : Bank} {shrunk : ShrunkBank}
    (hbank : (b.banks.entry? i).bind (·.resource) = some bank)
    (hshrunk : b.bankPlans[i]?.bind (·.shrunk?) = some shrunk ∨
      b.bankPlans.shrunk? i.toUInt16 = some shrunk) :
    shrunk.instruments = bank.instruments := by
  have hnumbers := numbers_of_collect ha h
  have hplan : b.bankPlans.shrunk? i.toUInt16 = some shrunk ∧ b.usersOf i.toUInt16 ≠ [] := by
    rw [shrunk?_planAt, hbank, Option.bind_some, shrunk?_eq hnumbers] at hshrunk
    rw [shrunk?_eq hnumbers]
    rcases hshrunk with hshrunk | hshrunk
    · have husers := (shrunk?_ofUsers.1 hshrunk).1
      rw [bank?, slot_of_user hnumbers hbank husers, hbank]
      exact ⟨hshrunk, husers⟩
    · obtain ⟨bank', -, hplan⟩ := Option.bind_eq_some_iff.1 hshrunk
      exact ⟨hshrunk, (shrunk?_ofUsers.1 hplan).1⟩
  obtain ⟨_, bank', -, hbank', -, hsame⟩ := shrunk?_of_collect ha h hplan.1
  rw [bank?, slot_of_user hnumbers hbank hplan.2, hbank] at hbank'
  cases hbank'
  exact hsame

theorem body_of_newBank {waves : Array (Option ShrunkWaves)} {entry : BankEntry} {i : Nat}
    {old : List Instrument} {new : Option (Bank × Bytes)}
    (hold : remaining plans entry i = some old) (hshrunk : (plans.shrunk? i.toUInt16).isSome)
    (h : newBank plans waves entry i = .ok new) :
    Bank.encode ⟨old.map (·.mapRanges (·.renumberWave waves entry.settings.waveArchives))⟩
      = .ok (new.elim entry.body fun new => new.2) := by
  simp only [newBank, hold] at h
  rw [if_neg (by simp [Option.isSome_iff_ne_none.1 hshrunk])] at h
  split at h
  · cases h
  · next body hbody =>
    cases h
    exact hbody

theorem bodies_of_collect (ha : a.Separate) (h : a.collect = .ok (b, summary)) {i : Nat}
    {entry' : BankEntry} {bank' : Bank} (hentry' : b.banks.entry? i = some entry')
    (hbank' : entry'.resource = some bank') (hshrunk : (b.bankPlans.shrunk? i.toUInt16).isSome) :
    bank'.encode = .ok entry'.body := by
  obtain ⟨shrunk', hshrunk'⟩ := Option.isSome_iff_exists.1 hshrunk
  obtain ⟨shrunk, -, hbefore, -⟩ := shrunk?_of_collect ha h hshrunk'
  obtain ⟨entry, bank, old, hentry, hbank, hold, rfl⟩ := bank_of_collect h
    (by rw [hentry', Option.bind_some, hbank'])
  obtain ⟨entry'', new, hentry'', hnew, -, -, hbody⟩ := bankEntry_of_collect h hentry
  cases hentry'.symm.trans hentry''
  rw [hbody]
  exact body_of_newBank hold (by simp [hbefore]) hnew

/-! ## What is left of wave archives -/

theorem remaining_of_collect (ha : a.Separate) (h : a.collect = .ok (b, summary)) {i : Nat}
    {entry entry' : BankEntry} (hentry : a.banks.entry? i = some entry)
    (hentry' : b.banks.entry? i = some entry') :
    remaining b.bankPlans entry' i = (remaining a.bankPlans entry i).map fun old =>
      old.map (·.mapRanges
        (·.renumberWave a.shrunkWaves.toArray entry.settings.waveArchives)) := by
  obtain ⟨entry'', new, hentry'', hnew, -, hresource, -⟩ := bankEntry_of_collect h hentry
  cases hentry'.symm.trans hentry''
  cases hold : remaining a.bankPlans entry i with
  | none =>
    have hunread : entry.resource = none := by
      unfold remaining at hold
      split at hold
      · next hunread => exact hunread
      · split at hold <;> cases hold
    simp only [newBank, hold] at hnew
    cases hnew
    rw [Option.elim_none, hunread] at hresource
    rw [remaining, hresource]
    rfl
  | some old =>
    rw [resource_of_newBank hold hnew] at hresource
    exact remaining_of_instruments hresource fun shrunk hshrunk =>
      instruments_of_collect ha h (by rw [hentry', Option.bind_some, hresource]) (.inr hshrunk)

theorem length_banks_of_collect (h : a.collect = .ok (b, summary)) :
    b.banks.length = a.banks.length := by
  obtain ⟨-, news, hnews, hb⟩ := eq_replace_of_collect h
  have hlength := (forall₂_of_mapM hnews).length_eq
  rw [hb, Slots.replace, List.length_zipWith, ← hlength, List.length_zipIdx, Nat.min_self]

def waveUser (plans : BankPlans) (n : Nat) (entry : BankEntry) : WaveUser where
  slots := entry.settings.waveArchives
  instruments := remaining plans entry n

theorem waveUsers_eq (a : Archive) (plans : BankPlans) :
    a.waveUsers plans
      = Slots.live (a.banks.zipIdx.map fun x => x.1.map (waveUser plans x.2)) := by
  simp only [waveUsers, Slots.live, List.filterMap_map]
  rfl

theorem waveUsers_of_collect (ha : a.Separate) (h : a.collect = .ok (b, summary)) :
    b.waveUsers b.bankPlans
      = (a.waveUsers a.bankPlans).map (·.renumbered a.shrunkWaves.toArray) := by
  rw [waveUsers_eq, waveUsers_eq, ← Slots.live_mapLive]
  congr 1
  apply Slots.ext_entry?
  · simp [Slots.mapLive, length_banks_of_collect h]
  intro i
  rw [Slots.entry?_mapLive, Slots.entry?_map_zipIdx, Slots.entry?_map_zipIdx]
  cases hentry : a.banks.entry? i with
  | none =>
    cases hentry' : b.banks.entry? i with
    | none => rfl
    | some entry' =>
      obtain ⟨entry, hbefore⟩ := bank_before_collect h hentry'
      rw [hentry] at hbefore
      cases hbefore
  | some entry =>
    obtain ⟨entry', new, hentry', -, hsettings, -⟩ := bankEntry_of_collect h hentry
    rw [hentry', Option.map_some, Option.map_some, Option.map_some, waveUser, hsettings,
      remaining_of_collect ha h hentry hentry']
    rfl

theorem waves_of_collect (ha : a.Separate) (h : a.collect = .ok (b, summary)) {i : Nat}
    {shrunk' : ShrunkWaves} (hshrunk' : b.shrunkWaves.entry? i = some shrunk') :
    (∀ m, shrunk'.selection.renumber m = m) ∧
      (b.waveArchives.entry? i).bind (·.resource) = some shrunk'.waves := by
  have hshrunk := entry?_shrinkWaveArchives a (a.waveUsers a.bankPlans) i
  rw [shrunkWaves, entry?_shrinkWaveArchives, waveUsers_of_collect ha h, ← Option.bind_assoc,
    resource_of_collect h] at hshrunk'
  rw [resource_of_collect h]
  cases hs : a.shrunkWaves.entry? i with
  | none =>
    -- What was left alone is left alone again: the same banks refer to it.
    rw [hs, Option.map_none, Option.none_or] at hshrunk'
    obtain ⟨waves, hwaves, hagain⟩ := Option.bind_eq_some_iff.1 hshrunk'
    rw [← shrunkWaves, hs, ← Option.bind_assoc, hwaves, Option.bind_some] at hshrunk
    rw [WaveArchive.shrinkFor_renumbered_of_none hshrunk.symm] at hagain
    cases hagain
  | some s =>
    rw [hs, Option.map_some, Option.some_or, Option.bind_some] at hshrunk'
    rw [← shrunkWaves, hs, ← Option.bind_assoc] at hshrunk
    obtain ⟨waves, -, hfirst⟩ := Option.bind_eq_some_iff.1 hshrunk.symm
    have hjoin : a.shrunkWaves.toArray[i]?.join = some s := by
      rw [List.getElem?_toArray]
      exact hs
    obtain ⟨s', hs', hrenumber, hwaves⟩ := WaveArchive.shrinkFor_renumbered hfirst hjoin
    rw [hshrunk'] at hs'
    cases hs'
    exact ⟨hrenumber, congrArg some hwaves.symm⟩

/-! ## The whole -/

theorem settled_of_collect (ha : a.Separate) (h : a.collect = .ok (b, summary)) : b.Settled where
  patches n shrunk hshrunk := by
    obtain ⟨-, -, -, -, hrenumber, -⟩ := shrunk?_of_collect ha h hshrunk
    exact hrenumber
  instruments i entry bank shrunk hentry hbank hshrunk :=
    instruments_of_collect ha h (by rw [hentry, Option.bind_some, hbank]) hshrunk
  waves i shrunk hshrunk := waves_of_collect ha h hshrunk
  bodies i entry bank hentry hbank hshrunk := bodies_of_collect ha h hentry hbank hshrunk

/-- Collecting again succeeds, changes nothing, and finds nothing to remove or to rewrite. -/
theorem collect_collect (ha : a.Separate) (h : a.collect = .ok (b, summary)) :
    ∃ summary', b.collect = .ok (b, summary') ∧ summary'.removedInstruments = 0 ∧
      summary'.removedWaves = 0 ∧ summary'.changedSequences = 0 :=
  collect_of_settled (settled_of_collect ha h)

/-- Patch 128 and a jump that stays where it is. -/
def jumpInPlace : Bytes := #[0x81, 0x81, 0x00, 0x94, 0x03, 0x00, 0x00]

theorem visit_jumpInPlace_patch :
    visit jumpInPlace 0 = .ok ⟨.patch ⟨0, 1, 2, 128⟩, 3, true⟩ := by cbv

theorem visit_jumpInPlace_jump : visit jumpInPlace 3 = .ok ⟨.branch 4 3, 7, false⟩ := by cbv

theorem reached_jumpInPlace {p : Nat} (h : Reached jumpInPlace p) : p = 0 ∨ p = 3 := by
  induction h with
  | start => exact .inl rfl
  | next _ hv hq ih =>
    right
    rcases ih with rfl | rfl
    · cases visit_jumpInPlace_patch.symm.trans hv
      exact List.mem_singleton.1 hq
    · cases visit_jumpInPlace_jump.symm.trans hv
      exact List.mem_singleton.1 hq

theorem partsApart_jumpInPlace : PartsApart jumpInPlace where
  patches p site q w hfinds hq hw := by
    obtain ⟨hp, v, hv, hsite⟩ := hfinds
    rcases reached_jumpInPlace hp with rfl | rfl
    · cases visit_jumpInPlace_patch.symm.trans hv
      cases hsite
      rcases reached_jumpInPlace hq with rfl | rfl
      · exact .inl rfl
      · cases visit_jumpInPlace_jump.symm.trans hw
        exact .inr (by decide)
    · cases visit_jumpInPlace_jump.symm.trans hv
      cases hsite
  branches p operand target q w hfinds hq hw := by
    obtain ⟨hp, v, hv, hbranch⟩ := hfinds
    rcases reached_jumpInPlace hp with rfl | rfl
    · cases visit_jumpInPlace_patch.symm.trans hv
      cases hbranch
    · cases visit_jumpInPlace_jump.symm.trans hv
      cases hbranch
      rcases reached_jumpInPlace hq with rfl | rfl
      · cases visit_jumpInPlace_patch.symm.trans hw
        exact .inr (by decide)
      · cases visit_jumpInPlace_jump.symm.trans hw
        exact .inl rfl

/-- Patch 128 is missing in a bank of one instrument, so it becomes patch 1. -/
theorem collect_collect_of_jump :
    let a := ofSong jumpInPlace ⟨[.single piano]⟩
    ∃ b summary summary', a.collect = .ok (b, summary) ∧ summary.changedSequences = 1 ∧
      b.collect = .ok (b, summary') ∧ summary'.changedSequences = 0 := by
  intro a
  have hok : (a.collect.toOption.map fun result => result.2.changedSequences) = some 1 := by cbv
  obtain ⟨⟨b, summary⟩, h, hchanged⟩ := Option.map_eq_some_iff.1 hok
  rw [toOption_eq_some] at h
  have ha : a.Separate := by
    constructor
    · exact fun entry _ => ownsNumber_of_length (by decide) entry.settings.bank
    · rintro entry hentry sequence ⟨hsequence, -⟩
      cases List.mem_singleton.1 hentry
      cases hsequence
      exact ⟨partsApart_jumpInPlace, by decide⟩
  obtain ⟨summary', h', -, -, hsame⟩ := collect_collect ha h
  exact ⟨b, summary, summary', h, hchanged, h', hsame⟩

/-- Patch 200 behind a conditional, and a jump to the patch change itself. It is recorded twice,
and what the second splice takes for its operand is the patch change behind it. -/
theorem collect_collect_ne_of_conditional :
    ¬ ∀ (a b : Archive) (summary : CollectSummary), a.collect = .ok (b, summary) →
      ∃ summary', b.collect = .ok (b, summary') ∧ summary'.removedInstruments = 0 ∧
        summary'.removedWaves = 0 ∧ summary'.changedSequences = 0 := by
  intro hclaim
  let beep : Instrument := .single { piano with record := 2 }
  have hagain : ((ofSong #[0xA2, 0x81, 0x81, 0x48, 0x81, 1, 0x80, 0x10, 0x94, 1, 0, 0]
      ⟨[beep, beep]⟩).collect.toOption.bind fun result =>
        result.1.collect.toOption.map fun result' => result'.2.changedSequences) = some 1 := by
    cbv
  obtain ⟨⟨b, summary⟩, h, hagain⟩ := Option.bind_eq_some_iff.1 hagain
  obtain ⟨⟨b', summary'⟩, h', hchanged⟩ := Option.map_eq_some_iff.1 hagain
  obtain ⟨summary'', h'', -, -, hnone⟩ := hclaim _ b summary (toOption_eq_some.1 h)
  rw [toOption_eq_some, h''] at h'
  cases h'
  rw [hnone] at hchanged
  cases hchanged

end Archive

end SoundArchive
