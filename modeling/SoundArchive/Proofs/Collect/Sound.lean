import SoundArchive.Proofs.Collect.Instruments
import SoundArchive.Proofs.Collect.Renumbering
import SoundArchive.Proofs.Collect.Waves
import SoundArchive.Proofs.Traversal
import Mathlib

/-!
# Collecting keeps the sound of every patch that a sequence selects

Sequences tell the new numbers of their patches. Under its new number a patch has the ranges that it
had, and their waves are found under the numbers that these have now.
-/

namespace SoundArchive

/-! ## Slots -/

namespace Slots

variable {σ ρ : Type} {slots : Slots (Entry σ ρ)} {news : Slots (ρ × Bytes)} {n : Nat}

theorem entry?_replace {entry : Entry σ ρ} {new : Option (ρ × Bytes)}
    (hentry : slots.entry? n = some entry) (hnew : news[n]? = some new) :
    ∃ entry', entry? (slots.replace news) n = some entry' ∧
      entry'.settings = entry.settings ∧
      entry'.resource = (new.elim entry.resource fun new => some new.1) ∧
      entry'.body = new.elim entry.body fun new => new.2 := by
  have hslot : slots[n]? = some (some entry) := entry?_eq_some.1 hentry
  cases new with
  | none =>
    exact ⟨entry, by simp [Slots.entry?, replace, List.getElem?_zipWith, hslot, hnew],
      rfl, rfl, rfl⟩
  | some new =>
    exact ⟨{ entry with resource := some new.1, body := new.2 },
      by simp [Slots.entry?, replace, List.getElem?_zipWith, hslot, hnew], rfl, rfl, rfl⟩

theorem entry?_replace_of_hole (hhole : slots.entry? n = none) :
    entry? (slots.replace news) n = none := by
  rw [Slots.entry?, Option.join_eq_none_iff] at hhole ⊢
  rw [replace, List.getElem?_zipWith]
  rcases hhole with hhole | hhole
  · simp [hhole]
  · cases news[n]? <;> simp [hhole]

end Slots

/-! ## What collecting does to entries -/

namespace Archive

variable {a a' : Archive} {summary : CollectSummary} {n : UInt16}

/-- What is left of the wave archives. -/
def shrunkWaves (a : Archive) : Slots ShrunkWaves :=
  a.shrinkWaveArchives (a.waveUsers a.bankPlans)

theorem eq_replace_of_collect (h : a.collect = .ok (a', summary)) :
    a'.waveArchives
        = a.waveArchives.replace (a.waveArchives.zipWith newWaveArchive a.shrunkWaves) ∧
      ∃ banks, a.newBanks a.bankPlans a.shrunkWaves.toArray = .ok banks ∧
        a'.banks = a.banks.replace banks := by
  unfold collect at h
  obtain ⟨sequences, _, h⟩ := bind_eq_ok.1 h
  obtain ⟨banks, hbanks, h⟩ := bind_eq_ok.1 h
  cases h
  exact ⟨rfl, banks, hbanks, rfl⟩

theorem resource_of_newBank {plans : BankPlans} {waves : Array (Option ShrunkWaves)}
    {entry : BankEntry} {i : Nat} {old : List Instrument} {new : Option (Bank × Bytes)}
    (hold : remaining plans entry i = some old) (h : newBank plans waves entry i = .ok new) :
    (new.elim entry.resource fun new => some new.1)
      = some ⟨old.map (·.mapRanges (·.renumberWave waves entry.settings.waveArchives))⟩ := by
  simp only [newBank, hold] at h
  split at h
  · next hsame =>
    obtain ⟨hmap, hwhole⟩ := (Bool.and_eq_true _ _).mp hsame
    cases h
    rw [of_decide_eq_true hmap]
    unfold remaining at hold
    split at hold
    · cases hold
    · next bank hbank =>
      rw [Option.isNone_iff_eq_none.1 hwhole] at hold
      cases hold
      exact hbank
  · split at h
    · cases h
    · cases h
      rfl

theorem bankEntry_of_collect {i : Nat} {entry : BankEntry} (h : a.collect = .ok (a', summary))
    (hentry : a.banks.entry? i = some entry) :
    ∃ entry' new, a'.banks.entry? i = some entry' ∧
      newBank a.bankPlans a.shrunkWaves.toArray entry i = .ok new ∧
      entry'.settings = entry.settings ∧
      entry'.resource = (new.elim entry.resource fun new => some new.1) ∧
      entry'.body = new.elim entry.body fun new => new.2 := by
  obtain ⟨-, banks, hbanks, ha'⟩ := eq_replace_of_collect h
  have hslot : a.banks[i]? = some (some entry) := Slots.entry?_eq_some.1 hentry
  have hzip : a.banks.zipIdx[i]? = some (some entry, i) := by
    simp [List.getElem?_zipIdx, hslot]
  obtain ⟨new, hnew, hbank⟩ := getElem?_of_mapM hbanks hzip
  obtain ⟨entry', hentry', hsame⟩ := Slots.entry?_replace hentry hnew
  exact ⟨entry', new, ha' ▸ hentry', hbank, hsame⟩

theorem bank?_of_collect {entry : BankEntry} {old : List Instrument}
    (h : a.collect = .ok (a', summary)) (hentry : a.bank? n = some entry)
    (hold : remaining a.bankPlans entry n.toNat = some old) :
    ∃ entry', a'.bank? n = some entry' ∧ entry'.settings = entry.settings ∧
      entry'.resource = some ⟨old.map (·.mapRanges
        (·.renumberWave a.shrunkWaves.toArray entry.settings.waveArchives))⟩ := by
  obtain ⟨entry', new, hentry', hbank, hsettings, hresource, -⟩ := bankEntry_of_collect h hentry
  exact ⟨entry', hentry', hsettings, hresource.trans (resource_of_newBank hold hbank)⟩

theorem sequences_of_collect (h : a.collect = .ok (a', summary)) :
    ∃ news, a.newSequences a.bankPlans (a.sequences.mapLive scanEntry) = .ok news ∧
      a'.sequences = a.sequences.replace news := by
  unfold collect at h
  obtain ⟨news, hnews, h⟩ := bind_eq_ok.1 h
  obtain ⟨banks, -, h⟩ := bind_eq_ok.1 h
  cases h
  exact ⟨news, hnews, rfl⟩

theorem sequence_of_collect (h : a.collect = .ok (a', summary)) {i : Nat} {entry : SequenceEntry}
    (hentry : a.sequences.entry? i = some entry) :
    ∃ entry' new, a'.sequences.entry? i = some entry' ∧
      newSequence a.bankPlans entry (scanEntry entry).scan i = .ok new ∧
      entry'.settings = entry.settings ∧
      entry'.resource = new.elim entry.resource fun new => some new.1 := by
  obtain ⟨news, hnews, ha'⟩ := sequences_of_collect h
  have hslot : a.sequences[i]? = some (some entry) := Slots.entry?_eq_some.1 hentry
  have hzip : (a.sequences.zip (a.sequences.mapLive scanEntry)).zipIdx[i]?
      = some ((some entry, some (scanEntry entry)), i) := by
    simp [List.getElem?_zipIdx, List.getElem?_zip_eq_some, Slots.mapLive, hslot]
  obtain ⟨new, hnew, hsequence⟩ := getElem?_of_mapM hnews hzip
  obtain ⟨entry', hentry', hsettings, hresource, -⟩ := Slots.entry?_replace hentry hnew
  exact ⟨entry', new, ha' ▸ hentry', hsequence, hsettings, hresource⟩

theorem entry?_shrinkWaveArchives (a : Archive) (users : List WaveUser) (i : Nat) :
    Slots.entry? (a.shrinkWaveArchives users) i
      = (a.waveArchives.entry? i).bind fun entry =>
          entry.resource.bind fun waves => waves.shrinkFor i users := by
  simp only [Slots.entry?, shrinkWaveArchives, List.getElem?_map, List.getElem?_zipIdx]
  rcases a.waveArchives[i]? with _ | _ | _ <;> simp

theorem resource_of_newWaveArchive (entry : WaveArchiveEntry) (shrunk : Option ShrunkWaves) :
    ((newWaveArchive (some entry) shrunk).elim entry.resource fun new => some new.1)
      = (shrunk.map (·.waves)).or entry.resource := by
  cases shrunk with
  | none => rfl
  | some s =>
    simp only [newWaveArchive]
    split
    · next hsame => exact hsame
    · rfl

/-- Wave archives that were shrunk hold what is left of them, and the others what they held. -/
theorem resource_of_collect (h : a.collect = .ok (a', summary)) (i : Nat) :
    (a'.waveArchives.entry? i).bind (·.resource)
      = ((a.shrunkWaves.entry? i).map (·.waves)).or
          ((a.waveArchives.entry? i).bind (·.resource)) := by
  obtain ⟨ha', -⟩ := eq_replace_of_collect h
  rw [ha']
  cases hentry : a.waveArchives.entry? i with
  | none =>
    rw [Slots.entry?_replace_of_hole hentry, shrunkWaves, entry?_shrinkWaveArchives, hentry]
    rfl
  | some entry =>
    have hslot : a.waveArchives[i]? = some (some entry) := Slots.entry?_eq_some.1 hentry
    have hlength : a.shrunkWaves.length = a.waveArchives.length := by
      simp [shrunkWaves, shrinkWaveArchives]
    have hlt : i < a.shrunkWaves.length := hlength ▸ Slots.lt_of_entry?_eq_some hentry
    have hshrunk : a.shrunkWaves[i]? = some a.shrunkWaves[i] := List.getElem?_eq_getElem hlt
    have hnew : (a.waveArchives.zipWith newWaveArchive a.shrunkWaves)[i]?
        = some (newWaveArchive (some entry) a.shrunkWaves[i]) := by
      simp [List.getElem?_zipWith, hslot, hshrunk]
    obtain ⟨entry', hentry', -, hresource, -⟩ := Slots.entry?_replace hentry hnew
    rw [hentry', Option.bind_some, hresource, resource_of_newWaveArchive, Slots.entry?, hshrunk]
    rfl

/-! ## The waves -/

theorem wave?_waveArchivesOf (a : Archive) (entry : BankEntry) (bank : Bank)
    (r : KeyRange) :
    Instruments.wave? ⟨bank, a.waveArchivesOf entry⟩ r
      = entry.settings.waveArchives[r.waveArchive.toNat]?.bind fun n =>
          ((a.waveArchive? n).bind (·.resource)).bind (·.wave? r.wave.toNat) := by
  simp only [Instruments.wave?, waveArchivesOf, List.getElem?_map, Vector.getElem?_toList]
  cases entry.settings.waveArchives[r.waveArchive.toNat]? with
  | none => rfl
  | some n => rfl

theorem mem_waveUsers {plans : BankPlans} {entry : BankEntry} (hentry : a.bank? n = some entry) :
    { slots := entry.settings.waveArchives,
      instruments := remaining plans entry n.toNat : WaveUser } ∈ a.waveUsers plans := by
  have hslot : a.banks[n.toNat]? = some (some entry) := Slots.entry?_eq_some.1 hentry
  refine List.mem_filterMap.2 ⟨(some entry, n.toNat), ?_, rfl⟩
  exact List.mem_iff_getElem?.2 ⟨n.toNat, by simp [List.getElem?_zipIdx, hslot]⟩

/-- Ranges that are left play the waves that they played. -/
theorem wave?_renumberWave {entry entry' : BankEntry} {old : List Instrument} {r : KeyRange}
    (h : a.collect = .ok (a', summary))
    (hentry : a.bank? n = some entry) (hold : remaining a.bankPlans entry n.toNat = some old)
    (hsettings : entry'.settings = entry.settings) (hr : r ∈ old.flatMap Instrument.ranges)
    (huses : r.usesWave) (bank bank' : Bank) :
    Instruments.wave? ⟨bank', a'.waveArchivesOf entry'⟩
        (r.renumberWave a.shrunkWaves.toArray entry.settings.waveArchives)
      = Instruments.wave? ⟨bank, a.waveArchivesOf entry⟩ r := by
  rw [wave?_waveArchivesOf, wave?_waveArchivesOf, hsettings, KeyRange.renumberWave_eq]
  cases hw : entry.settings.waveArchives[r.waveArchive.toNat]? with
  | none => rfl
  | some w =>
    have hplays : WaveUser.waveArchiveOf? entry.settings.waveArchives r = some w.toNat := by
      rw [WaveUser.waveArchiveOf?, if_pos huses, hw]
      rfl
    have hresource := resource_of_collect h w.toNat
    simp only [Option.bind_some, waveArchive?, KeyRange.wave_renumberWave hplays]
    cases hshrunk : a.shrunkWaves.entry? w.toNat with
    | none =>
      rw [hshrunk] at hresource
      split
      · rfl
      · rw [hresource]
        rfl
    | some s =>
      split
      · rfl
      rw [hresource, hshrunk]
      rw [shrunkWaves, entry?_shrinkWaveArchives] at hshrunk
      obtain ⟨wavesEntry, hwavesEntry, hwaves⟩ := Option.bind_eq_some_iff.1 hshrunk
      obtain ⟨waves, hwaves, hs⟩ := Option.bind_eq_some_iff.1 hwaves
      rw [hwavesEntry, Option.bind_some, hwaves]
      exact WaveArchive.wave?_shrinkFor hs (mem_waveUsers hentry) hold hr hplays

/-! ## The patches -/

theorem lt_of_mem_patches {entry : SequenceEntry} {m : Nat} (hm : m ∈ (scanEntry entry).patches) :
    m < 2 ^ 28 := by
  rw [scanEntry, ScannedSequence.patches] at hm
  split at hm
  · next scan hscan =>
    obtain ⟨sequence, -, hok⟩ := Option.bind_eq_some_iff.1 hscan
    rcases List.mem_cons.1 hm with rfl | hm
    · decide
    · obtain ⟨patch, hpatch, rfl⟩ := List.mem_map.1 hm
      obtain ⟨site, hsite, rfl⟩ := PatchScan.mem_usedPatches_iff.1 hpatch
      exact PatchScan.toNat_lt_of_mem_patches (toOption_eq_some.1 hok) hsite
  · obtain rfl := List.mem_singleton.1 hm
    decide

/-- The patches of a sequence that plays with a bank are told by no more bytes than before. -/
theorem renumber_lt {entry : BankEntry} {bank : Bank} {shrunk : ShrunkBank} {s : SequenceEntry}
    (howns : a.OwnsNumber n) (hentry : a.bank? n = some entry)
    (hbank : entry.resource = some bank) (hshrunk : a.bankPlans.shrunk? n = some shrunk)
    (hs : s ∈ a.sequences.live) (hplays : s.settings.bank = n) {m : Nat}
    (hm : m ∈ (scanEntry s).patches) : shrunk.selection.renumber m < 2 ^ 28 := by
  obtain rfl := BankPlan.eq_shrink_of_shrunk?
    ((shrunk?_bankPlans howns hentry hbank).symm.trans hshrunk)
  refine Selection.renumber_lt _ ?_ (List.mem_flatMap.2 ⟨scanEntry s,
    List.mem_filter.2 ⟨scanEntry_mem_live hs, decide_eq_true hplays⟩, hm⟩)
  intro k hk
  obtain ⟨t, ht, hk⟩ := List.mem_flatMap.1 hk
  obtain ⟨i, hi⟩ := Slots.mem_live.1 (List.mem_filter.1 ht).1
  obtain ⟨e, -, rfl⟩ := Option.map_eq_some_iff.1 ((Slots.entry?_mapLive ..).symm.trans hi)
  exact lt_of_mem_patches hk

/-- The sequence tells at every site what the patch there is numbered now. -/
theorem newPatches_of_collect {entry : BankEntry} {bank : Bank} {i : Nat} {s : SequenceEntry}
    {sequence : Sequence} {scan : PatchScan} (howns : a.OwnsNumber n)
    (h : a.collect = .ok (a', summary)) (hentry : a.bank? n = some entry)
    (hbank : entry.resource = some bank) (hs : a.sequences.entry? i = some s)
    (hplays : s.settings.bank = n) (hsequence : s.resource = some sequence)
    (hscan : scanPatches sequence.code = .ok scan) (hlaid : scan.WellLaidOut sequence.code)
    (hsize : sequence.code.size < 2 ^ 62) :
    ∃ s' sequence' scan', a'.sequences.entry? i = some s' ∧ s'.resource = some sequence' ∧
      Relation.ReflTransGen PatchScan.Splices (sequence.code, scan) (sequence'.code, scan') ∧
      scan'.patches.map (·.patch) = scan.patches.map fun site => a.newPatch n site.patch := by
  obtain ⟨s', new, hs', hnew, -, hresource⟩ := sequence_of_collect h hs
  have hfound : (scanEntry s).scan = some scan := by
    simp [scanEntry, hsequence, hscan, Except.toOption]
  have hlength := hlaid.length_patches_le
  simp only [newSequence, hplays, hsequence, hfound] at hnew
  cases hshrunk : a.bankPlans.shrunk? n with
  | none =>
    rw [hshrunk] at hnew
    cases hnew
    refine ⟨s', sequence, scan, hs', hresource.trans hsequence, .refl, ?_⟩
    simp only [newPatch, hshrunk]
  | some shrunk =>
    simp only [hshrunk] at hnew
    simp only [newPatch, hshrunk]
    split at hnew
    · next hneeds =>
      split at hnew
      · cases hnew
      · next code hcode =>
        cases hnew
        have hbits (site : PatchSite) (hsite : site ∈ scan.patches) :
            shrunk.selection.renumber site.patch.toNat < 2 ^ 28 :=
          renumber_lt howns hentry hbank hshrunk (Slots.mem_live.2 ⟨i, hs⟩) hplays
            (toNat_mem_patches hsequence hscan (PatchScan.mem_usedPatches hsite))
        obtain ⟨scan', hrun, hpatches⟩ := hlaid.run_of_renumberPatches hbits (by omega) hcode
        exact ⟨s', ⟨code⟩, scan', hs', hresource, hrun, hpatches⟩
    · next hneeds =>
      -- No patch has another number.
      cases hnew
      refine ⟨s', sequence, scan, hs', hresource.trans hsequence, .refl, ?_⟩
      refine List.map_congr_left fun site hsite => ?_
      have hsame : shrunk.selection.renumber site.patch.toNat = site.patch.toNat := by
        by_contra hne
        exact hneeds (List.any_eq_true.2 ⟨site, hsite, decide_eq_true hne⟩)
      rw [hsame]
      simp

/-! ## The whole -/

/-- What a patch and a key play, before and after. -/
structure SameSound (before after : Instruments) (r r' : KeyRange) : Prop where
  range : r' = { r with wave := r'.wave }
  wave : r.usesWave → after.wave? r' = before.wave? r

/-- A bank plays what was left of it, whatever patches and waves are numbered now. -/
theorem sound_of_collect {entry : BankEntry} {old : List Instrument}
    (h : a.collect = .ok (a', summary)) (hentry : a.bank? n = some entry)
    (hold : remaining a.bankPlans entry n.toNat = some old) (bank : Bank) :
    ∃ entry' bank', a'.bank? n = some entry' ∧ entry'.resource = some bank' ∧
      ∀ patch key, Option.Rel
        (SameSound ⟨bank, a.waveArchivesOf entry⟩ ⟨bank', a'.waveArchivesOf entry'⟩)
        (Bank.range? ⟨old⟩ patch key) (bank'.range? patch key) := by
  obtain ⟨entry', hentry', hsettings, hbank'⟩ := bank?_of_collect h hentry hold
  refine ⟨entry', _, hentry', hbank', fun patch key => ?_⟩
  rw [Bank.range?_mapRanges (KeyRange.highNote_renumberWave _ _)]
  cases hrange : Bank.range? ⟨old⟩ patch key with
  | none => exact .none
  | some r =>
    refine .some ⟨KeyRange.renumberWave_eq _ _ r, fun huses => ?_⟩
    exact wave?_renumberWave h hentry hold hsettings (Bank.mem_of_range? hrange) huses _ _

/-- A patch that a sequence selects plays the same under its new number, whatever the key. What is
left of the sequence tells this number wherever the patch was told, as long as the sites there lie
apart. -/
theorem collect_keeps_sound {entry : BankEntry} {bank : Bank} {s : SequenceEntry}
    {sequence : Sequence} {scan : PatchScan} {patch : UInt32}
    (hbanks : a.banks.length < 65536)
    (h : a.collect = .ok (a', summary)) (hentry : a.bank? n = some entry)
    (hbank : entry.resource = some bank) (hs : s ∈ a.sequences.live)
    (hplays : s.settings.bank = n) (hsequence : s.resource = some sequence)
    (hscan : scanPatches sequence.code = .ok scan) (hpatch : patch ∈ scan.usedPatches) :
    (∃ entry' bank', a'.bank? n = some entry' ∧ entry'.resource = some bank' ∧
      ∀ key, Option.Rel
        (SameSound ⟨bank, a.waveArchivesOf entry⟩ ⟨bank', a'.waveArchivesOf entry'⟩)
        (bank.range? patch key) (bank'.range? (a.newPatch n patch) key)) ∧
    ∀ i, a.sequences.entry? i = some s → scan.WellLaidOut sequence.code →
      sequence.code.size < 2 ^ 62 →
      ∃ s' sequence' scan', a'.sequences.entry? i = some s' ∧ s'.resource = some sequence' ∧
        Relation.ReflTransGen PatchScan.Splices (sequence.code, scan) (sequence'.code, scan') ∧
        (scan'.patches.map (·.patch) = scan.patches.map fun site => a.newPatch n site.patch) ∧
        ∀ site ∈ scan'.patches, Bytecode.readNumber sequence'.code site.operand
          = .ok (site.patch, site.operand + site.length) := by
  have howns := ownsNumber_of_length hbanks n
  obtain ⟨old, hold, hranges⟩ := range?_remaining howns hentry hbank hs hplays hsequence hscan hpatch
  obtain ⟨entry', bank', hentry', hbank', hsound⟩ := sound_of_collect h hentry hold bank
  refine ⟨⟨entry', bank', hentry', hbank', fun key => ?_⟩, fun i hi hlaid hsize => ?_⟩
  · rw [← hranges key]
    exact hsound _ key
  · obtain ⟨s', sequence', scan', hs', hsequence', hrun, hpatches⟩ :=
      newPatches_of_collect howns h hentry hbank hi hplays hsequence hscan hlaid hsize
    exact ⟨s', sequence', scan', hs', hsequence', hrun, hpatches, (hlaid.run hrun).reads⟩

theorem wellLaidOut_selectTwo :
    PatchScan.WellLaidOut { patches := [⟨0, 1, 1, 2⟩] } #[0x81, 2, 0xFF] where
  inside := by decide
  apart := by decide
  ordered := by decide
  reads := by decide
  targets := by
    intro b hb
    cases hb

/-- Patch 2 becomes patch 0 here, and its wave becomes the only one. -/
theorem collect_keeps_sound_of_piano :
    let hum : Wave := .ofData .pcm8 false 8000 2000 0 #[1, 2, 3, 4]
    let piano : KeyRange :=
      { lowNote := 0, highNote := 127, record := 1, wave := 1, waveArchive := 0, baseNote := 60
        attack := 127, decay := 127, sustain := 127, release := 127, pan := 64 }
    let bank : Bank := ⟨[.empty, .empty, .single piano]⟩
    let song : SequenceEntry :=
      { name := "A", isPlaceholder := false, archiveId := "x", fileId := 0, body := #[]
        settings := { bank := 0, volume := 127, channelPriority := 64, playerPriority := 32
                      player := 0, reserved := 0, reservedTail := (0, 0) }
        resource := some ⟨#[0x81, 2, 0xFF]⟩ }
    let entry : BankEntry :=
      { name := "B", isPlaceholder := false, archiveId := "x", fileId := 1, body := #[]
        settings := { waveArchives := #v[0, 0xFFFF, 0xFFFF, 0xFFFF], reserved := 0 }
        resource := some bank }
    let waves : WaveArchiveEntry :=
      { name := "C", isPlaceholder := false, archiveId := "x", fileId := 2, body := #[]
        settings := { reserved := 0 }
        resource := some (.ofWaves [.ofData .pcm8 false 8000 2000 0 #[], hum]) }
    let a : Archive :=
      { mergeCount := 0, hasSymbols := true, needsSymbolCleanup := false, fileTableLength := 3
        sequences := [some song], banks := [some entry], waveArchives := [some waves]
        players := [] }
    ∃ a' summary, a.collect = .ok (a', summary) ∧
      (∃ entry' bank' r', a'.bank? 0 = some entry' ∧ entry'.resource = some bank' ∧
        bank'.range? 0 60 = some r' ∧
        Instruments.wave? ⟨bank', a'.waveArchivesOf entry'⟩ r' = some hum) ∧
      ∃ song' sequence' operand behind, a'.sequences.entry? 0 = some song' ∧
        song'.resource = some sequence' ∧
        Bytecode.readNumber sequence'.code operand = .ok (0, behind) := by
  intro hum piano bank song entry waves a
  have hscan : scanPatches #[0x81, 2, 0xFF] = .ok { patches := [⟨0, 1, 1, 2⟩] } := by cbv
  have hok : a.collect.toBool = true := by cbv
  obtain ⟨⟨a', summary⟩, h⟩ : ∃ result, a.collect = .ok result := by
    cases h : a.collect with
    | error e => rw [h] at hok; cases hok
    | ok result => exact ⟨result, rfl⟩
  have hpatch : (2 : UInt32) ∈ PatchScan.usedPatches { patches := [⟨0, 1, 1, 2⟩] } := by
    decide +kernel
  obtain ⟨⟨entry', bank', hentry', hbank', hsound⟩, hsites⟩ := collect_keeps_sound (by decide) h
    rfl rfl (List.mem_singleton_self song) rfl rfl hscan hpatch
  have hnew : a.newPatch 0 2 = 0 := by cbv
  refine ⟨a', summary, h, ?_, ?_⟩
  · have hpiano : bank.range? 2 60 = some piano := rfl
    have hplays := hsound 60
    rw [hnew, hpiano] at hplays
    generalize hrange : bank'.range? 0 60 = range at hplays
    cases hplays with
    | some hsame =>
      have hhum : Instruments.wave? ⟨bank, a.waveArchivesOf entry⟩ piano = some hum := by
        decide +kernel
      exact ⟨entry', bank', _, hentry', hbank', hrange, (hsame.wave rfl).trans hhum⟩
  · obtain ⟨song', sequence', scan', hsong', hsequence', -, hpatches, hreads⟩ :=
      hsites 0 rfl wellLaidOut_selectTwo (by decide)
    rw [List.map_singleton, hnew] at hpatches
    obtain ⟨site, hsite, hzero⟩ := List.map_eq_singleton_iff.1 hpatches
    have hread := hreads site (hsite ▸ List.mem_singleton_self site)
    rw [hzero] at hread
    exact ⟨song', sequence', _, _, hsong', hsequence', hread⟩

end Archive

end SoundArchive
