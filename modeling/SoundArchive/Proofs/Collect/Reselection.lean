import SoundArchive.Proofs.Collect.Renumbering
import SoundArchive.Proofs.Collect.Settled

/-!
# Selecting again

Sequences and instruments that were renumbered select what was kept under its new numbers. So
all of it is selected again, and nothing else is there.
-/

namespace SoundArchive

open PatchScan

/-! ## Sequences that were renumbered -/

namespace PatchScan

variable {code code' : Bytes} {scan : PatchScan} {selection : Selection}

theorem mem_usedPatches_toNat {m : Nat} :
    m ∈ scan.usedPatches.map UInt32.toNat ↔ ∃ site ∈ scan.patches, site.patch.toNat = m := by
  simp [usedPatches]

/-- Bytecode that was renumbered is scanned again, and selects the new patches. -/
theorem rescan_of_renumberPatches (hscan : scanPatches code = .ok scan) (hapart : PartsApart code)
    (hsize : code.size < 2 ^ 62)
    (hbits : ∀ site ∈ scan.patches, selection.renumber site.patch.toNat < 2 ^ 28)
    (h : Sequence.renumberPatches selection code scan = .ok code') :
    ∃ scan', scanPatches code' = .ok scan' ∧ scan'.isDynamic = scan.isDynamic ∧
      ∀ m, m ∈ scan'.usedPatches.map UInt32.toNat ↔
        ∃ n ∈ scan.usedPatches.map UInt32.toNat, selection.renumber n = m := by
  have hscanned := scanned_of_scan hscan hapart
  have hlength := hscanned.wellLaidOut.length_patches_le
  obtain ⟨final, hrun, hpatches⟩ :=
    hscanned.wellLaidOut.run_of_renumberPatches hbits (by omega) h
  obtain ⟨hscanned', hdynamic'⟩ := hscanned.run hrun
  obtain ⟨scan', hscan', hmem, hdynamic⟩ := hscanned'.rescan
  refine ⟨scan', hscan', hdynamic.trans hdynamic', fun m => ?_⟩
  have hnew : ∀ site ∈ scan.patches, (selection.renumber site.patch.toNat).toUInt32.toNat
      = selection.renumber site.patch.toNat :=
    fun site hsite => Bytes.toNat_toUInt32 (by have := hbits site hsite; omega)
  calc m ∈ scan'.usedPatches.map UInt32.toNat
      ↔ ∃ patch ∈ final.patches.map (·.patch), patch.toNat = m := by
        rw [mem_usedPatches_toNat]
        simp only [hmem, List.mem_map, exists_exists_and_eq_and]
    _ ↔ ∃ site ∈ scan.patches, selection.renumber site.patch.toNat = m := by
        rw [hpatches]
        simp only [List.mem_map, exists_exists_and_eq_and]
        exact exists_congr fun site => and_congr_right fun hsite => by rw [hnew site hsite]
    _ ↔ ∃ n ∈ scan.usedPatches.map UInt32.toNat, selection.renumber n = m := by
        simp only [mem_usedPatches_toNat, exists_exists_and_eq_and]

end PatchScan

/-! ## Waves that were renumbered -/

namespace WaveUser

variable {user : WaveUser} {shrunk : Array (Option ShrunkWaves)} {n : Nat}

/-- A user whose instruments were told the new numbers of their waves. -/
def renumbered (shrunk : Array (Option ShrunkWaves)) (user : WaveUser) : WaveUser :=
  { user with
    instruments := user.instruments.map fun instruments =>
      instruments.map (·.mapRanges (·.renumberWave shrunk user.slots)) }

theorem waveArchiveOf?_renumberWave (slots : Vector UInt16 4) (r : KeyRange) :
    waveArchiveOf? slots (r.renumberWave shrunk slots) = waveArchiveOf? slots r := by
  rw [KeyRange.renumberWave_eq]
  rfl

theorem flatMap_ranges_mapRanges (f : KeyRange → KeyRange) (instruments : List Instrument) :
    (instruments.map (·.mapRanges f)).flatMap Instrument.ranges
      = (instruments.flatMap Instrument.ranges).map f := by
  rw [List.flatMap_map, List.map_flatMap]
  congr 1
  funext i
  cases i <;> rfl

theorem wavesOf_renumbered {s : ShrunkWaves} (hs : shrunk[n]?.join = some s)
    (hbits : ∀ m ∈ user.wavesOf n, s.selection.renumber m < 2 ^ 16) :
    (user.renumbered shrunk).wavesOf n = (user.wavesOf n).map s.selection.renumber := by
  have hranges : ((user.renumbered shrunk).instruments.getD []).flatMap Instrument.ranges
      = ((user.instruments.getD []).flatMap Instrument.ranges).map
          (·.renumberWave shrunk user.slots) := by
    rw [← flatMap_ranges_mapRanges, renumbered]
    cases user.instruments <;> rfl
  unfold wavesOf at hbits ⊢
  rw [hranges, List.filterMap_map, List.map_filterMap]
  refine List.filterMap_congr fun r hr => ?_
  simp only [Function.comp_def, renumbered, waveArchiveOf?_renumberWave]
  split
  · next hplays =>
    have hlt := hbits r.wave.toNat (List.mem_filterMap.2 ⟨r, hr, if_pos hplays⟩)
    have hwave : (r.renumberWave shrunk user.slots).wave
        = (s.selection.renumber r.wave.toNat).toUInt16 := by
      rw [KeyRange.renumberWave, hplays, Option.bind_some, hs]
    rw [hwave, Option.map_some, Nat.toUInt16_eq, UInt16.toNat_ofNat', Nat.mod_eq_of_lt hlt]
  · rfl

end WaveUser

namespace WaveArchive

variable {waves : WaveArchive} {users : List WaveUser} {shrunk : Array (Option ShrunkWaves)}
  {n : Nat}

/-- The same users refer to the wave archive, and those that were not read were not read. -/
theorem shrinkFor_users_renumbered (waves : WaveArchive) (users : List WaveUser) :
    waves.shrinkFor n (users.map (·.renumbered shrunk))
      = if (users.filter (·.refersTo n)).isEmpty ||
          (users.filter (·.refersTo n)).any (·.instruments.isNone) then none
        else some (waves.shrink ((users.filter (·.refersTo n)).flatMap
          fun user => (user.renumbered shrunk).wavesOf n)) := by
  have hfilter : (users.map (·.renumbered shrunk)).filter (·.refersTo n)
      = (users.filter (·.refersTo n)).map (·.renumbered shrunk) := by
    rw [List.filter_map]
    rfl
  have hread : ∀ user : WaveUser,
      (user.renumbered shrunk).instruments.isNone = user.instruments.isNone := by
    intro user
    rw [WaveUser.renumbered]
    cases user.instruments <;> rfl
  simp only [shrinkFor, hfilter, List.isEmpty_map, List.any_map, Function.comp_def, hread,
    List.flatMap_map]

theorem shrinkFor_renumbered_of_none {waves' : WaveArchive} (h : waves.shrinkFor n users = none) :
    waves'.shrinkFor n (users.map (·.renumbered shrunk)) = none := by
  simp only [shrinkFor] at h
  split at h
  · next hleave => rw [shrinkFor_users_renumbered, if_pos hleave]
  · cases h

theorem length_shrunk (waves : WaveArchive) (used : List Nat) :
    ((waves.shrink used).selection.kept.filterMap waves.wave?).length
      = (waves.shrink used).selection.kept.length := by
  rw [List.length_filterMap_eq_countP, List.countP_eq_length]
  exact fun m hm => (Selection.mem_kept.1 hm).2

theorem shrink_renumbered (waves : WaveArchive) (used : List Nat) :
    let s := waves.shrink used
    let s' := s.waves.shrink (used.map s.selection.renumber)
    (∀ m, s'.selection.renumber m = m) ∧ s'.waves = s.waves := by
  intro s s'
  have hsettled : Selection.Settled (fun m => (s.waves.wave? m).isSome)
      (used.map s.selection.renumber) (s.selection.kept.filterMap waves.wave?).length := by
    have hwaves : s.waves = ofWaves (s.selection.kept.filterMap waves.wave?) := rfl
    have hlength : (s.selection.kept.filterMap waves.wave?).length = s.selection.kept.length :=
      waves.length_shrunk used
    rw [hlength]
    refine Selection.settled_renumber (fun m => ?_) (fun m hm => ?_) fun m hm => ?_
    · simp only [hwaves, wave?_ofWaves, isSome_getElem?, hlength]
      exact Iff.rfl
    · exact List.mem_map_of_mem (Selection.mem_kept.1 hm).1
    · obtain ⟨k, hk, rfl⟩ := List.mem_map.1 hm
      exact Selection.renumber_le_length hk
  exact ⟨hsettled.renumber, waves_of_settled hsettled⟩

/-- What is left of a wave archive is left of it again, and its waves stay where they are. -/
theorem shrinkFor_renumbered {s : ShrunkWaves} (h : waves.shrinkFor n users = some s)
    (hs : shrunk[n]?.join = some s) :
    ∃ s', s.waves.shrinkFor n (users.map (·.renumbered shrunk)) = some s' ∧
      (∀ m, s'.selection.renumber m = m) ∧ s'.waves = s.waves := by
  simp only [shrinkFor] at h
  split at h
  · cases h
  next hshrink =>
  rw [shrinkFor_users_renumbered, if_neg hshrink]
  cases h
  generalize users.filter (·.refersTo n) = referring at hs ⊢
  have hlt : ∀ user ∈ referring, ∀ m ∈ user.wavesOf n,
      (waves.shrink (referring.flatMap (·.wavesOf n))).selection.renumber m < 2 ^ 16 := by
    intro user huser m hm
    refine Selection.renumber_lt _ ?_ (List.mem_flatMap.2 ⟨user, huser, hm⟩)
    intro k hk
    obtain ⟨_, _, hk⟩ := List.mem_flatMap.1 hk
    exact WaveUser.lt_of_mem_wavesOf hk
  have hused : referring.flatMap (fun user => (user.renumbered shrunk).wavesOf n)
      = (referring.flatMap (·.wavesOf n)).map
          (waves.shrink (referring.flatMap (·.wavesOf n))).selection.renumber := by
    rw [List.map_flatMap]
    exact List.flatMap_congr fun user huser => WaveUser.wavesOf_renumbered hs (hlt user huser)
  rw [hused]
  exact ⟨_, rfl, waves.shrink_renumbered _⟩

end WaveArchive

/-! ## What sequences select -/

namespace ScannedSequence

/-- The patches that literal patch changes select. -/
def literals (s : ScannedSequence) : List Nat :=
  (s.scan.map fun scan => scan.usedPatches.map UInt32.toNat).getD []

theorem mem_patches {s : ScannedSequence} {m : Nat} :
    m ∈ s.patches ↔ m = initialPatch ∨ m ∈ s.literals := by
  unfold patches literals
  cases s.scan <;> simp

end ScannedSequence

/-- A sequence before and after it was told the new numbers of its patches. -/
structure Rescanned (plans : BankPlans) (s s' : ScannedSequence) : Prop where
  bank : s'.bank = s.bank
  isDynamic : s'.isDynamic = s.isDynamic
  literals : ∀ bank, plans.shrunk? s.bank = some bank →
    ∀ m, m ∈ s'.literals ↔ ∃ n ∈ s.literals, bank.selection.renumber n = m

namespace Archive

variable {a b : Archive} {summary : CollectSummary} {plans : BankPlans}

/-- Some patches that the sequence selects get new numbers. -/
def Renumbers (plans : BankPlans) (entry : SequenceEntry) (sequence : Sequence) : Prop :=
  entry.resource = some sequence ∧ ∃ bank scan, plans.shrunk? entry.settings.bank = some bank ∧
    scanPatches sequence.code = .ok scan ∧ Sequence.needsRenumbering bank.selection scan = true

theorem scanEntry_congr {entry entry' : SequenceEntry}
    (hsettings : entry'.settings = entry.settings)
    (hresource : entry'.resource = entry.resource) : scanEntry entry' = scanEntry entry := by
  rw [scanEntry, scanEntry, hsettings, hresource]

theorem scan_scanEntry {entry : SequenceEntry} {scan : PatchScan} :
    (scanEntry entry).scan = some scan ↔
      ∃ sequence, entry.resource = some sequence ∧ scanPatches sequence.code = .ok scan := by
  simp [scanEntry, Option.bind_eq_some_iff, toOption_eq_some]

theorem mem_literals {s : ScannedSequence} {scan : PatchScan} (hscan : s.scan = some scan)
    {n : Nat} : n ∈ s.literals ↔ ∃ site ∈ scan.patches, site.patch.toNat = n := by
  rw [ScannedSequence.literals, hscan, Option.map_some, Option.getD_some, mem_usedPatches_toNat]

theorem lt_of_mem_literals {entry : SequenceEntry} {n : Nat}
    (hn : n ∈ (scanEntry entry).literals) : n < 2 ^ 28 :=
  lt_of_mem_patches (ScannedSequence.mem_patches.2 (.inr hn))

theorem rescanned_of_newSequence {entry entry' : SequenceEntry} {i : Nat}
    {new : Option (Sequence × Bytes)}
    (hnew : newSequence plans entry (scanEntry entry).scan i = .ok new)
    (hsettings : entry'.settings = entry.settings)
    (hresource : entry'.resource = new.elim entry.resource fun new => some new.1)
    (hbits : ∀ bank, plans.shrunk? entry.settings.bank = some bank →
      ∀ n ∈ (scanEntry entry).literals, bank.selection.renumber n < 2 ^ 28)
    (hparts : ∀ sequence, Renumbers plans entry sequence →
      PartsApart sequence.code ∧ sequence.code.size < 2 ^ 62) :
    Rescanned plans (scanEntry entry) (scanEntry entry') := by
  unfold newSequence at hnew
  split at hnew
  case h_1 bank sequence scan hbank hsequence hscan =>
    obtain ⟨sequence', hsequence', hok⟩ := scan_scanEntry.1 hscan
    cases hsequence.symm.trans hsequence'
    split at hnew
    · next hneeds =>
      split at hnew
      · cases hnew
      · next code hcode =>
        cases hnew
        obtain ⟨hapart, hsize⟩ := hparts sequence ⟨hsequence, bank, scan, hbank, hok, hneeds⟩
        obtain ⟨scan', hok', hdynamic, hliterals⟩ := rescan_of_renumberPatches hok hapart hsize
          (fun site hsite => hbits bank hbank _ ((mem_literals hscan).2 ⟨site, hsite, rfl⟩)) hcode
        have hscan' : (scanEntry entry').scan = some scan' :=
          scan_scanEntry.2 ⟨⟨code⟩, hresource, hok'⟩
        refine ⟨congrArg (·.bank) hsettings, ?_, fun bank' hbank' m => ?_⟩
        · simp only [ScannedSequence.isDynamic, hscan, hscan', hdynamic]
        · cases hbank.symm.trans hbank'
          simp only [ScannedSequence.literals, hscan, hscan', Option.map_some, Option.getD_some]
          exact hliterals m
    · next hneeds =>
      cases hnew
      -- No patch of it has a new number, so it selects what it did.
      rw [scanEntry_congr hsettings hresource]
      refine ⟨rfl, rfl, fun bank' hbank' m => ?_⟩
      cases hbank.symm.trans hbank'
      have hsame : ∀ n ∈ (scanEntry entry).literals, bank.selection.renumber n = n := by
        intro n hn
        obtain ⟨site, hsite, rfl⟩ := (mem_literals hscan).1 hn
        by_contra hne
        exact hneeds (List.any_eq_true.2 ⟨site, hsite, decide_eq_true hne⟩)
      grind
  case h_2 hnone =>
    cases hnew
    rw [scanEntry_congr hsettings hresource]
    refine ⟨rfl, rfl, fun bank hbank m => ?_⟩
    have hscan : (scanEntry entry).scan = none := by
      rw [Option.eq_none_iff_forall_ne_some]
      intro scan hscan
      obtain ⟨sequence, hsequence, -⟩ := scan_scanEntry.1 hscan
      exact hnone bank sequence scan hbank hsequence hscan
    simp [ScannedSequence.literals, hscan]

end Archive

end SoundArchive
