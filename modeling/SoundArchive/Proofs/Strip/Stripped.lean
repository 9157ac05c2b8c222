import SoundArchive.Proofs.Strip.Compact

/-! # What is left of a stripped archive is compact -/

namespace SoundArchive

open Leaders Slots

namespace Archive

variable {a b : Archive} {decider : Decider} {options : StripOptions}

/-! ## Where the entries come from -/

theorem sequence?_moved (i : Nat) : (a.moved decider options).sequence? i
    = (a.keptSlots decider options)[i]?.map fun entry => a.moveKept decider options entry.2 := by
  refine (entry?_map (a.moveKept decider options) _ i).trans ?_
  rw [List.getElem?_map, Option.map_map]
  rfl

theorem banks_moved (i : Nat) : (a.moved decider options).banks.entry? i
    = ((a.keptBankSlots decider options)[i]?.bind a.banks.entry?).map
        (moveBank a.waveArchiveLeaders (a.keptWaveArchiveSlots decider options)) :=
  entry?_compact _ (fun _ hm => live_of_mem_keptBankSlots hm) i

theorem waveArchives_moved (i : Nat) : (a.moved decider options).waveArchives.entry? i
    = (a.keptWaveArchiveSlots decider options)[i]?.bind a.waveArchives.entry? :=
  (entry?_compact id (fun _ hm => (live_of_mem_keptWaveArchiveSlots hm).2) i).trans
    (by rw [Option.map_id, id])

theorem exists_kept {i : Nat} {s' : SequenceEntry}
    (h : (a.moved decider options).sequence? i = some s') :
    ∃ n s, (a.keptSlots decider options)[i]? = some (n, s) ∧ a.Keeps decider options n s ∧
      a.moveKept decider options s = s' := by
  rw [sequence?_moved] at h
  obtain ⟨⟨n, s⟩, hs, rfl⟩ := Option.map_eq_some_iff.1 h
  exact ⟨n, s, hs, mem_keptSlots.1 (List.mem_of_getElem? hs), rfl⟩

theorem exists_moved {n : Nat} {s : SequenceEntry} (h : a.Keeps decider options n s) :
    ∃ i, (a.moved decider options).sequence? i = some (a.moveKept decider options s) := by
  obtain ⟨i, hi⟩ := List.mem_iff_getElem?.1 (mem_keptSlots.2 h)
  exact ⟨i, by rw [sequence?_moved, hi]; rfl⟩

theorem exists_keptBank {i : Nat} {bank' : BankEntry}
    (h : (a.moved decider options).banks.entry? i = some bank') :
    ∃ k bank, (a.keptBankSlots decider options)[i]? = some k ∧ a.banks.entry? k = some bank ∧
      moveBank a.waveArchiveLeaders (a.keptWaveArchiveSlots decider options) bank = bank' := by
  rw [banks_moved] at h
  obtain ⟨bank, hbank, rfl⟩ := Option.map_eq_some_iff.1 h
  obtain ⟨k, hk, hbank⟩ := Option.bind_eq_some_iff.1 hbank
  exact ⟨k, bank, hk, hbank, rfl⟩

/-! ## References -/

theorem leadingBankOf_mem {n : Nat} {s : SequenceEntry} (h : a.Keeps decider options n s) :
    (a.leadingBankOf s.settings.bank).toNat ∈ a.keptBankSlots decider options :=
  mem_keptBankSlots.2 ⟨n, s, h, rfl⟩

theorem toNat_movedBank {n : Nat} {s : SequenceEntry} (h : a.Keeps decider options n s) :
    (a.moveKept decider options s).settings.bank.toNat
      = (a.keptBankSlots decider options).idxOf (a.leadingBankOf s.settings.bank).toNat :=
  toNat_toUInt16 (idxOf_ascending_le (leadingBankOf_mem h))

/-- The wave archive that stands for a reference of a kept bank is kept if there is one. -/
theorem leadingWaveArchive_mem {k : Nat} {bank : BankEntry} {w : UInt16}
    (hk : k ∈ a.keptBankSlots decider options) (hbank : a.banks.entry? k = some bank)
    (hw : w ∈ bank.settings.waveArchives.toList)
    (hlive : (a.waveArchive? (leadingWaveArchive a.waveArchiveLeaders w)).isSome) :
    (leadingWaveArchive a.waveArchiveLeaders w).toNat ∈ a.keptWaveArchiveSlots decider options :=
  mem_keptWaveArchiveSlots.2 ⟨k, hk, bank, hbank, w, hw, hlive, rfl⟩

theorem moveWaveArchive_of_kept {w : UInt16}
    (h : (leadingWaveArchive a.waveArchiveLeaders w).toNat
      ∈ a.keptWaveArchiveSlots decider options) :
    (moveWaveArchive a.waveArchiveLeaders (a.keptWaveArchiveSlots decider options) w).toNat
      = (a.keptWaveArchiveSlots decider options).idxOf
          (leadingWaveArchive a.waveArchiveLeaders w).toNat := by
  unfold moveWaveArchive
  split
  · next new hnew =>
    have hidx : (a.keptWaveArchiveSlots decider options).idxOf
        (leadingWaveArchive a.waveArchiveLeaders w).toNat = new := by
      rw [List.idxOf_eq_getD_idxOf?, hnew, Option.getD_some]
    rw [← hidx]
    exact toNat_toUInt16 (idxOf_ascending_le h)
  · next hnone => exact absurd h (List.idxOf?_eq_none_iff.1 hnone)

theorem moveWaveArchive_of_missing {w : UInt16}
    (h : a.waveArchive? (leadingWaveArchive a.waveArchiveLeaders w) = none) :
    moveWaveArchive a.waveArchiveLeaders (a.keptWaveArchiveSlots decider options) w
      = BankSettings.noWaveArchive := by
  have hnone : (a.keptWaveArchiveSlots decider options).idxOf?
      (leadingWaveArchive a.waveArchiveLeaders w).toNat = none := by
    rw [List.idxOf?_eq_none_iff]
    intro hmem
    obtain ⟨hlt, hlive⟩ := live_of_mem_keptWaveArchiveSlots hmem
    rw [← waveArchive?_of_lt a hlt, h] at hlive
    cases hlive
  rw [moveWaveArchive, hnone]

/-- What leads is the first of its kind. -/
theorem isFirst_of_leader {α κ : Type} {equal : α → α → Bool} {key : α → κ} {slots : Slots α}
    {n : UInt16} {e : α} (hequal : ∀ x y, equal x y = true ↔ key x = key y)
    (he : slots.entry? ((ofSlots equal slots).leader n.toNat).toUInt16.toNat = some e) :
    IsFirst key slots ((ofSlots equal slots).leader n.toNat).toUInt16.toNat e := by
  cases hx : slots.entry? n.toNat with
  | none =>
    rw [leader_of_hole hx, Nat.toUInt16_eq, UInt16.ofNat_toNat, hx] at he
    cases he
  | some x =>
    obtain ⟨y, hfirst, hkey⟩ := leader_spec hequal hx
    rw [toNat_toUInt16 (hfirst.2 _ x hx hkey.symm)] at he ⊢
    obtain rfl := Option.some.inj (he.symm.trans hfirst.1)
    exact hfirst

theorem isFirst_of_keptWaveArchive {k : Nat} {e : WaveArchiveEntry}
    (hk : k ∈ a.keptWaveArchiveSlots decider options) (he : a.waveArchives.entry? k = some e) :
    IsFirst (fun e => e.body) a.waveArchives k e := by
  obtain ⟨_, _, _, _, w, _, hlive, rfl⟩ := mem_keptWaveArchiveSlots.1 hk
  obtain ⟨_, hthere⟩ := Option.isSome_iff_exists.1 hlive
  obtain ⟨hne, -⟩ := waveArchive?_eq_some hthere
  have hw : w ≠ BankSettings.noWaveArchive := fun heq => hne ((if_pos heq).trans heq)
  rw [leadingWaveArchive, if_neg hw] at he ⊢
  exact isFirst_of_leader (fun x y => beq_iff_eq) he

theorem isFirst_of_keptBank {k : Nat} {bank : BankEntry}
    (hk : k ∈ a.keptBankSlots decider options) (hbank : a.banks.entry? k = some bank) :
    IsFirst (fun bank => (bank.body, leadingWaveArchives a.waveArchiveLeaders bank)) a.banks k
      bank := by
  obtain ⟨_, s, _, rfl⟩ := mem_keptBankSlots.1 hk
  exact isFirst_of_leader (fun x y => by simp) hbank

/-! ## The parts of compactness -/

theorem length_moved_banks : (a.moved decider options).banks.length
    = (a.keptBankSlots decider options).length := by
  simp only [moved, List.length_map]
  exact length_filterMap_of_live fun _ hm => live_of_mem_keptBankSlots hm

theorem length_moved_waveArchives : (a.moved decider options).waveArchives.length
    = (a.keptWaveArchiveSlots decider options).length := by
  simp only [moved, List.length_map]
  exact length_filterMap_of_live fun _ hm => (live_of_mem_keptWaveArchiveSlots hm).2

theorem bankUsed_moved {k : Nat} (hk : k < (a.moved decider options).banks.length) :
    ∃ n s, (a.moved decider options).sequence? n = some s ∧ s.settings.bank.toNat = k := by
  rw [length_moved_banks] at hk
  obtain ⟨n, s, hs, hslot⟩ := mem_keptBankSlots.1 (List.getElem_mem hk)
  obtain ⟨i, hi⟩ := exists_moved hs
  refine ⟨i, _, hi, ?_⟩
  rw [toNat_movedBank hs, hslot]
  exact (nodup_ascending _).idxOf_getElem k hk

theorem waveThere_moved {m : Nat} {bank' : BankEntry}
    (h : (a.moved decider options).banks.entry? m = some bank') {w' : UInt16}
    (hw' : w' ∈ bank'.settings.waveArchives.toList) :
    w' = BankSettings.noWaveArchive ∨ ((a.moved decider options).waveArchive? w').isSome := by
  obtain ⟨k, bank, hk, hbank, rfl⟩ := exists_keptBank h
  rw [moveBank, Vector.toList_map, List.mem_map] at hw'
  obtain ⟨w, hw, rfl⟩ := hw'
  cases hlive : a.waveArchive? (leadingWaveArchive a.waveArchiveLeaders w) with
  | none => exact .inl (moveWaveArchive_of_missing hlive)
  | some e =>
    refine .inr ?_
    rw [waveArchive?_moved (leadingWaveArchive_mem (List.mem_of_getElem? hk) hbank hw), hlive]
    rfl

theorem waveUsed_moved {k : Nat} (hk : k < (a.moved decider options).waveArchives.length) :
    ∃ m bank, (a.moved decider options).banks.entry? m = some bank ∧
      ∃ w ∈ bank.settings.waveArchives.toList,
        ((a.moved decider options).waveArchive? w).isSome ∧ w.toNat = k := by
  rw [length_moved_waveArchives] at hk
  obtain ⟨l, hl, bank, hbank, w, hw, hlive, hslot⟩ :=
    mem_keptWaveArchiveSlots.1 (List.getElem_mem hk)
  obtain ⟨m, hm⟩ := List.mem_iff_getElem?.1 hl
  refine ⟨m, _, by rw [banks_moved, hm, Option.bind_some, hbank]; rfl,
    moveWaveArchive a.waveArchiveLeaders (a.keptWaveArchiveSlots decider options) w, ?_, ?_, ?_⟩
  · rw [moveBank, Vector.toList_map]
    exact List.mem_map_of_mem hw
  · rwa [waveArchive?_moved (leadingWaveArchive_mem hl hbank hw)]
  · rw [moveWaveArchive_of_kept (leadingWaveArchive_mem hl hbank hw hlive), hslot]
    exact (nodup_ascending _).idxOf_getElem k hk

theorem playerUsed_moved {k : Nat} (hk : k < (a.moved decider options).players.length) :
    ∃ n s, (a.moved decider options).sequence? n = some s ∧ s.settings.player.toNat = k := by
  simp only [moved, List.length_map] at hk
  change k < (a.keptPlayersOf decider options).length at hk
  obtain ⟨player, hused, hp⟩ := mem_keptPlayers.1 (List.getElem_mem hk)
  have hmoved := getElem?_movedPlayer hused hp
  simp only [List.mem_map] at hused
  obtain ⟨s, ⟨⟨n, _⟩, hs, rfl⟩, rfl⟩ := hused
  obtain ⟨i, hi⟩ := exists_moved (mem_keptSlots.1 hs)
  refine ⟨i, _, hi, ?_⟩
  obtain ⟨hlt, heq⟩ := List.getElem?_eq_some_iff.1 hmoved
  exact (nodup_eraseDups _).getElem_inj_iff.1 heq

theorem sequencesDiffer_moved :
    Differ (fun s => (s.body, s.settings.bank)) (a.moved decider options).sequences := by
  intro i j s' t' hs' ht' hkey
  obtain ⟨m, s, hsi, hs, rfl⟩ := exists_kept hs'
  obtain ⟨n, t, htj, ht, rfl⟩ := exists_kept ht'
  have hbody : s.body = t.body := congrArg Prod.fst hkey
  have hbank : (a.moveKept decider options s).settings.bank
      = (a.moveKept decider options t).settings.bank := congrArg Prod.snd hkey
  have hidx := congrArg UInt16.toNat hbank
  rw [toNat_movedBank hs, toNat_movedBank ht] at hidx
  have hleader : a.leadingBankOf s.settings.bank = a.leadingBankOf t.settings.bank :=
    UInt16.toNat_inj.1 ((List.idxOf_inj (leadingBankOf_mem hs)).1 hidx)
  have hmn : m = n := Nat.le_antisymm (hs.first n t ht.live ht.included hbody.symm hleader.symm)
    (ht.first m s hs.live hs.included hbody hleader)
  have hslots : ((a.keptSlots decider options).map Prod.fst)[i]?
      = ((a.keptSlots decider options).map Prod.fst)[j]? := by
    rw [List.getElem?_map, List.getElem?_map, hsi, htj, Option.map_some, Option.map_some, hmn]
  have hnodup := (keptSlots_pairwise_lt a decider options).imp Nat.ne_of_lt
  refine (List.getElem?_inj ?_ hnodup).1 hslots
  rw [List.length_map]
  exact (List.getElem?_eq_some_iff.1 hsi).1

theorem waveArchivesDiffer_moved :
    Differ (fun e => e.body) (a.moved decider options).waveArchives := by
  intro i j x y hx hy hbody
  rw [waveArchives_moved] at hx hy
  obtain ⟨k, hk, hx⟩ := Option.bind_eq_some_iff.1 hx
  obtain ⟨l, hl, hy⟩ := Option.bind_eq_some_iff.1 hy
  have hfirst := isFirst_of_keptWaveArchive (List.mem_of_getElem? hk) hx
  have hfirst' := isFirst_of_keptWaveArchive (List.mem_of_getElem? hl) hy
  have hkl : k = l := Nat.le_antisymm (hfirst.2 l y hy hbody.symm) (hfirst'.2 k x hx hbody)
  exact (List.getElem?_inj (List.getElem?_eq_some_iff.1 hk).1 (nodup_ascending _)).1
    (hk.trans (hkl ▸ hl.symm))

/-! ## The whole -/

theorem isCompact_moved (a : Archive) (decider : Decider) (options : StripOptions) :
    (a.moved decider options).IsCompact where
  sequences := by simp [moved]
  banks := by simp [moved]
  waveArchives := by simp [moved]
  players := by simp [moved]
  bankThere n s' hs' := by
    obtain ⟨m, s, -, hs, rfl⟩ := exists_kept hs'
    have hbank := bank?_moved (leadingBankOf_mem hs)
    obtain ⟨bank, hthere⟩ := Option.isSome_iff_exists.1 hs.hasBank
    rw [hthere] at hbank
    exact Option.isSome_iff_exists.2 ⟨_, hbank⟩
  bankUsed _ := bankUsed_moved
  waveThere _ _ h _ := waveThere_moved h
  waveUsed _ := waveUsed_moved
  playerUsed _ := playerUsed_moved
  sequencesDiffer := sequencesDiffer_moved
  waveArchivesDiffer := waveArchivesDiffer_moved
  playersDiffer := by
    simp only [moved, live_map_some]
    exact nodup_eraseDups _

/-- Compactness is a matter of what the entries hold. -/
theorem SameContents.isCompact (h : SameContents a b) (ha : a.IsCompact) : b.IsCompact where
  sequences := none_notMem_of_contents h.sequences ha.sequences
  banks := none_notMem_of_contents h.banks ha.banks
  waveArchives := none_notMem_of_contents h.waveArchives ha.waveArchives
  players := h.players ▸ ha.players
  bankThere n s' hs' := by
    obtain ⟨s, hs, hcontent⟩ := exists_of_contents h.sequences hs'
    have hsettings : s.settings = s'.settings := congrArg Content.settings hcontent
    rw [h.isSome_bank?, ← hsettings]
    exact ha.bankThere n s hs
  bankUsed k hk := by
    rw [length_of_contents h.banks] at hk
    obtain ⟨n, s, hs, hbank⟩ := ha.bankUsed k hk
    obtain ⟨s', hs', hcontent⟩ := exists_of_contents h.symm.sequences hs
    have hsettings : s'.settings = s.settings := congrArg Content.settings hcontent
    exact ⟨n, s', hs', hsettings ▸ hbank⟩
  waveThere m bank' hbank' w hw := by
    obtain ⟨bank, hbank, hcontent⟩ := exists_of_contents h.banks hbank'
    have hsettings : bank.settings = bank'.settings := congrArg Content.settings hcontent
    rw [h.isSome_waveArchive?]
    exact ha.waveThere m bank hbank w (hsettings ▸ hw)
  waveUsed k hk := by
    rw [length_of_contents h.waveArchives] at hk
    obtain ⟨m, bank, hbank, w, hw, hlive, hwk⟩ := ha.waveUsed k hk
    obtain ⟨bank', hbank', hcontent⟩ := exists_of_contents h.symm.banks hbank
    have hsettings : bank'.settings = bank.settings := congrArg Content.settings hcontent
    refine ⟨m, bank', hbank', w, hsettings ▸ hw, ?_, hwk⟩
    rwa [h.isSome_waveArchive?]
  playerUsed k hk := by
    rw [h.players] at hk
    obtain ⟨n, s, hs, hplayer⟩ := ha.playerUsed k hk
    obtain ⟨s', hs', hcontent⟩ := exists_of_contents h.symm.sequences hs
    have hsettings : s'.settings = s.settings := congrArg Content.settings hcontent
    exact ⟨n, s', hs', hsettings ▸ hplayer⟩
  sequencesDiffer :=
    ha.sequencesDiffer.of_contents h.sequences fun c => (c.body, c.settings.bank)
  waveArchivesDiffer := ha.waveArchivesDiffer.of_contents h.waveArchives fun c => c.body
  playersDiffer := h.players ▸ ha.playersDiffer

theorem isCompact_strip (a : Archive) (decider : Decider) (options : StripOptions) :
    (a.strip decider options).1.IsCompact :=
  (sameContents_strip a decider options).isCompact (isCompact_moved a decider options)

end Archive

end SoundArchive
