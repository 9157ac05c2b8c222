import SoundArchive.Proofs.Strip.Content
import SoundArchive.Proofs.Strip.Players

/-! # Compact archives have nothing to strip -/

namespace SoundArchive

open Leaders Slots

/-! ## Leaders of what differs -/

theorem Leaders.leader_of_differ {α κ : Type} {equal : α → α → Bool} {key : α → κ}
    {slots : Slots α} (hequal : ∀ x y, equal x y = true ↔ key x = key y)
    (h : Differ key slots) (n : Nat) : (ofSlots equal slots).leader n = n := by
  cases hn : slots.entry? n with
  | none => exact leader_of_hole hn
  | some x =>
    refine (leader_eq_self_iff hequal hn).2 ⟨hn, ?_⟩
    intro m z hm hkey
    exact Nat.le_of_eq (h m n z x hm hn hkey).symm

namespace Archive

/-- No slot is a hole, every reference leads to an entry or is none, and every bank, wave archive
and player is in use. No two sequences are the same, nor wave archives, nor players. -/
structure IsCompact (a : Archive) : Prop where
  sequences : none ∉ a.sequences
  banks : none ∉ a.banks
  waveArchives : none ∉ a.waveArchives
  players : none ∉ a.players
  bankThere : ∀ n s, a.sequence? n = some s → (a.bank? s.settings.bank).isSome
  bankUsed : ∀ k < a.banks.length, ∃ n s, a.sequence? n = some s ∧ s.settings.bank.toNat = k
  waveThere : ∀ m bank, a.banks.entry? m = some bank → ∀ w ∈ bank.settings.waveArchives.toList,
    w = BankSettings.noWaveArchive ∨ (a.waveArchive? w).isSome
  waveUsed : ∀ k < a.waveArchives.length, ∃ m bank, a.banks.entry? m = some bank ∧
    ∃ w ∈ bank.settings.waveArchives.toList, (a.waveArchive? w).isSome ∧ w.toNat = k
  playerUsed : ∀ k < a.players.length, ∃ n s, a.sequence? n = some s ∧ s.settings.player.toNat = k
  sequencesDiffer : Differ (fun s => (s.body, s.settings.bank)) a.sequences
  waveArchivesDiffer : Differ (fun e => e.body) a.waveArchives
  playersDiffer : a.players.live.Nodup

/-- No two banks have the same body and refer to the same wave archives. -/
def BanksDiffer (a : Archive) : Prop :=
  Differ (fun bank => (bank.body, bank.settings.waveArchives)) a.banks

variable {a : Archive} {decider : Decider} {options : StripOptions}

/-! ## Everything leads itself -/

theorem IsCompact.leadingWaveArchive_eq (h : a.IsCompact) (w : UInt16) :
    leadingWaveArchive a.waveArchiveLeaders w = w := by
  unfold leadingWaveArchive waveArchiveLeaders
  split
  · rfl
  · rw [leader_of_differ (fun x y => beq_iff_eq) h.waveArchivesDiffer]
    exact UInt16.ofNat_toNat

theorem IsCompact.leadingWaveArchives_eq (h : a.IsCompact) (bank : BankEntry) :
    leadingWaveArchives a.waveArchiveLeaders bank = bank.settings.waveArchives := by
  simp [leadingWaveArchives, funext h.leadingWaveArchive_eq]

theorem IsCompact.leadingBankOf_eq (h : a.IsCompact) (hbanks : a.BanksDiffer) (n : UInt16) :
    a.leadingBankOf n = n := by
  have hequal : ∀ x y : BankEntry, (x.body == y.body && leadingWaveArchives a.waveArchiveLeaders x
      == leadingWaveArchives a.waveArchiveLeaders y) = true
      ↔ (x.body, x.settings.waveArchives) = (y.body, y.settings.waveArchives) := by
    intro x y
    simp [h.leadingWaveArchives_eq]
  unfold leadingBankOf bankLeaders
  rw [leader_of_differ hequal hbanks]
  exact UInt16.ofNat_toNat

/-! ## Everything is kept -/

section Kept

variable (h : a.IsCompact) (hbanks : a.BanksDiffer)
  (hincluded : ∀ n s, a.sequence? n = some s → isExcluded decider options s = false)
include h hbanks hincluded

theorem IsCompact.keeps_iff (n : Nat) (s : SequenceEntry) :
    a.Keeps decider options n s ↔ a.sequence? n = some s := by
  refine ⟨fun hs => hs.live, fun hs => ⟨hs, hincluded n s hs, ?_, ?_⟩⟩
  · rw [h.leadingBankOf_eq hbanks]
    exact h.bankThere n s hs
  · intro m t ht _ hbody hbank
    rw [h.leadingBankOf_eq hbanks, h.leadingBankOf_eq hbanks] at hbank
    exact Nat.le_of_eq (h.sequencesDiffer m n t s ht hs (Prod.ext hbody hbank)).symm

theorem IsCompact.keptSlots_eq :
    (a.keptSlots decider options).map Prod.snd = a.sequences.live := by
  have hslots : (a.keptSlots decider options).map Prod.fst = List.range a.sequences.length := by
    refine eq_range_of_pairwise_lt (keptSlots_pairwise_lt a decider options) ?_
    intro n
    rw [List.mem_map]
    constructor
    · rintro ⟨⟨_, s⟩, hs, rfl⟩
      exact lt_of_entry?_eq_some (mem_keptSlots.1 hs).live
    · intro hn
      obtain ⟨s, hs⟩ := entry?_of_lt h.sequences hn
      exact ⟨(n, s), mem_keptSlots.2 ((h.keeps_iff hbanks hincluded n s).2 hs), rfl⟩
  rw [live_eq_filterMap, ← hslots, List.filterMap_map, ← List.filterMap_eq_map]
  apply List.filterMap_congr
  rintro ⟨n, s⟩ hs
  exact (mem_keptSlots.1 hs).live.symm

theorem IsCompact.keptBankSlots_eq :
    a.keptBankSlots decider options = List.range a.banks.length := by
  refine eq_range_of_pairwise_lt (ascending_pairwise_lt _) ?_
  intro k
  refine mem_keptBankSlots.trans ⟨?_, ?_⟩
  · rintro ⟨n, s, hs, rfl⟩
    obtain ⟨bank, hbank⟩ := Option.isSome_iff_exists.1 hs.hasBank
    exact lt_of_entry?_eq_some hbank
  · intro hk
    obtain ⟨n, s, hs, hbank⟩ := h.bankUsed k hk
    refine ⟨n, s, (h.keeps_iff hbanks hincluded n s).2 hs, ?_⟩
    rw [h.leadingBankOf_eq hbanks, hbank]

theorem IsCompact.keptWaveArchiveSlots_eq :
    a.keptWaveArchiveSlots decider options = List.range a.waveArchives.length := by
  refine eq_range_of_pairwise_lt (ascending_pairwise_lt _) ?_
  intro k
  refine mem_keptWaveArchiveSlots.trans ⟨?_, ?_⟩
  · rintro ⟨_, _, _, _, w, _, hw, rfl⟩
    obtain ⟨e, he⟩ := Option.isSome_iff_exists.1 hw
    exact lt_of_entry?_eq_some (waveArchive?_eq_some he).2
  · intro hk
    obtain ⟨m, bank, hbank, w, hw, hlive, hwk⟩ := h.waveUsed k hk
    rw [h.keptBankSlots_eq hbanks hincluded]
    refine ⟨m, List.mem_range.2 (lt_of_entry?_eq_some hbank), bank, hbank, w, hw, ?_, ?_⟩
    · rwa [h.leadingWaveArchive_eq]
    · rwa [h.leadingWaveArchive_eq]

theorem IsCompact.keptPlayers_eq :
    keptPlayers a.players (((a.keptSlots decider options).map Prod.snd).map (·.settings.player))
      = a.players.live := by
  have hlive := map_some_live h.players
  have hlength : a.players.live.length = a.players.length := by
    rw [← List.length_map, hlive]
  rw [h.keptSlots_eq hbanks hincluded]
  conv_lhs => rw [← hlive]
  refine keptPlayers_of_used h.playersDiffer ?_
  intro k hk
  obtain ⟨n, s, hs, hplayer⟩ := h.playerUsed k (hlength ▸ hk)
  exact ⟨_, List.mem_map_of_mem (mem_live.2 ⟨n, hs⟩), hplayer⟩

end Kept

/-! ## Nothing moves -/

theorem IsCompact.moveSequence_eq (h : a.IsCompact) (hbanks : a.BanksDiffer) {s : SequenceEntry}
    (hs : s ∈ a.sequences.live) :
    moveSequence (a.bankLeaders a.waveArchiveLeaders) (List.range a.banks.length)
      (movedPlayer a.players a.players.live) s = s := by
  obtain ⟨n, hn⟩ := mem_live.1 hs
  obtain ⟨bank, hbank⟩ := Option.isSome_iff_exists.1 (h.bankThere n s hn)
  have hplayer := movedPlayer_of_nodup h.playersDiffer s.settings.player
  rw [map_some_live h.players] at hplayer
  have hbound := lt_of_entry?_eq_some hbank
  rw [moveSequence, leadingBank_eq, h.leadingBankOf_eq hbanks, idxOf_range hbound, hplayer,
    Nat.toUInt16_eq, UInt16.ofNat_toNat]

/-- No wave archive has the number that stands for none. -/
theorem IsCompact.length_waveArchives_le (h : a.IsCompact) :
    a.waveArchives.length ≤ BankSettings.noWaveArchive.toNat := by
  by_contra hlt
  obtain ⟨_, _, _, w, _, hw, hwk⟩ := h.waveUsed BankSettings.noWaveArchive.toNat (by omega)
  obtain ⟨e, he⟩ := Option.isSome_iff_exists.1 hw
  exact (waveArchive?_eq_some he).1 (UInt16.toNat_inj.1 hwk)

theorem IsCompact.moveBank_eq (h : a.IsCompact) {bank : BankEntry} (hbank : bank ∈ a.banks.live) :
    moveBank a.waveArchiveLeaders (List.range a.waveArchives.length) bank = bank := by
  obtain ⟨m, hm⟩ := mem_live.1 hbank
  have hmove : ∀ w ∈ bank.settings.waveArchives.toList,
      moveWaveArchive a.waveArchiveLeaders (List.range a.waveArchives.length) w = w := by
    intro w hw
    rw [moveWaveArchive, h.leadingWaveArchive_eq]
    rcases h.waveThere m bank hm w hw with rfl | hlive
    · have hnone : (List.range a.waveArchives.length).idxOf? BankSettings.noWaveArchive.toNat
          = none := by
        rw [List.idxOf?_eq_none_iff, List.mem_range]
        have := h.length_waveArchives_le
        omega
      rw [hnone]
    · obtain ⟨e, he⟩ := Option.isSome_iff_exists.1 hlive
      rw [idxOf?_range (lt_of_entry?_eq_some (waveArchive?_eq_some he).2)]
      exact UInt16.ofNat_toNat
  have hslots : bank.settings.waveArchives.map
      (moveWaveArchive a.waveArchiveLeaders (List.range a.waveArchives.length))
        = bank.settings.waveArchives := by
    refine Vector.ext fun i hi => ?_
    rw [Vector.getElem_map]
    exact hmove _ (by simp)
  rw [moveBank, hslots]

theorem IsCompact.moved_eq (h : a.IsCompact) (hbanks : a.BanksDiffer)
    (hincluded : ∀ n s, a.sequence? n = some s → isExcluded decider options s = false) :
    a.moved decider options = a := by
  have hsequences : (a.sequences.live.map fun s => some (moveSequence
      (a.bankLeaders a.waveArchiveLeaders) (List.range a.banks.length)
      (movedPlayer a.players a.players.live) s)) = a.sequences := by
    rw [List.map_congr_left fun s hs => congrArg some (h.moveSequence_eq hbanks hs)]
    exact map_some_live h.sequences
  have hbankSlots : (a.banks.live.map fun bank => some (moveBank a.waveArchiveLeaders
      (List.range a.waveArchives.length) bank)) = a.banks := by
    rw [List.map_congr_left fun bank hbank => congrArg some (h.moveBank_eq hbank)]
    exact map_some_live h.banks
  have hwaveArchives : (a.waveArchives.live.map fun e => some (id e)) = a.waveArchives :=
    map_some_live h.waveArchives
  simp only [moved, h.keptPlayers_eq hbanks hincluded]
  rw [h.keptSlots_eq hbanks hincluded, h.keptBankSlots_eq hbanks hincluded,
    h.keptWaveArchiveSlots_eq hbanks hincluded, ← live_eq_filterMap, ← live_eq_filterMap,
    hsequences, hbankSlots, hwaveArchives, map_some_live h.players]

end Archive

end SoundArchive
