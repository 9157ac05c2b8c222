import SoundArchive.Proofs.Archive.Contents
import SoundArchive.Proofs.Ascending
import SoundArchive.Proofs.Strip.Leaders
import SoundArchive.Strip.Basic

/-! # Stripping keeps the first of each kind, and what it is played with -/

namespace SoundArchive

open Leaders Slots

namespace Archive

variable {a : Archive} {decider : Decider} {options : StripOptions}

/-! ## What a bank is made of -/

/-- The body of a bank, and those of the wave archives that its slots lead to. -/
def bodiesOf (a : Archive) (n : UInt16) : Option (Bytes × Vector (Option Bytes) 4) :=
  (a.bank? n).map fun bank =>
    (bank.body, bank.settings.waveArchives.map fun w => (a.waveArchive? w).map (·.body))

theorem SameContents.bodiesOf {b : Archive} (h : SameContents a b) (n : UInt16) :
    b.bodiesOf n = a.bodiesOf n := by
  have hwave (w : UInt16) : (b.waveArchive? w).map (·.body) = (a.waveArchive? w).map (·.body) := by
    unfold waveArchive?
    split
    · rfl
    · have hcontent := content_of_contents h.waveArchives w.toNat
      have hbody := congrArg (Option.map (·.body)) hcontent
      simpa [Option.map_map, Function.comp_def, Entry.content] using hbody
  have hcontent := content_of_contents h.banks n.toNat
  have hbodies := congrArg (Option.map fun c : Content BankSettings Bank =>
    (c.body, c.settings.waveArchives.map fun w => (a.waveArchive? w).map (·.body))) hcontent
  simp only [Archive.bodiesOf, bank?, hwave]
  simpa [Option.map_map, Function.comp_def, Entry.content] using hbodies

/-! ## Duplicates -/

theorem toNat_toUInt16 {n : Nat} {m : UInt16} (h : n ≤ m.toNat) : n.toUInt16.toNat = n := by
  have hlt := m.toNat_lt
  rw [Nat.toUInt16_eq, UInt16.toNat_ofNat', Nat.mod_eq_of_lt (by omega)]

theorem toNat_lt_of_ne {w : UInt16} (h : w ≠ BankSettings.noWaveArchive) :
    w.toNat < BankSettings.noWaveArchive.toNat := by
  have hlast : BankSettings.noWaveArchive.toNat = 2 ^ 16 - 1 := rfl
  have hlt := w.toNat_lt
  have hne : w.toNat ≠ BankSettings.noWaveArchive.toNat := fun heq => h (UInt16.toNat.inj heq)
  omega

theorem waveArchive?_of_lt (a : Archive) {w : UInt16}
    (h : w.toNat < BankSettings.noWaveArchive.toNat) :
    a.waveArchive? w = a.waveArchives.entry? w.toNat :=
  if_neg fun heq => Nat.lt_irrefl _ (heq ▸ h)

/-- The leader of an entry is an equal entry that comes no later. -/
theorem leader_entry {α κ : Type} {equal : α → α → Bool} (key : α → κ)
    (hequal : ∀ x y, equal x y = true ↔ key x = key y) (slots : Slots α) (n : UInt16) :
    ((ofSlots equal slots).leader n.toNat).toUInt16.toNat ≤ n.toNat ∧
      (slots.entry? ((ofSlots equal slots).leader n.toNat).toUInt16.toNat).map key
        = (slots.entry? n.toNat).map key := by
  cases hn : slots.entry? n.toNat with
  | none => simp [leader_of_hole hn, hn]
  | some x =>
    obtain ⟨y, ⟨hy, hfirst⟩, hkey⟩ := leader_spec hequal hn
    have hle := hfirst _ _ hn hkey.symm
    rw [toNat_toUInt16 hle, hy, Option.map_some, hkey]
    exact ⟨hle, rfl⟩

theorem body_leadingWaveArchive (a : Archive) (n : UInt16) :
    (a.waveArchive? (leadingWaveArchive a.waveArchiveLeaders n)).map (·.body)
      = (a.waveArchive? n).map (·.body) := by
  unfold leadingWaveArchive
  split
  · rfl
  · next hn =>
    obtain ⟨hle, hbody⟩ := leader_entry (fun e : WaveArchiveEntry => e.body)
      (fun x y => beq_iff_eq) a.waveArchives n
    have hlt := toNat_lt_of_ne hn
    have hlow : (a.waveArchiveLeaders.leader n.toNat).toUInt16.toNat
        < BankSettings.noWaveArchive.toNat := Nat.lt_of_le_of_lt hle hlt
    rw [waveArchive?_of_lt a hlt, waveArchive?_of_lt a hlow]
    exact hbody

/-- The bank that stands for bank `n`. -/
def leadingBankOf (a : Archive) (n : UInt16) : UInt16 :=
  ((a.bankLeaders a.waveArchiveLeaders).leader n.toNat).toUInt16

theorem leadingBank_eq (a : Archive) (s : SequenceEntry) :
    leadingBank (a.bankLeaders a.waveArchiveLeaders) s = a.leadingBankOf s.settings.bank := rfl

theorem leadingBankOf_entry (a : Archive) (n : UInt16) :
    (a.bank? (a.leadingBankOf n)).map
        (fun bank => (bank.body, leadingWaveArchives a.waveArchiveLeaders bank))
      = (a.bank? n).map fun bank => (bank.body, leadingWaveArchives a.waveArchiveLeaders bank) :=
  (leader_entry _ (fun x y => by simp) a.banks n).2

/-- A bank is made of the same bodies as the one that stands for it. -/
theorem bodiesOf_leadingBankOf (a : Archive) (n : UInt16) :
    a.bodiesOf (a.leadingBankOf n) = a.bodiesOf n := by
  have hentry := leadingBankOf_entry a n
  have hslots (bank : BankEntry) : (bank.settings.waveArchives.map fun w =>
      (a.waveArchive? w).map (·.body)) = (leadingWaveArchives a.waveArchiveLeaders bank).map
        fun w => (a.waveArchive? w).map (·.body) := by
    simp [leadingWaveArchives, Vector.map_map, Function.comp_def, body_leadingWaveArchive]
  simp only [bodiesOf, hslots]
  have hmap := congrArg (Option.map fun key : Bytes × Vector UInt16 4 =>
    (key.1, key.2.map fun w => (a.waveArchive? w).map (·.body))) hentry
  simpa [Option.map_map, Function.comp_def] using hmap

/-! ## The kept sequences -/

/-- The sequence in slot `n` is the first of its kind that is not excluded, and has a bank. -/
structure Keeps (a : Archive) (decider : Decider) (options : StripOptions) (n : Nat)
    (s : SequenceEntry) : Prop where
  live : a.sequence? n = some s
  included : isExcluded decider options s = false
  hasBank : (a.bank? (a.leadingBankOf s.settings.bank)).isSome
  first : ∀ m t, a.sequence? m = some t → isExcluded decider options t = false →
    t.body = s.body → a.leadingBankOf t.settings.bank = a.leadingBankOf s.settings.bank → n ≤ m

def sequenceKey (a : Archive) (s : SequenceEntry) : Bytes × UInt16 :=
  (s.body, a.leadingBankOf s.settings.bank)

def leadingSequence (a : Archive) (decider : Decider) (options : StripOptions) (n : Nat) : Nat :=
  (sequenceLeaders (a.candidates decider options) (a.bankLeaders a.waveArchiveLeaders)).leader n

def keptSlots (a : Archive) (decider : Decider) (options : StripOptions) :
    List (Nat × SequenceEntry) :=
  (a.candidates decider options).zipIdx.filterMap fun (slot, n) =>
    (slot.filter fun s => a.leadingSequence decider options n == n
      && (a.bank? (a.leadingBankOf s.settings.bank)).isSome).map (n, ·)

theorem keptSequences_eq (a : Archive) (decider : Decider) (options : StripOptions) :
    a.keptSequences (a.candidates decider options) (a.bankLeaders a.waveArchiveLeaders)
      (sequenceLeaders (a.candidates decider options) (a.bankLeaders a.waveArchiveLeaders))
      = (a.keptSlots decider options).map Prod.snd := by
  rw [keptSlots, List.map_filterMap]
  simp only [Option.map_map, Function.comp_def, Option.map_id']
  rfl

theorem entry?_candidates {n : Nat} {s : SequenceEntry} :
    entry? (a.candidates decider options) n = some s ↔
      a.sequence? n = some s ∧ isExcluded decider options s = false := by
  have hslot : entry? (a.candidates decider options) n
      = (a.sequence? n).filter fun s => !isExcluded decider options s := by
    simp only [Slots.entry?, candidates, List.getElem?_map, sequence?]
    rcases a.sequences[n]? with _ | _ | _ <;> rfl
  rw [hslot, Option.filter_eq_some_iff, Bool.not_eq_true']

theorem leadingSequence_eq_self_iff {n : Nat} {s : SequenceEntry}
    (hs : entry? (a.candidates decider options) n = some s) :
    a.leadingSequence decider options n = n ↔
      IsFirst a.sequenceKey (a.candidates decider options) n s :=
  leader_eq_self_iff (fun x y => by simp [sequenceKey, leadingBank_eq]) hs

theorem mem_keptSlots {n : Nat} {s : SequenceEntry} :
    (n, s) ∈ a.keptSlots decider options ↔ a.Keeps decider options n s := by
  have hmem : (n, s) ∈ a.keptSlots decider options ↔
      entry? (a.candidates decider options) n = some s ∧
        a.leadingSequence decider options n = n ∧
          (a.bank? (a.leadingBankOf s.settings.bank)).isSome := by
    simp only [keptSlots, List.mem_filterMap, Prod.exists, List.mem_zipIdx_iff_getElem?,
      Option.map_eq_some_iff, Option.filter_eq_some_iff, entry?_eq_some]
    constructor
    · rintro ⟨slot, m, hslot, t, ⟨rfl, hkeep⟩, hpair⟩
      obtain ⟨rfl, rfl⟩ := Prod.mk.inj hpair
      rw [Bool.and_eq_true, beq_iff_eq] at hkeep
      exact ⟨hslot, hkeep⟩
    · rintro ⟨hslot, hkeep⟩
      refine ⟨some s, n, hslot, s, ⟨rfl, ?_⟩, rfl⟩
      rwa [Bool.and_eq_true, beq_iff_eq]
  rw [hmem]
  constructor
  · rintro ⟨hs, hleader, hbank⟩
    obtain ⟨hlive, hincluded⟩ := entry?_candidates.1 hs
    have hfirst := ((leadingSequence_eq_self_iff hs).1 hleader).2
    refine ⟨hlive, hincluded, hbank, fun m t hm ht hbody hbank => ?_⟩
    exact hfirst m t (entry?_candidates.2 ⟨hm, ht⟩) (Prod.ext hbody hbank)
  · rintro ⟨hlive, hincluded, hbank, hfirst⟩
    have hs := entry?_candidates.2 ⟨hlive, hincluded⟩
    refine ⟨hs, (leadingSequence_eq_self_iff hs).2 ⟨hs, fun m t hm hkey => ?_⟩, hbank⟩
    obtain ⟨hm, ht⟩ := entry?_candidates.1 hm
    exact hfirst m t hm ht (congrArg Prod.fst hkey) (congrArg Prod.snd hkey)

theorem keptSlots_pairwise_lt (a : Archive) (decider : Decider) (options : StripOptions) :
    ((a.keptSlots decider options).map Prod.fst).Pairwise (· < ·) := by
  rw [List.pairwise_map]
  refine List.Pairwise.filterMap (R := fun x y => x.2 < y.2) _ ?_ ?_
  · rintro ⟨slot, n⟩ ⟨slot', n'⟩ hlt b hb b' hb'
    obtain ⟨s, _, rfl⟩ := Option.map_eq_some_iff.1 hb
    obtain ⟨s', _, rfl⟩ := Option.map_eq_some_iff.1 hb'
    exact hlt
  · rw [List.pairwise_iff_getElem]
    intro i j hi hj hlt
    simpa [List.getElem_zipIdx] using hlt

/-! ## What moves -/

def keptBankSlots (a : Archive) (decider : Decider) (options : StripOptions) : List Nat :=
  keptBanks (a.bankLeaders a.waveArchiveLeaders) ((a.keptSlots decider options).map Prod.snd)

def keptWaveArchiveSlots (a : Archive) (decider : Decider) (options : StripOptions) : List Nat :=
  a.keptWaveArchives a.waveArchiveLeaders
    ((a.keptBankSlots decider options).filterMap a.banks.entry?)

def keptPlayersOf (a : Archive) (decider : Decider) (options : StripOptions) :
    List PlayerSettings :=
  keptPlayers a.players (((a.keptSlots decider options).map Prod.snd).map (·.settings.player))

/-- A kept sequence with its bank and its player where they move. -/
def moveKept (a : Archive) (decider : Decider) (options : StripOptions) (s : SequenceEntry) :
    SequenceEntry :=
  moveSequence (a.bankLeaders a.waveArchiveLeaders) (a.keptBankSlots decider options)
    (movedPlayer a.players (a.keptPlayersOf decider options)) s

/-- The stripped archive before its files are numbered. -/
def moved (a : Archive) (decider : Decider) (options : StripOptions) : Archive :=
  let sequences := (a.keptSlots decider options).map Prod.snd
  let banks := a.keptBankSlots decider options
  let waveArchives := a.keptWaveArchiveSlots decider options
  let players := keptPlayers a.players (sequences.map (·.settings.player))
  { a with
    sequences := sequences.map fun s => some (moveSequence (a.bankLeaders a.waveArchiveLeaders)
      banks (movedPlayer a.players players) s)
    banks := (banks.filterMap a.banks.entry?).map fun bank =>
      some (moveBank a.waveArchiveLeaders waveArchives bank)
    waveArchives := (waveArchives.filterMap a.waveArchives.entry?).map fun e => some (id e)
    players := players.map some }

theorem strip_eq (a : Archive) (decider : Decider) (options : StripOptions) :
    (a.strip decider options).1 = if a.needsSymbolCleanup
      then (a.moved decider options).renumberFiles.cleanUpSymbols
      else (a.moved decider options).renumberFiles := by
  simp only [strip, keptSequences_eq]
  rfl

theorem sameContents_strip (a : Archive) (decider : Decider) (options : StripOptions) :
    SameContents (a.moved decider options) (a.strip decider options).1 := by
  rw [strip_eq]
  split
  · exact (sameContents_renumberFiles _).trans (sameContents_cleanUpSymbols _)
  · exact sameContents_renumberFiles _

theorem mem_keptBankSlots {n : Nat} : n ∈ a.keptBankSlots decider options ↔
    ∃ m s, a.Keeps decider options m s ∧ (a.leadingBankOf s.settings.bank).toNat = n := by
  simp only [keptBankSlots, keptBanks, mem_ascending, List.mem_map, Prod.exists, leadingBank_eq]
  constructor
  · rintro ⟨s, ⟨m, _, hs, rfl⟩, hn⟩
    exact ⟨m, _, mem_keptSlots.1 hs, hn⟩
  · rintro ⟨m, s, hs, hn⟩
    exact ⟨s, ⟨m, s, mem_keptSlots.2 hs, rfl⟩, hn⟩

theorem live_of_mem_keptBankSlots {n : Nat} (hn : n ∈ a.keptBankSlots decider options) :
    (a.banks.entry? n).isSome := by
  obtain ⟨m, s, hs, rfl⟩ := mem_keptBankSlots.1 hn
  exact hs.hasBank

theorem mem_keptWaveArchiveSlots {n : Nat} : n ∈ a.keptWaveArchiveSlots decider options ↔
    ∃ m ∈ a.keptBankSlots decider options, ∃ bank, a.banks.entry? m = some bank ∧
      ∃ w ∈ bank.settings.waveArchives.toList,
        (a.waveArchive? (leadingWaveArchive a.waveArchiveLeaders w)).isSome ∧
          (leadingWaveArchive a.waveArchiveLeaders w).toNat = n := by
  simp only [keptWaveArchiveSlots, keptWaveArchives, mem_ascending, List.mem_flatMap,
    List.mem_filterMap, leadingWaveArchives, Vector.toList_map, List.mem_map]
  constructor
  · rintro ⟨bank, ⟨m, hm, hbank⟩, _, ⟨w, hw, rfl⟩, hn⟩
    split at hn
    · next hlive => exact ⟨m, hm, bank, hbank, w, hw, hlive, Option.some.inj hn⟩
    · cases hn
  · rintro ⟨m, hm, bank, hbank, w, hw, hlive, hn⟩
    exact ⟨bank, ⟨m, hm, hbank⟩, _, ⟨w, hw, rfl⟩, by rw [if_pos hlive, hn]⟩

theorem waveArchive?_eq_some {w : UInt16} {e : WaveArchiveEntry} (h : a.waveArchive? w = some e) :
    w ≠ BankSettings.noWaveArchive ∧ a.waveArchives.entry? w.toNat = some e := by
  unfold waveArchive? at h
  split at h
  · cases h
  · next hw => exact ⟨hw, h⟩

theorem live_of_mem_keptWaveArchiveSlots {n : Nat}
    (hn : n ∈ a.keptWaveArchiveSlots decider options) :
    n < BankSettings.noWaveArchive.toNat ∧ (a.waveArchives.entry? n).isSome := by
  obtain ⟨m, _, bank, _, w, _, hlive, rfl⟩ := mem_keptWaveArchiveSlots.1 hn
  obtain ⟨e, he⟩ := Option.isSome_iff_exists.1 hlive
  obtain ⟨hne, hentry⟩ := waveArchive?_eq_some he
  exact ⟨toNat_lt_of_ne hne, by rw [hentry]; rfl⟩

/-! ## Where references lead -/

/-- A bank that is kept leads to the wave archives that stand for its own. -/
theorem waveArchive?_moved {w : UInt16} (hkept :
      (a.waveArchive? (leadingWaveArchive a.waveArchiveLeaders w)).isSome →
        (leadingWaveArchive a.waveArchiveLeaders w).toNat ∈
          a.keptWaveArchiveSlots decider options) :
    (a.moved decider options).waveArchive?
        (moveWaveArchive a.waveArchiveLeaders (a.keptWaveArchiveSlots decider options) w)
      = a.waveArchive? (leadingWaveArchive a.waveArchiveLeaders w) := by
  unfold moveWaveArchive
  generalize leadingWaveArchive a.waveArchiveLeaders w = l at hkept
  split
  · next new hnew =>
    obtain ⟨hlt, hslot, _⟩ := List.idxOf?_eq_some_iff.1 hnew
    have hmem := List.getElem_mem hlt
    have hle : new ≤ (a.keptWaveArchiveSlots decider options)[new] :=
      le_getElem_of_pairwise_lt (ascending_pairwise_lt _) hlt
    rw [hslot] at hmem hle
    have hl := (live_of_mem_keptWaveArchiveSlots hmem).1
    have hnat := toNat_toUInt16 hle
    rw [waveArchive?_of_lt a hl, waveArchive?_of_lt _ (by omega), hnat]
    refine (entry?_compact id (fun m hm => (live_of_mem_keptWaveArchiveSlots hm).2) new).trans ?_
    rw [List.getElem?_eq_getElem hlt, hslot]
    simp
  · next hnone =>
    rw [List.idxOf?_eq_none_iff] at hnone
    have hl : a.waveArchive? l = none := by
      simpa using mt hkept hnone
    rw [hl]
    rfl

theorem bank?_moved {n : UInt16}
    (hn : (a.leadingBankOf n).toNat ∈ a.keptBankSlots decider options) :
    (a.moved decider options).bank?
        ((a.keptBankSlots decider options).idxOf (a.leadingBankOf n).toNat).toUInt16
      = (a.bank? (a.leadingBankOf n)).map
          (moveBank a.waveArchiveLeaders (a.keptWaveArchiveSlots decider options)) := by
  have hle : (a.keptBankSlots decider options).idxOf (a.leadingBankOf n).toNat
      ≤ (a.leadingBankOf n).toNat := idxOf_ascending_le hn
  rw [bank?, toNat_toUInt16 hle]
  refine (entry?_compact _ (fun m hm => live_of_mem_keptBankSlots hm) _).trans ?_
  rw [List.getElem?_idxOf hn]
  rfl

/-- A kept sequence leads to the bodies that it led to. -/
theorem bodiesOf_moved {n : UInt16}
    (hn : (a.leadingBankOf n).toNat ∈ a.keptBankSlots decider options) :
    (a.moved decider options).bodiesOf
        ((a.keptBankSlots decider options).idxOf (a.leadingBankOf n).toNat).toUInt16
      = a.bodiesOf n := by
  rw [← bodiesOf_leadingBankOf a n, bodiesOf, bank?_moved hn, bodiesOf]
  cases hbank : a.bank? (a.leadingBankOf n) with
  | none => rfl
  | some bank =>
    have hslot (w : UInt16) (hw : w ∈ bank.settings.waveArchives.toList) :
        ((a.moved decider options).waveArchive? (moveWaveArchive a.waveArchiveLeaders
            (a.keptWaveArchiveSlots decider options) w)).map (·.body)
          = (a.waveArchive? w).map (·.body) := by
      rw [waveArchive?_moved fun hlive => mem_keptWaveArchiveSlots.2
        ⟨_, hn, bank, hbank, w, hw, hlive, rfl⟩]
      exact body_leadingWaveArchive a w
    refine congrArg some (Prod.ext rfl (Vector.ext fun i hi => ?_))
    simp only [moveBank, Vector.getElem_map]
    exact hslot _ (by simp)

/-! ## The whole -/

/-- Sequence `s` of `a` became `s'` of `b`, and is played with the same bodies. -/
structure Carries (a b : Archive) (s s' : SequenceEntry) : Prop where
  content : s'.content = { s.content with
    settings := { s.settings with bank := s'.settings.bank, player := s'.settings.player } }
  bodies : b.bodiesOf s'.settings.bank = a.bodiesOf s.settings.bank
  hasBank : (a.bank? s.settings.bank).isSome

theorem isSome_leadingBankOf (a : Archive) (n : UInt16) :
    (a.bank? (a.leadingBankOf n)).isSome = (a.bank? n).isSome := by
  simpa using congrArg Option.isSome (leadingBankOf_entry a n)

theorem carries_of_keeps {n : Nat} {s s' : SequenceEntry} {move : UInt8 → UInt8}
    (hs : a.Keeps decider options n s) (hs' : s'.content = (moveSequence
      (a.bankLeaders a.waveArchiveLeaders) (a.keptBankSlots decider options) move s).content) :
    Carries a (a.strip decider options).1 s s' := by
  have hsettings : s'.settings = _ := congrArg Content.settings hs'
  have hbank := congrArg SequenceSettings.bank hsettings
  refine ⟨?_, ?_, isSome_leadingBankOf a _ ▸ hs.hasBank⟩
  · rw [hs', hsettings]
    rfl
  · rw [(sameContents_strip a decider options).bodiesOf, hbank]
    exact bodiesOf_moved (mem_keptBankSlots.2 ⟨n, s, hs, rfl⟩)

/-- The sequences that are left are the kept ones, moved. -/
theorem forall₂_moved (a : Archive) (decider : Decider) (options : StripOptions) :
    List.Forall₂ (fun (entry : Nat × SequenceEntry) slot =>
        entry ∈ a.keptSlots decider options ∧ ∃ s' : SequenceEntry, slot = some s' ∧
          s'.content = (a.moveKept decider options entry.2).content)
      (a.keptSlots decider options) (a.strip decider options).1.sequences := by
  have hsequences : (a.moved decider options).sequences
      = (a.keptSlots decider options).map fun entry =>
          some (a.moveKept decider options entry.2) := List.map_map
  have hcontents : (a.strip decider options).1.sequences.contents
      = (a.keptSlots decider options).map fun entry =>
          some (a.moveKept decider options entry.2).content := by
    rw [(sameContents_strip a decider options).sequences, hsequences, contents, mapLive,
      List.map_map]
    rfl
  exact (List.forall₂_and_left _ _).2 ⟨fun _ hentry => hentry, forall₂_of_contents hcontents⟩

theorem forall₂_strip (a : Archive) (decider : Decider) (options : StripOptions) :
    List.Forall₂ (fun (entry : Nat × SequenceEntry) slot => ∃ s', slot = some s' ∧
        Carries a (a.strip decider options).1 entry.2 s')
      (a.keptSlots decider options) (a.strip decider options).1.sequences := by
  refine (forall₂_moved a decider options).imp ?_
  rintro ⟨n, s⟩ slot ⟨hmem, s', rfl, hs'⟩
  exact ⟨s', rfl, carries_of_keeps (mem_keptSlots.1 hmem) hs'⟩

/-- Every sequence with a bank that is not excluded has one of its kind that is kept. -/
theorem exists_keeps {n : Nat} {s : SequenceEntry} (hs : a.sequence? n = some s)
    (hincluded : isExcluded decider options s = false) (hbank : (a.bank? s.settings.bank).isSome) :
    ∃ m t, a.Keeps decider options m t ∧ t.body = s.body ∧
      a.bodiesOf t.settings.bank = a.bodiesOf s.settings.bank := by
  have hequal (x y : SequenceEntry) : (x.body == y.body
      && leadingBank (a.bankLeaders a.waveArchiveLeaders) x
        == leadingBank (a.bankLeaders a.waveArchiveLeaders) y) = true
      ↔ a.sequenceKey x = a.sequenceKey y := by
    simp [sequenceKey, leadingBank_eq]
  obtain ⟨t, hfirst, hkey⟩ := leader_spec hequal (entry?_candidates.2 ⟨hs, hincluded⟩)
  have hleader : a.leadingBankOf t.settings.bank = a.leadingBankOf s.settings.bank :=
    congrArg Prod.snd hkey
  obtain ⟨ht, htincluded⟩ := entry?_candidates.1 hfirst.1
  refine ⟨_, t, ⟨ht, htincluded, ?_, fun m u hm hu hbody hbank => ?_⟩, congrArg Prod.fst hkey, ?_⟩
  · rwa [hleader, isSome_leadingBankOf]
  · exact hfirst.2 m u (entry?_candidates.2 ⟨hm, hu⟩) (Prod.ext hbody hbank)
  · rw [← bodiesOf_leadingBankOf a t.settings.bank, hleader, bodiesOf_leadingBankOf]

/-- What is gone of each kind is as many as there were, less what is left. -/
theorem removed_strip (a : Archive) (decider : Decider) (options : StripOptions) :
    let stripped := (a.strip decider options).1
    let summary := (a.strip decider options).2
    summary.removedSequences + stripped.sequences.liveCount = a.sequences.liveCount ∧
      summary.removedBanks + stripped.banks.liveCount = a.banks.liveCount ∧
      summary.removedWaveArchives + stripped.waveArchives.liveCount
        = a.waveArchives.liveCount := by
  intro stripped summary
  obtain ⟨hsequences, hbanks, hwaveArchives, _⟩ := sameContents_strip a decider options
  rw [liveCount_of_contents hsequences, liveCount_of_contents hbanks,
    liveCount_of_contents hwaveArchives]
  have hremoved : summary.removedSequences
      = a.sequences.liveCount - ((a.keptSlots decider options).map Prod.snd).length := by
    simp only [summary, strip, keptSequences_eq]
  have hremovedBanks : summary.removedBanks = a.banks.liveCount
      - ((a.keptBankSlots decider options).filterMap a.banks.entry?).length := by
    simp only [summary, strip, keptSequences_eq]
    rfl
  have hremovedWaveArchives : summary.removedWaveArchives = a.waveArchives.liveCount
      - ((a.keptWaveArchiveSlots decider options).filterMap a.waveArchives.entry?).length := by
    simp only [summary, strip, keptSequences_eq]
    rfl
  have hkept : ((a.keptSlots decider options).map Prod.snd).length ≤ a.sequences.liveCount := by
    rw [List.length_map, ← List.length_map (f := Prod.fst)]
    refine length_le_liveCount ((keptSlots_pairwise_lt a decider options).imp Nat.ne_of_lt) ?_
    intro n hn
    obtain ⟨⟨_, s⟩, hs, rfl⟩ := List.mem_map.1 hn
    exact Option.isSome_iff_exists.2 ⟨s, (mem_keptSlots.1 hs).live⟩
  have hkeptBanks : ((a.keptBankSlots decider options).filterMap a.banks.entry?).length
      ≤ a.banks.liveCount :=
    (List.length_filterMap_le _ _).trans (length_le_liveCount (nodup_ascending _)
      fun n hn => live_of_mem_keptBankSlots hn)
  have hkeptWaveArchives :
      ((a.keptWaveArchiveSlots decider options).filterMap a.waveArchives.entry?).length
        ≤ a.waveArchives.liveCount :=
    (List.length_filterMap_le _ _).trans (length_le_liveCount (nodup_ascending _)
      fun n hn => (live_of_mem_keptWaveArchiveSlots hn).2)
  rw [hremoved, hremovedBanks, hremovedWaveArchives]
  simp only [moved, liveCount_map_some]
  omega

/-- The first sequence of each kind that is not excluded and has a bank is kept, in order, and
is played with the same bodies as before. What else there was is counted as removed. -/
theorem strip_keeps_first_of_each_kind (a : Archive) (decider : Decider) (options : StripOptions) :
    let stripped := (a.strip decider options).1
    let summary := (a.strip decider options).2
    (∃ kept : List (Nat × SequenceEntry), (kept.map Prod.fst).Pairwise (· < ·) ∧
      (∀ n s, (n, s) ∈ kept ↔ a.Keeps decider options n s) ∧
      List.Forall₂ (fun entry slot => ∃ s', slot = some s' ∧ Carries a stripped entry.2 s')
        kept stripped.sequences) ∧
    (∀ n s, a.sequence? n = some s → isExcluded decider options s = false →
      (a.bank? s.settings.bank).isSome → ∃ s' ∈ stripped.sequences.live,
        s'.body = s.body ∧ stripped.bodiesOf s'.settings.bank = a.bodiesOf s.settings.bank) ∧
    summary.removedSequences + stripped.sequences.liveCount = a.sequences.liveCount ∧
    summary.removedBanks + stripped.banks.liveCount = a.banks.liveCount ∧
    summary.removedWaveArchives + stripped.waveArchives.liveCount = a.waveArchives.liveCount := by
  intro stripped summary
  refine ⟨⟨a.keptSlots decider options, keptSlots_pairwise_lt a decider options,
    fun n s => mem_keptSlots, forall₂_strip a decider options⟩, ?_,
    removed_strip a decider options⟩
  intro n s hs hincluded hbank
  obtain ⟨m, t, ht, hbody, hbodies⟩ := exists_keeps hs hincluded hbank
  obtain ⟨i, hi, hti⟩ := List.getElem_of_mem (mem_keptSlots.2 ht)
  obtain ⟨hlength, hslots⟩ := List.forall₂_iff_get.1 (forall₂_strip a decider options)
  obtain ⟨s', hslot, hcarries⟩ := hslots i hi (hlength ▸ hi)
  rw [List.get_eq_getElem, hti] at hcarries
  refine ⟨s', List.mem_filterMap.2 ⟨_, List.getElem_mem (hlength ▸ hi), hslot⟩, ?_, ?_⟩
  · exact (congrArg Content.body hcarries.content).trans hbody
  · exact hcarries.bodies.trans hbodies

end Archive

end SoundArchive
