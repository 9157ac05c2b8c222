import SoundArchive.Archive.Encode
import SoundArchive.Proofs.Strip.Stripped
import Mathlib

/-! # When stripping twice is stripping once -/

namespace SoundArchive

open Leaders Slots

namespace Archive

variable {a : Archive} {decider : Decider} {options : StripOptions}

theorem renumberFiles_strip (a : Archive) (decider : Decider) (options : StripOptions) :
    (a.strip decider options).1.renumberFiles = (a.strip decider options).1 := by
  rw [strip_eq]
  split
  · exact renumberFiles_cleanUpSymbols _
  · exact renumberFiles_renumberFiles _

theorem needsSymbolCleanup_strip (a : Archive) (decider : Decider) (options : StripOptions) :
    (a.strip decider options).1.needsSymbolCleanup = false := by
  rw [strip_eq]
  split
  · rfl
  · next h => simpa [moved, renumberFiles] using h

/-- A compact archive whose banks differ is left as it is, but for the numbers of its files. -/
theorem strip_of_isCompact (h : a.IsCompact) (hbanks : a.BanksDiffer)
    (hincluded : ∀ n s, a.sequence? n = some s → isExcluded decider options s = false)
    (hfiles : a.renumberFiles = a) (hnames : a.needsSymbolCleanup = false) :
    (a.strip decider options).1 = a := by
  rw [strip_eq, h.moved_eq hbanks hincluded, hfiles, hnames]
  rfl

/-! ## Banks that become equal -/

/-- The wave archive that a reference leads to, if it exists. -/
def leadsTo (a : Archive) (w : UInt16) : Option UInt16 :=
  if (a.waveArchive? (leadingWaveArchive a.waveArchiveLeaders w)).isSome
  then some (leadingWaveArchive a.waveArchiveLeaders w) else none

/-- Kept banks of the same body differ in a wave archive that exists. Two that only differ in
references to missing wave archives become equal when these references are dropped. -/
def KeptBanksDiffer (a : Archive) (decider : Decider) (options : StripOptions) : Prop :=
  ∀ k ∈ a.keptBankSlots decider options, ∀ l ∈ a.keptBankSlots decider options,
    ∀ x ∈ a.banks.entry? k, ∀ y ∈ a.banks.entry? l, x.body = y.body →
      x.settings.waveArchives.map a.leadsTo = y.settings.waveArchives.map a.leadsTo → k = l

instance (a : Archive) (decider : Decider) (options : StripOptions) :
    Decidable (a.KeptBanksDiffer decider options) :=
  inferInstanceAs (Decidable (∀ k ∈ _, ∀ l ∈ _, ∀ x ∈ _, ∀ y ∈ _, _ → _ → k = l))

/-- A reference that exists does not move to the number that stands for none. -/
theorem moveWaveArchive_ne {w : UInt16} (h : (leadingWaveArchive a.waveArchiveLeaders w).toNat
      ∈ a.keptWaveArchiveSlots decider options) :
    moveWaveArchive a.waveArchiveLeaders (a.keptWaveArchiveSlots decider options) w
      ≠ BankSettings.noWaveArchive := by
  intro heq
  have hmove := moveWaveArchive_of_kept h
  have hle : (a.keptWaveArchiveSlots decider options).idxOf
      (leadingWaveArchive a.waveArchiveLeaders w).toNat
        ≤ (leadingWaveArchive a.waveArchiveLeaders w).toNat := idxOf_ascending_le h
  have hlt := (live_of_mem_keptWaveArchiveSlots h).1
  rw [heq] at hmove
  omega

/-- References move to the same number if they lead to the same wave archive. -/
theorem moveWaveArchive_eq_iff {w w' : UInt16}
    (hw : (a.waveArchive? (leadingWaveArchive a.waveArchiveLeaders w)).isSome →
      (leadingWaveArchive a.waveArchiveLeaders w).toNat ∈ a.keptWaveArchiveSlots decider options)
    (hw' : (a.waveArchive? (leadingWaveArchive a.waveArchiveLeaders w')).isSome →
      (leadingWaveArchive a.waveArchiveLeaders w').toNat
        ∈ a.keptWaveArchiveSlots decider options) :
    moveWaveArchive a.waveArchiveLeaders (a.keptWaveArchiveSlots decider options) w
        = moveWaveArchive a.waveArchiveLeaders (a.keptWaveArchiveSlots decider options) w'
      ↔ a.leadsTo w = a.leadsTo w' := by
  have hmissing {v : UInt16}
      (hv : ¬(a.waveArchive? (leadingWaveArchive a.waveArchiveLeaders v)).isSome) :
      moveWaveArchive a.waveArchiveLeaders (a.keptWaveArchiveSlots decider options) v
        = BankSettings.noWaveArchive := moveWaveArchive_of_missing (by simpa using hv)
  unfold leadsTo
  by_cases hlive : (a.waveArchive? (leadingWaveArchive a.waveArchiveLeaders w)).isSome
  · have hkept := hw hlive
    by_cases hlive' : (a.waveArchive? (leadingWaveArchive a.waveArchiveLeaders w')).isSome
    · have hkept' := hw' hlive'
      rw [if_pos hlive, if_pos hlive', ← UInt16.toNat_inj, moveWaveArchive_of_kept hkept,
        moveWaveArchive_of_kept hkept', List.idxOf_inj hkept, UInt16.toNat_inj, Option.some_inj]
    · rw [if_pos hlive, if_neg hlive', hmissing hlive']
      simp [moveWaveArchive_ne hkept]
  · by_cases hlive' : (a.waveArchive? (leadingWaveArchive a.waveArchiveLeaders w')).isSome
    · rw [if_neg hlive, if_pos hlive', hmissing hlive]
      simp [Ne.symm (moveWaveArchive_ne (hw' hlive'))]
    · rw [if_neg hlive, if_neg hlive', hmissing hlive, hmissing hlive']
      simp

theorem map_moveWaveArchive_eq_iff {k l : Nat} {x y : BankEntry}
    (hk : k ∈ a.keptBankSlots decider options) (hl : l ∈ a.keptBankSlots decider options)
    (hx : a.banks.entry? k = some x) (hy : a.banks.entry? l = some y) :
    (moveBank a.waveArchiveLeaders (a.keptWaveArchiveSlots decider options) x).settings.waveArchives
        = (moveBank a.waveArchiveLeaders (a.keptWaveArchiveSlots decider options)
            y).settings.waveArchives
      ↔ x.settings.waveArchives.map a.leadsTo = y.settings.waveArchives.map a.leadsTo := by
  have hslot (i : Nat) (hi : i < 4) := moveWaveArchive_eq_iff
    (leadingWaveArchive_mem (w := x.settings.waveArchives[i]) hk hx (by simp))
    (leadingWaveArchive_mem (w := y.settings.waveArchives[i]) hl hy (by simp))
  simp only [moveBank, Vector.ext_iff, Vector.getElem_map]
  exact forall₂_congr hslot

theorem banksDiffer_moved_iff :
    (a.moved decider options).BanksDiffer ↔ a.KeptBanksDiffer decider options := by
  constructor
  · intro h k hk l hl x hx y hy hbody hleads
    obtain ⟨i, hi⟩ := List.mem_iff_getElem?.1 hk
    obtain ⟨j, hj⟩ := List.mem_iff_getElem?.1 hl
    have hx' : (a.moved decider options).banks.entry? i
        = some (moveBank a.waveArchiveLeaders (a.keptWaveArchiveSlots decider options) x) := by
      rw [banks_moved, hi, Option.bind_some, hx, Option.map_some]
    have hy' : (a.moved decider options).banks.entry? j
        = some (moveBank a.waveArchiveLeaders (a.keptWaveArchiveSlots decider options) y) := by
      rw [banks_moved, hj, Option.bind_some, hy, Option.map_some]
    have hslots := (map_moveWaveArchive_eq_iff hk hl hx hy).2 hleads
    have hij := h i j _ _ hx' hy' (Prod.ext hbody hslots)
    rw [hij, hj] at hi
    exact (Option.some.inj hi).symm
  · intro h i j x' y' hx' hy' hkey
    obtain ⟨k, x, hk, hx, rfl⟩ := exists_keptBank hx'
    obtain ⟨l, y, hl, hy, rfl⟩ := exists_keptBank hy'
    have hkmem := List.mem_of_getElem? hk
    have hlmem := List.mem_of_getElem? hl
    have hleads := (map_moveWaveArchive_eq_iff hkmem hlmem hx hy).1 (congrArg Prod.snd hkey)
    have hkl := h k hkmem l hlmem x hx y hy (congrArg Prod.fst hkey) hleads
    exact (List.getElem?_inj (List.getElem?_eq_some_iff.1 hk).1 (nodup_ascending _)).1
      (hk.trans (hkl ▸ hl.symm))

theorem banksDiffer_strip_iff :
    (a.strip decider options).1.BanksDiffer ↔ a.KeptBanksDiffer decider options := by
  have h := (sameContents_strip a decider options).banks
  rw [← banksDiffer_moved_iff]
  exact ⟨fun hd => hd.of_contents h.symm fun c => (c.body, c.settings.waveArchives),
    fun hd => hd.of_contents h fun c => (c.body, c.settings.waveArchives)⟩

/-- Of two equal banks only one is kept. -/
theorem length_keptBankSlots_lt (h : a.IsCompact) (hbanks : ¬a.BanksDiffer) :
    (a.keptBankSlots decider options).length < a.banks.length := by
  obtain ⟨m, n, x, y, hx, hy, hkey, hlt⟩ : ∃ m n x y, a.banks.entry? m = some x ∧
      a.banks.entry? n = some y ∧ (x.body, x.settings.waveArchives)
        = (y.body, y.settings.waveArchives) ∧ m < n := by
    simp only [BanksDiffer, Differ, not_forall] at hbanks
    obtain ⟨m, n, x, y, hx, hy, hkey, hne⟩ := hbanks
    rcases Nat.lt_or_gt_of_ne hne with hlt | hlt
    · exact ⟨m, n, x, y, hx, hy, hkey, hlt⟩
    · exact ⟨n, m, y, x, hy, hx, hkey.symm, hlt⟩
  have hn : n ∉ a.keptBankSlots decider options := by
    intro hn
    have hfirst := (isFirst_of_keptBank hn hy).2 m x hx
    simp only [h.leadingWaveArchives_eq] at hfirst
    exact Nat.not_le_of_lt hlt (hfirst hkey)
  have hsub : n :: a.keptBankSlots decider options ⊆ List.range a.banks.length := by
    intro k hk
    rcases List.mem_cons.1 hk with rfl | hk
    · exact List.mem_range.2 (lt_of_entry?_eq_some hy)
    · obtain ⟨bank, hbank⟩ := Option.isSome_iff_exists.1 (live_of_mem_keptBankSlots hk)
      exact List.mem_range.2 (lt_of_entry?_eq_some hbank)
  have hnodup : (n :: a.keptBankSlots decider options).Nodup :=
    List.nodup_cons.2 ⟨hn, nodup_ascending _⟩
  have hle := (hnodup.subperm hsub).length_le
  rwa [List.length_cons, List.length_range] at hle

theorem length_strip_banks (a : Archive) (decider : Decider) (options : StripOptions) :
    (a.strip decider options).1.banks.length = (a.keptBankSlots decider options).length := by
  rw [length_of_contents (sameContents_strip a decider options).banks, length_moved_banks]

/-! ## The whole -/

/-- Where no sequence that is left is excluded, a second strip changes nothing if the kept banks
differ, and loses a bank otherwise. -/
theorem strip_idempotent_iff (a : Archive) (decider : Decider) (options : StripOptions)
    (hincluded : ∀ s ∈ (a.strip decider options).1.sequences.live,
      isExcluded decider options s = false) :
    (((a.strip decider options).1.strip decider options).1 = (a.strip decider options).1 ∧
      ((a.strip decider options).1.strip decider options).1.encode
        = (a.strip decider options).1.encode) ↔ a.KeptBanksDiffer decider options := by
  have hcompact := isCompact_strip a decider options
  rw [← banksDiffer_strip_iff]
  constructor
  · rintro ⟨hsame, -⟩
    by_contra hbanks
    have hlt : (((a.strip decider options).1).keptBankSlots decider options).length
        < (a.strip decider options).1.banks.length := length_keptBankSlots_lt hcompact hbanks
    rw [← length_strip_banks, hsame] at hlt
    exact Nat.lt_irrefl _ hlt
  · intro hbanks
    have hsame : ((a.strip decider options).1.strip decider options).1
        = (a.strip decider options).1 :=
      strip_of_isCompact hcompact hbanks (fun n s hs => hincluded s (mem_live.2 ⟨n, hs⟩))
        (renumberFiles_strip a decider options) (needsSymbolCleanup_strip a decider options)
    exact ⟨hsame, congrArg encode hsame⟩

/-- Two songs that are the same but for their banks. These are the same but for a wave archive,
of which numbers 0 and 2 exist. -/
def twinBanks (left right : UInt16) : Archive :=
  let song (n : UInt16) : SequenceEntry :=
    { name := "A", isPlaceholder := false, archiveId := "x", fileId := n, body := #[0xFF]
      settings := { bank := n, volume := 127, channelPriority := 64, playerPriority := 32
                    player := 0, reserved := 0, reservedTail := (0, 0) }
      resource := none }
  let bank (n w : UInt16) : BankEntry :=
    { name := "B", isPlaceholder := false, archiveId := "x", fileId := n, body := #[0]
      settings := { waveArchives := #v[w, 0xFFFF, 0xFFFF, 0xFFFF], reserved := 0 }
      resource := none }
  let waves (n : UInt16) (b : UInt8) : WaveArchiveEntry :=
    { name := "C", isPlaceholder := false, archiveId := "x", fileId := n, body := #[b]
      settings := { reserved := 0 }, resource := none }
  { mergeCount := 0, hasSymbols := true, needsSymbolCleanup := false, fileTableLength := 6
    sequences := [some (song 0), some (song 1)]
    banks := [some (bank 2 left), some (bank 3 right)]
    waveArchives := [some (waves 4 0), none, some (waves 5 1)]
    players := [] }

theorem strip_idempotent_of_twinBanks :
    let decider : Decider := fun _ _ => .unspecified
    let once := ((twinBanks 0 2).strip decider ⟨true⟩).1
    (once.strip decider ⟨true⟩).1 = once ∧
      (once.strip decider ⟨true⟩).1.encode = once.encode := by
  intro decider once
  have hkept : (twinBanks 0 2).keptBankSlots decider ⟨true⟩ = [0, 1] := by cbv
  have hdiffer : (twinBanks 0 2).KeptBanksDiffer decider ⟨true⟩ := by
    unfold KeptBanksDiffer
    rw [hkept]
    decide +kernel
  exact (strip_idempotent_iff (twinBanks 0 2) decider ⟨true⟩ fun _ _ => rfl).2 hdiffer

/-- Two missing wave archives are dropped, and leave two equal banks behind. -/
theorem strip_merges_banks_late :
    ¬ ∀ (a : Archive) (decider : Decider) (options : StripOptions),
      ((∀ name archiveId, decider name archiveId ≠ .excluded) ∨ options.removeExcluded = false) →
      ((a.strip decider options).1.strip decider options).1 = (a.strip decider options).1 ∧
        ((a.strip decider options).1.strip decider options).1.encode
          = (a.strip decider options).1.encode := by
  intro hclaim
  let decider : Decider := fun _ _ => .unspecified
  have honce : ((twinBanks 5 6).strip decider ⟨true⟩).1.banks.length = 2 := by cbv
  have htwice : (((twinBanks 5 6).strip decider ⟨true⟩).1.strip decider ⟨true⟩).1.banks.length
      = 1 := by cbv
  have hsame := (hclaim (twinBanks 5 6) decider ⟨true⟩ (.inl fun _ _ => by simp [decider])).1
  rw [hsame, honce] at htwice
  cases htwice

end Archive

end SoundArchive
