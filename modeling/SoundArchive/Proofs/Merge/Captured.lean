import SoundArchive.Archive.Merge
import SoundArchive.Proofs.Archive.Slots

/-!
# What a merge changes for the entries that were there

The slots that are appended take the numbers behind those that were there. A reference to one of
these numbers led to nothing before.
-/

namespace SoundArchive

namespace Slots

variable {α β : Type}

/-- Whether `n` is no number of `slots`, but that of an entry once `appended` are behind them. -/
def Captures (slots : Slots α) (appended : Slots β) (n : Nat) : Prop :=
  slots.length ≤ n ∧ (appended.entry? (n - slots.length)).isSome

instance (slots : Slots α) (appended : Slots β) (n : Nat) :
    Decidable (Captures slots appended n) := inferInstanceAs (Decidable (_ ∧ _))

theorem not_captures_of_live {slots : Slots α} {appended : Slots β} {n : Nat} {x : α}
    (h : slots.entry? n = some x) : ¬ Captures slots appended n :=
  fun hc => Nat.not_lt.2 hc.1 (lt_of_entry?_eq_some h)

theorem entry?_append_eq_iff {slots rest : Slots α} {n : Nat} :
    entry? (slots ++ rest) n = slots.entry? n ↔ ¬ Captures slots rest n := by
  by_cases hn : n < slots.length
  · rw [entry?_append_left hn]
    exact ⟨fun _ h => absurd hn (Nat.not_lt.2 h.1), fun _ => rfl⟩
  · have hle := Nat.le_of_not_lt hn
    rw [entry?_append_right hle, entry?_of_le hle]
    simp [Captures, hle]

theorem captures_mapLive (f : α → β) (slots : Slots α) (rest : Slots α) (n : Nat) :
    Captures slots (rest.mapLive f) n ↔ Captures slots rest n := by
  rw [Captures, Captures, entry?_mapLive, Option.isSome_map]

end Slots

namespace Archive

open Slots

theorem bank?_merge_eq_iff (a b : Archive) (n : UInt16) :
    (a.merge b).bank? n = a.bank? n ↔ ¬ Captures a.banks b.banks n.toNat := by
  rw [← captures_mapLive a.shift.ofBank]
  exact entry?_append_eq_iff

theorem player?_merge_eq_iff (a b : Archive) (n : UInt8) :
    (a.merge b).player? n = a.player? n ↔ ¬ Captures a.players b.players n.toNat :=
  entry?_append_eq_iff

theorem waveArchive?_merge_eq_iff (a b : Archive) (n : UInt16) :
    (a.merge b).waveArchive? n = a.waveArchive? n ↔
      n = BankSettings.noWaveArchive ∨ ¬ Captures a.waveArchives b.waveArchives n.toNat := by
  unfold waveArchive?
  split
  · next hnone => simp [hnone]
  · next hsome =>
    rw [← captures_mapLive a.shift.ofFile]
    simp only [hsome, false_or]
    exact entry?_append_eq_iff

/-! ## All references -/

/-- Every entry of `a` refers to the same in `m`, or still to nothing. -/
structure RefersAlike (a m : Archive) : Prop where
  bank : ∀ e ∈ a.sequences.live, m.bank? e.settings.bank = a.bank? e.settings.bank
  player : ∀ e ∈ a.sequences.live, m.player? e.settings.player = a.player? e.settings.player
  waveArchive : ∀ e ∈ a.banks.live, ∀ n ∈ e.settings.waveArchives,
    m.waveArchive? n = a.waveArchive? n

/-- No entry of `a` has a number past the slots of `a` that an entry of `b` takes behind them. -/
structure NoneCaptured (a b : Archive) : Prop where
  bank : ∀ e ∈ a.sequences.live, ¬ Captures a.banks b.banks e.settings.bank.toNat
  player : ∀ e ∈ a.sequences.live, ¬ Captures a.players b.players e.settings.player.toNat
  waveArchive : ∀ e ∈ a.banks.live, ∀ n ∈ e.settings.waveArchives,
    n = BankSettings.noWaveArchive ∨ ¬ Captures a.waveArchives b.waveArchives n.toNat

/-- What is found in `a` is found under the same number in `m`. -/
structure FoundAlike (a m : Archive) : Prop where
  bank : ∀ n e, a.bank? n = some e → m.bank? n = some e
  player : ∀ n e, a.player? n = some e → m.player? n = some e
  waveArchive : ∀ n e, a.waveArchive? n = some e → m.waveArchive? n = some e

theorem foundAlike_merge (a b : Archive) : FoundAlike a (a.merge b) where
  bank n _ h := ((bank?_merge_eq_iff a b n).2 (not_captures_of_live h)).trans h
  player n _ h := ((player?_merge_eq_iff a b n).2 (not_captures_of_live h)).trans h
  waveArchive n e h := by
    refine ((waveArchive?_merge_eq_iff a b n).2 ?_).trans h
    unfold waveArchive? at h
    split at h
    · next hnone => exact .inl hnone
    · exact .inr (not_captures_of_live h)

/-- A merge leaves every reference that leads to something. It leaves those that lead to nothing
exactly when no entry that is appended takes their number. -/
theorem merge_refersAlike_iff (a b : Archive) :
    FoundAlike a (a.merge b) ∧ (RefersAlike a (a.merge b) ↔ NoneCaptured a b) := by
  refine ⟨foundAlike_merge a b, ?_, ?_⟩
  · intro h
    exact {
      bank := fun e he => (bank?_merge_eq_iff a b _).1 (h.bank e he)
      player := fun e he => (player?_merge_eq_iff a b _).1 (h.player e he)
      waveArchive := fun e he n hn =>
        (waveArchive?_merge_eq_iff a b n).1 (h.waveArchive e he n hn) }
  · intro h
    exact {
      bank := fun e he => (bank?_merge_eq_iff a b _).2 (h.bank e he)
      player := fun e he => (player?_merge_eq_iff a b _).2 (h.player e he)
      waveArchive := fun e he n hn =>
        (waveArchive?_merge_eq_iff a b n).2 (h.waveArchive e he n hn) }

/-- One song that asks for bank 0, and no bank. -/
def unaccompanied : Archive :=
  let song : SequenceEntry :=
    { name := "S", isPlaceholder := false, archiveId := "x", fileId := 0, body := #[0xFF]
      settings := { bank := 0, volume := 127, channelPriority := 64, playerPriority := 32
                    player := 0, reserved := 0, reservedTail := (0, 0) }
      resource := none }
  { mergeCount := 0, hasSymbols := true, needsSymbolCleanup := false, fileTableLength := 1
    sequences := [some song], banks := [], waveArchives := [], players := [] }

/-- One bank, behind as many holes. -/
def ofBankBehind (holes : Nat) : Archive :=
  let bank : BankEntry :=
    { name := "B", isPlaceholder := false, archiveId := "y", fileId := 0, body := #[0]
      settings := { waveArchives := .replicate 4 BankSettings.noWaveArchive, reserved := 0 }
      resource := none }
  { mergeCount := 0, hasSymbols := true, needsSymbolCleanup := false, fileTableLength := 1
    sequences := [], banks := List.replicate holes none ++ [some bank], waveArchives := []
    players := [] }

/-- The song still has no bank if a hole takes the number. -/
theorem merge_refersAlike_behind_hole :
    unaccompanied.bank? 0 = none ∧ NoneCaptured unaccompanied (ofBankBehind 1) ∧
      RefersAlike unaccompanied (unaccompanied.merge (ofBankBehind 1)) := by
  have h : NoneCaptured unaccompanied (ofBankBehind 1) := ⟨by decide, by decide, by decide⟩
  exact ⟨rfl, h, (merge_refersAlike_iff unaccompanied (ofBankBehind 1)).2.2 h⟩

/-- The song had no bank, and after the merge it plays with the one that came along. -/
theorem merge_captures_missing_bank :
    ¬ ∀ a b : Archive, RefersAlike a (a.merge b) := by
  intro hclaim
  have hmissing : unaccompanied.bank? 0 = none := rfl
  have hcaptured : (unaccompanied.merge (ofBankBehind 0)).bank? 0 ≠ none := by decide
  obtain ⟨song, hsong, hbank⟩ :
      ∃ e ∈ unaccompanied.sequences.live, e.settings.bank = 0 := by decide
  have hsame := (hclaim unaccompanied (ofBankBehind 0)).bank song hsong
  rw [hbank, hmissing] at hsame
  exact hcaptured hsame

end Archive

end SoundArchive
