import Mathlib
import SoundArchive.Proofs.Strip.Content
import SoundArchive.Proofs.Strip.Players

/-!
# What the player numbers of stripped sequences lead to

The players that are left have the lowest numbers. A number without a player is not changed, so it
leads to a player that is left if there are so many of them.
-/

namespace SoundArchive

open Slots

/-! ## Players in use -/

variable {players : Slots PlayerSettings} {used : List UInt8} {n : UInt8}

/-- The settings that the numbers lead to, each once. -/
def settingsInUse (players : Slots PlayerSettings) (used : List UInt8) : List PlayerSettings :=
  (used.filterMap fun n => players.entry? n.toNat).eraseDups

theorem keptPlayers_perm (players : Slots PlayerSettings) (used : List UInt8) :
    (keptPlayers players used).Perm (settingsInUse players used) := by
  apply (List.perm_ext_iff_of_nodup (nodup_eraseDups _) (nodup_eraseDups _)).2
  intro p
  simp only [List.mem_eraseDups, List.mem_filterMap, mem_ascending]

theorem entry?_movedPlayer {p : PlayerSettings} (hn : n ∈ used)
    (hp : players.entry? n.toNat = some p) :
    entry? ((keptPlayers players used).map some)
      (movedPlayer players (keptPlayers players used) n).toNat = some p := by
  rw [entry?_map_some]
  exact getElem?_movedPlayer hn hp

theorem entry?_movedPlayer_eq_iff (hn : n ∈ used) :
    entry? ((keptPlayers players used).map some)
        (movedPlayer players (keptPlayers players used) n).toNat = players.entry? n.toNat ↔
      (players.entry? n.toNat).isSome ∨ (settingsInUse players used).length ≤ n.toNat := by
  cases hp : players.entry? n.toNat with
  | some p => exact iff_of_true (entry?_movedPlayer hn hp) (.inl rfl)
  | none =>
    have hmoved : movedPlayer players (keptPlayers players used) n = n := by
      rw [movedPlayer, hp]
    rw [hmoved, entry?_map_some, List.getElem?_eq_none_iff,
      (keptPlayers_perm players used).length_eq]
    simp

namespace Archive

/-! ## Stripped archives -/

variable {a : Archive} {decider : Decider} {options : StripOptions}

theorem player?_strip (a : Archive) (decider : Decider) (options : StripOptions) (n : UInt8) :
    (a.strip decider options).1.player? n
      = entry? ((a.keptPlayersOf decider options).map some) n.toNat := by
  rw [player?, (sameContents_strip a decider options).players]
  rfl

/-- A kept sequence leads to the same player as before if there was one. If there was none, it
leads to none exactly if its number is not among those of the players that are left. -/
theorem strip_keepsPlayer_iff (a : Archive) (decider : Decider) (options : StripOptions) :
    let stripped := (a.strip decider options).1
    ∃ kept : List (Nat × SequenceEntry), (kept.map Prod.fst).Pairwise (· < ·) ∧
      (∀ n s, (n, s) ∈ kept ↔ a.Keeps decider options n s) ∧
      List.Forall₂ (fun entry slot => ∃ s', slot = some s' ∧
          (∀ p, a.player? entry.2.settings.player = some p →
            stripped.player? s'.settings.player = some p) ∧
          (stripped.player? s'.settings.player = a.player? entry.2.settings.player ↔
            (a.player? entry.2.settings.player).isSome ∨
              (settingsInUse a.players ((kept.map Prod.snd).map (·.settings.player))).length
                ≤ entry.2.settings.player.toNat))
        kept stripped.sequences := by
  intro stripped
  refine ⟨a.keptSlots decider options, keptSlots_pairwise_lt a decider options,
    fun n s => mem_keptSlots, (forall₂_moved a decider options).imp ?_⟩
  rintro ⟨n, s⟩ slot ⟨hmem, s', rfl, hs'⟩
  have hsettings : s'.settings = (a.moveKept decider options s).settings :=
    congrArg Content.settings hs'
  have hplayer : s'.settings.player
      = movedPlayer a.players (a.keptPlayersOf decider options) s.settings.player :=
    congrArg SequenceSettings.player hsettings
  have hused : s.settings.player
      ∈ ((a.keptSlots decider options).map Prod.snd).map (·.settings.player) :=
    List.mem_map_of_mem (List.mem_map_of_mem hmem)
  refine ⟨s', rfl, ?_⟩
  rw [player?_strip, hplayer]
  exact ⟨fun p hp => entry?_movedPlayer hused hp, entry?_movedPlayer_eq_iff hused⟩

/-- The first sequence has no player, and that of the second one gets its number. -/
theorem strip_finds_player :
    ¬ ∀ (a : Archive) (decider : Decider) (options : StripOptions) i n s s',
      (a.keptSlots decider options)[i]? = some (n, s) →
      (a.strip decider options).1.sequence? i = some s' →
      (a.strip decider options).1.player? s'.settings.player
        = a.player? s.settings.player := by
  intro hclaim
  let song (player : UInt8) : SequenceEntry :=
    { name := "S", isPlaceholder := false, archiveId := "x", fileId := 0, body := #[player]
      settings := { bank := 0, volume := 127, channelPriority := 64, playerPriority := 32, player
                    reserved := 0, reservedTail := (0, 0) }
      resource := none }
  let bank : BankEntry :=
    { name := "B", isPlaceholder := false, archiveId := "x", fileId := 0, body := #[0]
      settings := { waveArchives := .replicate 4 0xFFFF, reserved := 0 }, resource := none }
  let a : Archive :=
    { mergeCount := 0, hasSymbols := true, needsSymbolCleanup := false, fileTableLength := 0
      sequences := [some (song 0), some (song 1)], banks := [some bank], waveArchives := []
      players := [none, some ⟨1, 0, 0xFFFF, 0⟩] }
  let decider : Decider := fun _ _ => .unspecified
  have hplayers : (a.strip decider ⟨true⟩).1.player? 0 = a.player? 0 :=
    hclaim a decider ⟨true⟩ 0 0 (song 0) (song 0) (by cbv) (by cbv)
  have hfound : (a.strip decider ⟨true⟩).1.player? 0 = some ⟨1, 0, 0xFFFF, 0⟩ := by cbv
  cases hplayers.symm.trans hfound

end Archive

end SoundArchive
