import SoundArchive.Proofs.Archive.Slots
import SoundArchive.Proofs.Ascending
import SoundArchive.Strip.Players

/-! # The kept players are those in use, each once -/

namespace SoundArchive

open Slots

/-! ## Duplicates -/

section

variable {α : Type} [BEq α] [LawfulBEq α]

theorem nodup_eraseDups (l : List α) : l.eraseDups.Nodup := by
  cases l with
  | nil => simp
  | cons a rest =>
    rw [List.eraseDups_cons, List.nodup_cons]
    constructor
    · simp
    · exact nodup_eraseDups _
termination_by l.length
decreasing_by
  have := List.length_filter_le (fun b => !b == a) rest
  simp only [List.length_cons]
  omega

theorem eraseDups_of_nodup {l : List α} (h : l.Nodup) : l.eraseDups = l := by
  induction l with
  | nil => simp
  | cons a rest ih =>
    obtain ⟨ha, hrest⟩ := List.nodup_cons.1 h
    have hkeep : rest.filter (fun b => !b == a) = rest := by
      rw [List.filter_eq_self]
      intro b hb
      have hne : b ≠ a := fun heq => ha (heq ▸ hb)
      simp [hne]
    rw [List.eraseDups_cons, hkeep, ih hrest]

end

/-! ## Players -/

variable {players : Slots PlayerSettings} {used : List UInt8} {p : PlayerSettings} {n : UInt8}

theorem mem_keptPlayers :
    p ∈ keptPlayers players used ↔ ∃ n ∈ used, players.entry? n.toNat = some p := by
  simp [keptPlayers, List.mem_eraseDups]

/-- As many as there are numbers, at most. -/
theorem length_keptPlayers_le (players : Slots PlayerSettings) (used : List UInt8) :
    (keptPlayers players used).length ≤ 256 := by
  have hsub : keptPlayers players used ⊆ (List.range 256).filterMap players.entry? := by
    intro p hp
    obtain ⟨n, -, hn⟩ := mem_keptPlayers.1 hp
    exact List.mem_filterMap.2 ⟨n.toNat, List.mem_range.2 n.toNat_lt, hn⟩
  have hle := ((nodup_eraseDups _).subperm hsub).length_le
  have hrange := List.length_filterMap_le players.entry? (List.range 256)
  rw [List.length_range] at hrange
  exact hle.trans hrange

/-- A player that exists moves to where its settings are kept. -/
theorem getElem?_movedPlayer (hn : n ∈ used) (hp : players.entry? n.toNat = some p) :
    (keptPlayers players used)[(movedPlayer players (keptPlayers players used) n).toNat]?
      = some p := by
  have hlt := List.idxOf_lt_length_of_mem (mem_keptPlayers.2 ⟨n, hn, hp⟩)
  have hle := length_keptPlayers_le players used
  have hnat : ((keptPlayers players used).idxOf p).toUInt8.toNat
      = (keptPlayers players used).idxOf p := by
    rw [Nat.toUInt8_eq, UInt8.toNat_ofNat', Nat.mod_eq_of_lt (by omega)]
  rw [movedPlayer, hp]
  simp only [hnat]
  rw [List.getElem?_eq_getElem hlt, List.getElem_idxOf]

/-! ## Players that are all in use -/

/-- Numbers of players that do not exist are of no account. -/
theorem keptPlayers_of_used {kept : List PlayerSettings} (hnodup : kept.Nodup)
    (hused : ∀ i < kept.length, ∃ n ∈ used, n.toNat = i) :
    keptPlayers (kept.map some) used = kept := by
  have hnat : (ascending used).map (·.toNat) = ascending (used.map (·.toNat)) :=
    map_ascending (fun _ _ h => UInt8.toNat_inj.1 h) (fun _ _ => UInt8.le_iff_toNat_le) used
  have hthere : (ascending (used.map (·.toNat))).filter (· < kept.length)
      = List.range kept.length := by
    refine List.Pairwise.eq_of_mem_iff ((ascending_pairwise_lt _).filter _)
      List.pairwise_lt_range ?_
    intro i
    simp only [List.mem_filter, mem_ascending, List.mem_map, decide_eq_true_eq, List.mem_range]
    exact ⟨fun h => h.2, fun h => ⟨hused i h, h⟩⟩
  have hentries : ((ascending used).filterMap fun n => entry? (kept.map some) n.toNat) = kept := by
    calc ((ascending used).filterMap fun n => entry? (kept.map some) n.toNat)
        = (ascending (used.map (·.toNat))).filterMap (Slots.entry? (kept.map some)) := by
          rw [← hnat, List.filterMap_map]
          rfl
      _ = ((ascending (used.map (·.toNat))).filter (· < kept.length)).filterMap
            (Slots.entry? (kept.map some)) := by
          rw [List.filterMap_filter]
          refine List.filterMap_congr fun i _ => ?_
          by_cases hi : i < kept.length
          · simp [hi]
          · simp [hi, entry?_map_some]
      _ = live (kept.map some) := by
          rw [hthere, live_eq_filterMap, List.length_map]
      _ = kept := live_map_some kept
  rw [keptPlayers, hentries, eraseDups_of_nodup hnodup]

theorem movedPlayer_of_nodup {kept : List PlayerSettings} (hnodup : kept.Nodup) (n : UInt8) :
    movedPlayer (kept.map some) kept n = n := by
  unfold movedPlayer
  split
  · next p hp =>
    rw [entry?_map_some] at hp
    obtain ⟨hlt, rfl⟩ := List.getElem?_eq_some_iff.1 hp
    rw [hnodup.idxOf_getElem n.toNat hlt]
    simp
  · rfl

end SoundArchive
