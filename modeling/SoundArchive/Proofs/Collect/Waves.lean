import SoundArchive.Collect.Basic
import SoundArchive.Playback.Mixer
import SoundArchive.Proofs.Collect.Selection
import Mathlib.Algebra.Group.Nat.Defs

/-! # Renumbered ranges play the waves that they played -/

namespace SoundArchive

/-! ## Numbered collections -/

namespace Numbered

variable {α : Type}

theorem lookup_numberFrom (slots : List (Option α)) (n i : Nat) :
    (numberFrom n slots).lookup (n + i) = slots[i]?.join := by
  induction slots generalizing n i with
  | nil => rfl
  | cons slot rest ih =>
    cases i with
    | zero =>
      cases slot with
      | none =>
        refine List.lookup_eq_none_iff.2 fun e he => ?_
        have hlt : n + 1 ≤ e.1 := le_of_mem_numberFrom he
        rw [Nat.add_zero, bne_iff_ne]
        omega
      | some a => simp [numberFrom]
    | succ i =>
      have hrest : (numberFrom (n + 1) rest).lookup (n + (i + 1)) = rest[i]?.join := by
        rw [Nat.add_comm i, ← Nat.add_assoc]
        exact ih (n + 1) i
      cases slot with
      | none => exact hrest
      | some a =>
        have hne : (n + (i + 1) == n) = false := beq_eq_false_iff_ne.2 (by omega)
        rw [numberFrom, List.lookup_cons, hne]
        exact hrest

theorem find?_ofSlots (slots : List (Option α)) (i : Nat) :
    (ofSlots slots).find? i = slots[i]?.join := by
  have h := lookup_numberFrom slots 0 i
  rwa [Nat.zero_add] at h

end Numbered

/-! ## Users of waves -/

namespace WaveUser

variable {user : WaveUser} {n : Nat} {r : KeyRange}

theorem refersTo_of_plays (h : waveArchiveOf? user.slots r = some n) : user.refersTo n := by
  unfold waveArchiveOf? at h
  split at h
  · obtain ⟨slot, hslot, hn⟩ := Option.map_eq_some_iff.1 h
    exact List.any_eq_true.2
      ⟨slot, Vector.mem_toList_iff.2 (Vector.mem_of_getElem? hslot), beq_iff_eq.2 hn⟩
  · cases h

theorem mem_wavesOf {instruments : List Instrument}
    (hinstruments : user.instruments = some instruments)
    (hr : r ∈ instruments.flatMap Instrument.ranges) (h : waveArchiveOf? user.slots r = some n) :
    r.wave.toNat ∈ user.wavesOf n := by
  rw [wavesOf, hinstruments]
  exact List.mem_filterMap.2 ⟨r, hr, if_pos h⟩

theorem lt_of_mem_wavesOf {m : Nat} (h : m ∈ user.wavesOf n) : m < 2 ^ 16 := by
  obtain ⟨range, _, hrange⟩ := List.mem_filterMap.1 h
  split at hrange
  · obtain rfl := Option.some.inj hrange
    exact range.wave.toNat_lt
  · cases hrange

end WaveUser

/-! ## Wave archives -/

namespace WaveArchive

open WaveUser

theorem wave?_ofWaves (waves : List Wave) (i : Nat) : (ofWaves waves).wave? i = waves[i]? := by
  rw [wave?, ofWaves, Numbered.find?_ofSlots, List.getElem?_map]
  rcases waves[i]? with _ | _ <;> rfl

variable {waves : WaveArchive} {used : List Nat} {n : Nat}

theorem wave?_shrink (hn : n ∈ used) :
    (waves.shrink used).waves.wave? ((waves.shrink used).selection.renumber n) = waves.wave? n := by
  have hfound := Selection.getElem?_filterMap_renumber (fun n => (waves.wave? n).isSome)
    (f := waves.wave?) (fun m hm => hm) hn
  rw [shrink, wave?_ofWaves, hfound]
  split
  · rfl
  · next hnone => exact (Option.not_isSome_iff_eq_none.1 hnone).symm

/-- A wave archive that was shrunk for its users still has the waves that they play, under
numbers that fit. -/
theorem wave?_shrinkFor {users : List WaveUser} {user : WaveUser} {s : ShrunkWaves}
    {instruments : List Instrument} {r : KeyRange} (hs : waves.shrinkFor n users = some s)
    (huser : user ∈ users) (hinstruments : user.instruments = some instruments)
    (hr : r ∈ instruments.flatMap Instrument.ranges)
    (hplays : WaveUser.waveArchiveOf? user.slots r = some n) :
    s.waves.wave? (s.selection.renumber r.wave.toNat).toUInt16.toNat
      = waves.wave? r.wave.toNat := by
  simp only [shrinkFor] at hs
  split at hs
  · cases hs
  · obtain rfl := Option.some.inj hs
    have hused : r.wave.toNat ∈ (users.filter (·.refersTo n)).flatMap (·.wavesOf n) :=
      List.mem_flatMap.2 ⟨user, List.mem_filter.2 ⟨huser, refersTo_of_plays hplays⟩,
        mem_wavesOf hinstruments hr hplays⟩
    have hbound : ∀ m ∈ (users.filter (·.refersTo n)).flatMap (·.wavesOf n), m < 2 ^ 16 := by
      intro m hm
      obtain ⟨_, _, hm⟩ := List.mem_flatMap.1 hm
      exact lt_of_mem_wavesOf hm
    generalize (users.filter (·.refersTo n)).flatMap (·.wavesOf n) = used at hbound hused
    have hlt : (waves.shrink used).selection.renumber r.wave.toNat < 2 ^ 16 :=
      Selection.renumber_lt _ hbound hused
    rw [Nat.toUInt16_eq, UInt16.toNat_ofNat', Nat.mod_eq_of_lt hlt]
    exact wave?_shrink hused

end WaveArchive

/-! ## Ranges -/

namespace KeyRange

theorem renumberWave_eq (shrunk : Array (Option ShrunkWaves)) (slots : Vector UInt16 4)
    (r : KeyRange) :
    r.renumberWave shrunk slots = { r with wave := (r.renumberWave shrunk slots).wave } := by
  unfold renumberWave
  split <;> rfl

theorem wave_renumberWave {shrunk : Slots ShrunkWaves} {slots : Vector UInt16 4} {r : KeyRange}
    {n : Nat} (hplays : WaveUser.waveArchiveOf? slots r = some n) :
    (r.renumberWave shrunk.toArray slots).wave
      = match shrunk.entry? n with
        | some s => (s.selection.renumber r.wave.toNat).toUInt16
        | none => r.wave := by
  rw [renumberWave, hplays, Option.bind_some, List.getElem?_toArray]
  unfold Slots.entry?
  cases shrunk[n]?.join <;> rfl

theorem highNote_renumberWave (shrunk : Array (Option ShrunkWaves)) (slots : Vector UInt16 4)
    (r : KeyRange) : (r.renumberWave shrunk slots).highNote = r.highNote := by
  rw [renumberWave_eq]

end KeyRange

end SoundArchive
