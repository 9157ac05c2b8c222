import SoundArchive.Archive.Index
import SoundArchive.Proofs.Archive.Sections

/-! # The index is read back as it was written -/

namespace SoundArchive

open Bytes

/-! ## Settings -/

/-- What is stored is read back, whatever is stored around it. -/
class LawfulStorable (α : Type) [Storable α] : Prop where
  read?_of_at {bytes : Bytes} {offset : Nat} {a : α} (h : At bytes offset (Storable.encode a)) :
    Storable.read? bytes offset = some a

variable {bytes : Bytes} {offset start : Nat}

instance : LawfulStorable SequenceSettings where
  read?_of_at {bytes offset s} h := by
    have hbytes (i : Nat) (hi : i < 6) := h.right.getElem? (i := i) hi
    simp only [Array.size_append, size_ofU16, Nat.add_assoc, Nat.reduceAdd] at hbytes
    have hbank := h.left.right.u16?
    rw [size_ofU16] at hbank
    have hvolume : bytes[offset + 4]? = some s.volume := hbytes 0 (by omega)
    have hchannel : bytes[offset + 5]? = some s.channelPriority := hbytes 1 (by omega)
    have hpriority : bytes[offset + 6]? = some s.playerPriority := hbytes 2 (by omega)
    have hplayer : bytes[offset + 7]? = some s.player := hbytes 3 (by omega)
    have htail : bytes[offset + 8]? = some s.reservedTail.1 := hbytes 4 (by omega)
    have htail' : bytes[offset + 9]? = some s.reservedTail.2 := hbytes 5 (by omega)
    simp [Storable.read?, h.left.left.u16?, hbank, hvolume, hchannel, hpriority, hplayer, htail,
      htail']

instance : LawfulStorable BankSettings where
  read?_of_at {bytes offset s} h := by
    have hslot (i : Nat) (hi : i < 4) :
        bytes.u16? (offset + (2 + 2 * i)) = some s.waveArchives[i] := by
      have hword := h.right.concat_getElem 2 (i := i) (by simp) (by simpa using hi)
      rw [size_ofU16, Nat.add_assoc] at hword
      simpa using At.u16? (by simpa using hword)
    simp only [Storable.read?, h.left.u16?, hslot 0 (by omega), hslot 1 (by omega),
      hslot 2 (by omega), hslot 3 (by omega)]
    have hslots : #v[s.waveArchives[0], s.waveArchives[1], s.waveArchives[2], s.waveArchives[3]]
        = s.waveArchives := by
      ext i hi
      match i, hi with
      | 0, _ | 1, _ | 2, _ | 3, _ => rfl
    exact congrArg (fun slots => some { s with waveArchives := slots }) hslots

instance : LawfulStorable WaveArchiveSettings where
  read?_of_at h := by simp [Storable.read?, At.u16? h]

instance : LawfulStorable PlayerSettings where
  read?_of_at {bytes offset s} h := by
    have hmax : bytes[offset]? = some s.maxSequences := h.left.left.getElem? (i := 0) (by simp)
    have hpadding : bytes[offset + 1]? = some s.padding := h.left.left.getElem? (i := 1) (by simp)
    have hmask : bytes.u16? (offset + 2) = some s.channelMask := h.left.right.u16?
    have hheap : bytes.u32? (offset + 4) = some s.heapSize := h.right.u32?
    simp [Storable.read?, hmax, hpadding, hmask, hheap]

instance {σ : Type} [Storable σ] [LawfulStorable σ] : LawfulStorable (FiledRecord σ) where
  read?_of_at {bytes offset r} h := by
    have hsettings := LawfulStorable.read?_of_at h.right
    rw [size_ofU16] at hsettings
    simp [Storable.read?, h.left.u16?, hsettings]

namespace Index

/-! ## Lists of settings -/

variable {α : Type} [Storable α] [LawfulStorable α]

theorem readSlots_of_stored {slots : Slots α}
    (h : RecordList.Stored bytes start offset (encodeSlots slots)) (hsize : bytes.size < 2 ^ 32)
    (hstart : 0 < start) (hoffset : 0 < offset) : readSlots bytes start = .ok slots := by
  have hread : (RecordList.offsetsFrom Array.size offset (encodeSlots slots)).mapM
      (readSlot bytes) = .ok slots := by
    refine RecordList.Stored.mapM_offsetsFrom h.records hsize hoffset rfl ?_
    intro a _ p hp hat
    simp [readSlot, hp, LawfulStorable.read?_of_at hat]
  simp [readSlots, Nat.ne_of_gt hstart, h.offsets? hsize, hread]

theorem readSlots_of_section {lists : List (Slots Bytes)} {tag : Tag} (slots : Slots α) (n : Nat)
    (h : At bytes 0 (RecordList.encodeSection tag lists)) (hsize : bytes.size < 2 ^ 32)
    (hcount : lists.length ≤ 14) (hslots : lists[n]? = some (encodeSlots slots)) :
    ∃ start, RecordList.start? bytes n = .ok start ∧ readSlots bytes start = .ok slots := by
  obtain ⟨start, offset, hstart, hpos, hoffset, hstored⟩ :=
    RecordList.stored_of_section h hsize hcount hslots
  exact ⟨start, hstart, readSlots_of_stored hstored hsize hpos hoffset⟩

theorem decode_encode {x : Index} (hsize : x.encode.size < 2 ^ 32) : decode x.encode = .ok x := by
  have hsection := at_self x.encode
  obtain ⟨sequences, hsequences, hreadSequences⟩ :=
    readSlots_of_section x.sequences 0 hsection hsize (by simp) rfl
  obtain ⟨banks, hbanks, hreadBanks⟩ :=
    readSlots_of_section x.banks 2 hsection hsize (by simp) rfl
  obtain ⟨waveArchives, hwaveArchives, hreadWaveArchives⟩ :=
    readSlots_of_section x.waveArchives 3 hsection hsize (by simp) rfl
  obtain ⟨players, hplayers, hreadPlayers⟩ :=
    readSlots_of_section x.players 4 hsection hsize (by simp) rfl
  simp [decode, hsequences, hreadSequences, hbanks, hreadBanks, hwaveArchives, hreadWaveArchives,
    hplayers, hreadPlayers, pure, Except.pure]

end Index

end SoundArchive
