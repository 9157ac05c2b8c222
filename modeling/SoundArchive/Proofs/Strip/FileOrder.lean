import SoundArchive.Proofs.Strip.Idempotence

/-! # A stripped archive is compact, and its files are in order -/

namespace SoundArchive

open Slots

theorem Slots.fileIds_of_numbered {σ ρ : Type} {n : Nat} {slots : Slots (Entry σ ρ)}
    (h : Archive.numberFiles n slots = slots) (hroom : n + slots.liveCount ≤ 65536) :
    slots.live.map (·.fileId.toNat) = List.range' n slots.liveCount := by
  unfold Archive.numberFiles at h
  induction slots generalizing n with
  | nil => rfl
  | cons slot rest ih =>
    rw [mapCounted.eq_def] at h
    cases slot with
    | none => exact ih (List.cons.inj h).2 hroom
    | some e =>
      obtain ⟨hfirst, hrest⟩ := List.cons.inj h
      have hid : n.toUInt16 = e.fileId := congrArg Entry.fileId (Option.some.inj hfirst)
      have hcount : liveCount (some e :: rest) = liveCount rest + 1 := rfl
      rw [hcount] at hroom ⊢
      have hnat : e.fileId.toNat = n := by
        rw [← hid, Nat.toUInt16_eq, UInt16.toNat_ofNat']
        omega
      rw [List.range'_succ]
      exact congrArg₂ List.cons hnat (ih hrest (by omega))

namespace Archive

/-- The files have the numbers from 0 on, first those of sequences, then of banks, then of wave
archives, and the table has no others. -/
structure FilesInOrder (a : Archive) : Prop where
  ids : a.fileIds.map (·.toNat) = List.range a.fileCount
  table : a.fileTableLength = a.fileCount

theorem filesInOrder_of_numbered {a : Archive} (h : a.renumberFiles = a)
    (hcount : a.fileCount < 65536) : a.FilesInOrder := by
  have hsum : a.fileCount = a.sequences.liveCount + a.banks.liveCount
      + a.waveArchives.liveCount := rfl
  constructor
  case ids =>
    have hsequences := fileIds_of_numbered (congrArg Archive.sequences h) (by omega)
    have hbanks := fileIds_of_numbered (congrArg Archive.banks h) (by omega)
    have hwaveArchives := fileIds_of_numbered (congrArg Archive.waveArchives h) (by omega)
    unfold fileIds
    simp only [List.map_append, List.map_map, Function.comp_def]
    rw [hsequences, hbanks, hwaveArchives, hsum, List.range_eq_range', ← List.range'_append_1,
      ← List.range'_append_1, Nat.zero_add, Nat.zero_add]
  case table =>
    have htable : a.fileCount.toUInt16.toNat = a.fileTableLength :=
      congrArg Archive.fileTableLength h
    rw [← htable, Nat.toUInt16_eq, UInt16.toNat_ofNat', Nat.mod_eq_of_lt hcount]

/-- What is left of an archive has no holes, no references that lead to nothing, nothing that is
not in use and nothing twice. Its files are in order, as long as their ids do not run out. -/
theorem strip_isCompact_filesInOrder (a : Archive) (decider : Decider) (options : StripOptions)
    (hcount : (a.strip decider options).1.fileCount < 65536) :
    (a.strip decider options).1.IsCompact ∧ (a.strip decider options).1.FilesInOrder :=
  ⟨isCompact_strip a decider options,
    filesInOrder_of_numbered (renumberFiles_strip a decider options) hcount⟩

/-- Of a song, its copy with a copy of the bank, one without a bank and an excluded one, only the
first is left, with its bank, the second wave archive and the player that is used. -/
theorem strip_isCompact_filesInOrder_of_songs :
    let song (name : String) (bank : UInt16) (player : UInt8) : SequenceEntry :=
      { name, isPlaceholder := false, archiveId := "x", fileId := 9, body := #[0xFF]
        settings := { bank, volume := 127, channelPriority := 64, playerPriority := 32, player
                      reserved := 0, reservedTail := (0, 0) }
        resource := none }
    let bank (w : UInt16) : BankEntry :=
      { name := "B", isPlaceholder := true, archiveId := "x", fileId := 9, body := #[0]
        settings := { waveArchives := #v[w, 7, 0xFFFF, 0xFFFF], reserved := 0 }, resource := none }
    let waves (b : UInt8) : WaveArchiveEntry :=
      { name := "W", isPlaceholder := true, archiveId := "x", fileId := 9, body := #[b]
        settings := { reserved := 0 }, resource := none }
    let player (n : UInt8) : PlayerSettings :=
      { maxSequences := n, padding := 0, channelMask := 0xFFFF, heapSize := 0 }
    let a : Archive :=
      { mergeCount := 0, hasSymbols := true, needsSymbolCleanup := true, fileTableLength := 20
        sequences := [none, some (song "S" 1 2), some (song "T" 3 2), some (song "U" 8 0),
          some (song "V" 0 0)]
        banks := [some (bank 0), some (bank 1), none, some (bank 2)]
        waveArchives := [some (waves 0), some (waves 1), some (waves 1)]
        players := [some (player 1), none, some (player 2)] }
    let decider : Decider := fun name _ => if name = "V" then .excluded else .unspecified
    let stripped := (a.strip decider ⟨true⟩).1
    stripped.fileCount = 3 ∧ stripped.IsCompact ∧ stripped.FilesInOrder := by
  intro song bank waves player a decider stripped
  have hcount : (a.strip decider ⟨true⟩).1.fileCount = 3 := by cbv
  exact ⟨hcount, strip_isCompact_filesInOrder a decider ⟨true⟩ (by omega)⟩

end Archive

end SoundArchive
