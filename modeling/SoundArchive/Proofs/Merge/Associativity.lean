import SoundArchive.Proofs.Merge.Appended

/-!
# Merging is associative but for the count of merges

Numbers that move twice move by both shifts at once. A wave archive that moves to the number of
none is the exception: it moves no further.
-/

namespace SoundArchive

/-! ## Moving slots -/

namespace Slots

variable {α β γ : Type}

theorem mapLive_mapLive (f : β → γ) (g : α → β) (slots : Slots α) :
    (slots.mapLive g).mapLive f = slots.mapLive fun x => f (g x) := by
  simp [mapLive, Function.comp_def]

theorem mapLive_eq_iff {f g : α → β} {slots : Slots α} :
    slots.mapLive f = slots.mapLive g ↔ ∀ x ∈ slots.live, f x = g x := by
  induction slots with
  | nil => simp [mapLive, live]
  | cons slot rest ih =>
    cases slot with
    | none => exact (List.cons_inj_right _).trans ih
    | some x =>
      unfold mapLive at ih ⊢
      rw [List.map_cons, List.map_cons, List.cons_eq_cons, ih]
      simp [live]

/-- What is behind two others has moved twice, or once by both moves. -/
theorem append_mapLive_eq_iff {f g h : α → α} {slots middle rest : Slots α} :
    (slots ++ middle.mapLive f) ++ rest.mapLive h = slots ++ mapLive f (middle ++ rest.mapLive g)
      ↔ ∀ x ∈ rest.live, h x = f (g x) := by
  rw [mapLive_append, mapLive_mapLive, List.append_assoc, List.append_cancel_left_eq,
    List.append_cancel_left_eq, mapLive_eq_iff]

end Slots

/-! ## Shifts -/

namespace Shift

variable {σ ρ : Type} {s t : Shift}

instance : Add Shift where
  add s t :=
    { file := s.file + t.file, bank := s.bank + t.bank
      waveArchive := s.waveArchive + t.waveArchive, player := s.player + t.player }

theorem ofFile_add (s t : Shift) (e : Entry σ ρ) : (s + t).ofFile e = s.ofFile (t.ofFile e) := by
  have hfile : e.fileId + (s.file + t.file) = e.fileId + t.file + s.file := by
    rw [UInt16.add_comm s.file, UInt16.add_assoc]
  exact congrArg (fun fileId => { e with fileId }) hfile

theorem ofPlayer_add (s t : Shift) (n : UInt8) :
    (s + t).ofPlayer n = s.ofPlayer (t.ofPlayer n) := by
  have hmoved : (t.ofPlayer n).toNat = min (n.toNat + t.player) 0xFF := by
    rw [ofPlayer, Nat.toUInt8_eq, UInt8.toNat_ofNat']
    omega
  have hplayer : (s + t).player = s.player + t.player := rfl
  rw [ofPlayer, ofPlayer, hmoved, hplayer]
  congr 1
  omega

theorem ofSequence_add (s t : Shift) (e : SequenceEntry) :
    (s + t).ofSequence e = s.ofSequence (t.ofSequence e) := by
  have hbank : e.settings.bank + (s.bank + t.bank) = e.settings.bank + t.bank + s.bank := by
    rw [UInt16.add_comm s.bank, UInt16.add_assoc]
  have hfile := ofFile_add s t e
  have hplayer := ofPlayer_add s t e.settings.player
  unfold ofSequence
  rw [hfile, hplayer]
  exact congrArg (fun bank => { s.ofFile (t.ofFile e) with
    settings := { e.settings with
      bank, player := s.ofPlayer (t.ofPlayer e.settings.player) } }) hbank

/-- Whether the shift moves a wave archive to the number of none. -/
def Loses (s : Shift) (n : UInt16) : Prop :=
  n ≠ BankSettings.noWaveArchive ∧ s.ofWaveArchive n = BankSettings.noWaveArchive

instance (s : Shift) (n : UInt16) : Decidable (s.Loses n) := inferInstanceAs (Decidable (_ ∧ _))

theorem ofWaveArchive_add_iff (s t : Shift) (n : UInt16) :
    (s + t).ofWaveArchive n = s.ofWaveArchive (t.ofWaveArchive n)
      ↔ s.waveArchive = 0 ∨ ¬ t.Loses n := by
  have hadd : n + (s + t).waveArchive = n + t.waveArchive + s.waveArchive := by
    change n + (s.waveArchive + t.waveArchive) = _
    rw [UInt16.add_comm s.waveArchive, UInt16.add_assoc]
  unfold Loses ofWaveArchive
  rw [hadd]
  by_cases hnone : n = BankSettings.noWaveArchive
  · simp [hnone]
  · by_cases hlost : n + t.waveArchive = BankSettings.noWaveArchive
    · simp [hnone, hlost]
    · simp [hnone, hlost]

theorem ofBank_add_iff (s t : Shift) (e : BankEntry) :
    (s + t).ofBank e = s.ofBank (t.ofBank e)
      ↔ s.waveArchive = 0 ∨ ∀ n ∈ e.settings.waveArchives, ¬ t.Loses n := by
  have hslots : (s + t).ofBank e = s.ofBank (t.ofBank e) ↔
      e.settings.waveArchives.map (s + t).ofWaveArchive
        = (e.settings.waveArchives.map t.ofWaveArchive).map s.ofWaveArchive := by
    have hfile := ofFile_add s t e
    unfold ofBank
    rw [hfile]
    simp [ofFile]
  rw [hslots, Vector.map_map, Vector.map_inj_left]
  simp only [Function.comp_apply, ofWaveArchive_add_iff, or_iff_not_imp_left]
  exact ⟨fun h hmoves n hn => h n hn hmoves, fun h n hn hmoves => h hmoves n hn⟩

end Shift

/-! ## Archives -/

namespace Archive

theorem foldl_max_of_le {α : Type} {f : α → Nat} {l : List α} {start : Nat}
    (h : ∀ x ∈ l, f x ≤ start) : l.foldl (fun top x => max top (f x)) start = start := by
  induction l with
  | nil => rfl
  | cons x rest ih =>
    obtain ⟨hx, hrest⟩ := List.forall_mem_cons.1 h
    rw [List.foldl_cons, Nat.max_eq_left hx]
    exact ih hrest

theorem fileIds_append {σ ρ : Type} {slots rest : Slots (Entry σ ρ)} (shift : UInt16)
    {f : Entry σ ρ → Entry σ ρ} (hf : ∀ e, (f e).fileId = e.fileId + shift) :
    (Slots.live (slots ++ rest.mapLive f)).map (·.fileId)
      = slots.live.map (·.fileId) ++ (rest.live.map (·.fileId)).map (· + shift) := by
  have hrest : (Slots.live (rest.mapLive f)).map (·.fileId)
      = (rest.live.map (·.fileId)).map (· + shift) := by
    rw [Slots.live_mapLive, List.map_map, List.map_map]
    exact List.map_congr_left fun e _ => hf e
  rw [Slots.live_append, List.map_append, hrest]

theorem mem_fileIds_merge {a b : Archive} {id : UInt16} (h : id ∈ (a.merge b).fileIds) :
    id ∈ a.fileIds ∨ ∃ old ∈ b.fileIds, old + a.shift.file = id := by
  have hsequences : (a.merge b).sequences.live.map (·.fileId) = _ :=
    fileIds_append a.shift.file fun _ => rfl
  have hbanks : (a.merge b).banks.live.map (·.fileId) = _ :=
    fileIds_append a.shift.file fun _ => rfl
  have hwaveArchives : (a.merge b).waveArchives.live.map (·.fileId) = _ :=
    fileIds_append a.shift.file fun _ => rfl
  unfold fileIds at h ⊢
  rw [hsequences, hbanks, hwaveArchives] at h
  simp only [List.mem_append, List.mem_map (f := (· + a.shift.file))] at h ⊢
  rcases h with ((h | h) | (h | h)) | (h | h)
  all_goals grind

/-- An id that moves passes no more numbers than there are in front of it. -/
theorem fileIdSpan_merge (a b : Archive) :
    (a.merge b).fileIdSpan = a.fileIdSpan + b.fileIdSpan := by
  refine foldl_max_of_le (f := fun id : UInt16 => id.toNat + 1) ?_
  intro id hid
  rcases mem_fileIds_merge hid with hid | ⟨old, hold, rfl⟩
  · have hlt := lt_fileIdSpan_of_mem hid
    change _ ≤ a.fileIdSpan + b.fileIdSpan
    omega
  · have hlt := lt_fileIdSpan_of_mem hold
    change _ ≤ a.fileIdSpan + b.fileIdSpan
    have hmoved : (old + a.shift.file).toNat ≤ old.toNat + a.fileIdSpan := by
      rw [UInt16.toNat_add, shift, Nat.toUInt16_eq, UInt16.toNat_ofNat']
      omega
    omega

theorem shift_merge (a b : Archive) : (a.merge b).shift = a.shift + b.shift := by
  have hlength {α : Type} (slots rest : Slots α) (f : α → α) :
      (slots ++ rest.mapLive f).length.toUInt16
        = slots.length.toUInt16 + rest.length.toUInt16 := by
    simp [Slots.mapLive]
  have hbanks := hlength a.banks b.banks a.shift.ofBank
  have hwaveArchives := hlength a.waveArchives b.waveArchives a.shift.ofFile
  have hplayers : (a.players ++ b.players).length = a.players.length + b.players.length :=
    List.length_append
  have hfiles : (a.merge b).fileIdSpan.toUInt16
      = a.fileIdSpan.toUInt16 + b.fileIdSpan.toUInt16 := by
    rw [fileIdSpan_merge]
    simp
  unfold shift
  rw [hfiles]
  unfold merge
  simp only
  rw [hbanks, hwaveArchives, hplayers]
  rfl

/-- A symbol is due whichever archives come together first. -/
theorem needsSymbolCleanup_merge (a b c : Archive) :
    ((a.merge b).merge c).needsSymbolCleanup = (a.merge (b.merge c)).needsSymbolCleanup := by
  unfold merge
  simp only
  cases a.hasSymbols <;> cases b.hasSymbols <;> cases c.hasSymbols <;>
    simp [Bool.or_assoc]

/-- Three archives come to the same whichever two are merged first, unless a wave archive that
the last refers to moves to the number of none and should move further. -/
theorem merge_assoc_iff (a b c : Archive) :
    (a.merge b).merge c = { a.merge (b.merge c) with mergeCount := a.mergeCount + 2 }
      ↔ a.shift.waveArchive = 0 ∨
        ∀ e ∈ c.banks.live, ∀ n ∈ e.settings.waveArchives, ¬ b.shift.Loses n := by
  have hshift := shift_merge a b
  have hbanks : ((a.merge b).merge c).banks = (a.merge (b.merge c)).banks ↔
      ∀ e ∈ c.banks.live, (a.shift + b.shift).ofBank e = a.shift.ofBank (b.shift.ofBank e) := by
    rw [← hshift]
    exact Slots.append_mapLive_eq_iff
  have hmoved : (∀ e ∈ c.banks.live,
        (a.shift + b.shift).ofBank e = a.shift.ofBank (b.shift.ofBank e)) ↔
      a.shift.waveArchive = 0 ∨
        ∀ e ∈ c.banks.live, ∀ n ∈ e.settings.waveArchives, ¬ b.shift.Loses n := by
    simp only [Shift.ofBank_add_iff, or_iff_not_imp_left]
    exact ⟨fun h hmoves e he => h e he hmoves, fun h e he hmoves => h hmoves e he⟩
  rw [← hmoved, ← hbanks]
  constructor
  · intro h
    exact (congrArg Archive.banks h).trans rfl
  · intro h
    have hsequences : ((a.merge b).merge c).sequences = (a.merge (b.merge c)).sequences := by
      refine Slots.append_mapLive_eq_iff.2 ?_
      rw [hshift]
      exact fun e _ => Shift.ofSequence_add a.shift b.shift e
    have hwaveArchives : ((a.merge b).merge c).waveArchives
        = (a.merge (b.merge c)).waveArchives := by
      refine Slots.append_mapLive_eq_iff.2 ?_
      rw [hshift]
      exact fun e _ => Shift.ofFile_add a.shift b.shift e
    have hfiles : ((a.merge b).merge c).fileTableLength
        = (a.merge (b.merge c)).fileTableLength := by
      change (a.merge b).fileIdSpan + c.fileIdSpan = a.fileIdSpan + (b.merge c).fileIdSpan
      rw [fileIdSpan_merge, fileIdSpan_merge, Nat.add_assoc]
    refine (Archive.mk.injEq ..).mpr ⟨?_, ?_, needsSymbolCleanup_merge a b c, hfiles, hsequences,
      h, hwaveArchives, List.append_assoc ..⟩
    · change a.mergeCount + 1 + 1 = a.mergeCount + 2
      rw [UInt16.add_assoc]
      rfl
    · exact Bool.or_assoc ..

end Archive

end SoundArchive
