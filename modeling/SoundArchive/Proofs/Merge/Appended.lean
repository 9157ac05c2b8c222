import SoundArchive.Archive.Merge
import SoundArchive.Proofs.Archive.Slots
import Mathlib.Data.List.Forall2

/-! # Appended entries keep what they are and what they refer to -/

namespace SoundArchive

/-! ## Entries whatever their numbers -/

/-- What an entry is, whatever the numbers of its file and of what it refers to. -/
structure Identity (ρ : Type) where
  name : String
  isPlaceholder : Bool
  archiveId : String
  body : Bytes
  resource : Option ρ

def Entry.identity {σ ρ : Type} (e : Entry σ ρ) : Identity ρ :=
  { name := e.name, isPlaceholder := e.isPlaceholder, archiveId := e.archiveId, body := e.body
    resource := e.resource }

namespace Archive

/-- The sequence is as it was in `b` but for its numbers, and these lead in `m` to what they led
to in `b`. -/
structure KeepsSequence (b m : Archive) (e e' : SequenceEntry) : Prop where
  unchanged : e' = { e with
    fileId := e'.fileId
    settings := { e.settings with bank := e'.settings.bank, player := e'.settings.player } }
  bank : (m.bank? e'.settings.bank).map (·.identity) = (b.bank? e.settings.bank).map (·.identity)
  player : m.player? e'.settings.player = b.player? e.settings.player

structure KeepsBank (b m : Archive) (e e' : BankEntry) : Prop where
  unchanged : e' = { e with
    fileId := e'.fileId
    settings := { e.settings with waveArchives := e'.settings.waveArchives } }
  waveArchive : ∀ i : Fin 4, (m.waveArchive? e'.settings.waveArchives[i]).map (·.identity)
    = (b.waveArchive? e.settings.waveArchives[i]).map (·.identity)

def KeepsWaveArchive (e e' : WaveArchiveEntry) : Prop := e' = { e with fileId := e'.fileId }

/-! ## File ids -/

def slotCount (a : Archive) : EntryKind → Nat
  | .sequence => a.sequences.length
  | .bank => a.banks.length
  | .waveArchive => a.waveArchives.length

/-- The file id of the entry in slot `n` of a category. -/
def fileIdAt? (a : Archive) : EntryKind → Nat → Option UInt16
  | .sequence, n => (a.sequences.entry? n).map (·.fileId)
  | .bank, n => (a.banks.entry? n).map (·.fileId)
  | .waveArchive, n => (a.waveArchives.entry? n).map (·.fileId)

/-- Entries of `m`, in which the slots of `a` come first, share a file id only if they both came
from `a` or both from `b` and shared it there. -/
def FilesApart (a b m : Archive) : Prop :=
  ∀ (k l : EntryKind) (i j : Nat) (id : UInt16),
    m.fileIdAt? k i = some id → m.fileIdAt? l j = some id →
      (i < a.slotCount k ∧ j < a.slotCount l ∧ a.fileIdAt? k i = some id ∧
        a.fileIdAt? l j = some id) ∨
      (a.slotCount k ≤ i ∧ a.slotCount l ≤ j ∧
        ∃ old, b.fileIdAt? k (i - a.slotCount k) = some old ∧
          b.fileIdAt? l (j - a.slotCount l) = some old)

theorem le_foldl_max {α : Type} (f : α → Nat) (l : List α) (start : Nat) :
    start ≤ l.foldl (fun top x => max top (f x)) start ∧
      ∀ x ∈ l, f x ≤ l.foldl (fun top x => max top (f x)) start := by
  induction l generalizing start with
  | nil => exact ⟨Nat.le_refl _, by simp⟩
  | cons y rest ih =>
    obtain ⟨hstart, hrest⟩ := ih (max start (f y))
    refine ⟨Nat.le_trans (Nat.le_max_left ..) hstart, ?_⟩
    intro x hx
    rcases List.mem_cons.1 hx with rfl | hx
    · exact Nat.le_trans (Nat.le_max_right ..) hstart
    · exact hrest x hx

theorem lt_fileIdSpan_of_mem {a : Archive} {id : UInt16} (h : id ∈ a.fileIds) :
    id.toNat < a.fileIdSpan :=
  (le_foldl_max (fun id : UInt16 => id.toNat + 1) a.fileIds a.fileTableLength).2 id h

theorem fileId_mem_live {σ ρ : Type} {slots : Slots (Entry σ ρ)} {n : Nat} {id : UInt16}
    (h : (slots.entry? n).map (·.fileId) = some id) : id ∈ slots.live.map (·.fileId) := by
  obtain ⟨e, he, rfl⟩ := Option.map_eq_some_iff.1 h
  exact List.mem_map_of_mem (Slots.mem_live.2 ⟨n, he⟩)

theorem lt_fileIdSpan {a : Archive} {k : EntryKind} {n : Nat} {id : UInt16}
    (h : a.fileIdAt? k n = some id) : id.toNat < a.fileIdSpan := by
  refine lt_fileIdSpan_of_mem ?_
  unfold fileIds
  cases k with
  | sequence => exact List.mem_append_left _ (List.mem_append_left _ (fileId_mem_live h))
  | bank => exact List.mem_append_left _ (List.mem_append_right _ (fileId_mem_live h))
  | waveArchive => exact List.mem_append_right _ (fileId_mem_live h)

theorem fileId_append {σ ρ : Type} {slots rest : Slots (Entry σ ρ)} {shift : UInt16}
    {f : Entry σ ρ → Entry σ ρ} (hf : ∀ e, (f e).fileId = e.fileId + shift) (n : Nat) :
    (Slots.entry? (slots ++ rest.mapLive f) n).map (·.fileId)
      = if n < slots.length then (slots.entry? n).map (·.fileId)
        else ((rest.entry? (n - slots.length)).map (·.fileId)).map (· + shift) := by
  split
  · next h => rw [Slots.entry?_append_left h]
  · next h =>
    rw [Slots.entry?_append_right (Nat.le_of_not_lt h), Slots.entry?_mapLive, Option.map_map,
      Option.map_map]
    exact congrArg (Option.map · _) (funext hf)

/-- The ids of `b` have moved behind those of `a`. -/
theorem fileIdAt?_merge (a b : Archive) (k : EntryKind) (n : Nat) :
    (a.merge b).fileIdAt? k n
      = if n < a.slotCount k then a.fileIdAt? k n
        else (b.fileIdAt? k (n - a.slotCount k)).map (· + a.shift.file) := by
  cases k <;> exact fileId_append (fun _ => rfl) n

/-! ## Numbers that moved -/

theorem toNat_add_toUInt16 {n : UInt16} {k : Nat} (h : n.toNat + k < 65536) :
    (n + k.toUInt16).toNat = n.toNat + k := by
  rw [UInt16.toNat_add, Nat.toUInt16_eq, UInt16.toNat_ofNat', Nat.add_mod_mod,
    Nat.mod_eq_of_lt h]

theorem toNat_ofPlayer {shift : Shift} {n : UInt8} (h : n.toNat + shift.player ≤ 0xFF) :
    (shift.ofPlayer n).toNat = n.toNat + shift.player := by
  rw [Shift.ofPlayer, Nat.min_eq_left h, Nat.toUInt8_eq, UInt8.toNat_ofNat',
    Nat.mod_eq_of_lt (Nat.lt_succ_of_le h)]

/-- An id of `b` that has moved is beyond all ids of `a`. -/
theorem fileIdSpan_le_moved {a b : Archive} {k : EntryKind} {n : Nat} {old : UInt16}
    (h : a.fileIdSpan + b.fileIdSpan ≤ 65536) (hold : b.fileIdAt? k n = some old) :
    a.fileIdSpan ≤ (old + a.shift.file).toNat := by
  have hlt := lt_fileIdSpan hold
  rw [shift, toNat_add_toUInt16 (by omega)]
  omega

theorem filesApart_merge {a b : Archive} (h : a.fileIdSpan + b.fileIdSpan ≤ 65536) :
    FilesApart a b (a.merge b) := by
  intro k l i j id hi hj
  rw [fileIdAt?_merge] at hi hj
  split at hi <;> split at hj
  · next hik hjl => exact .inl ⟨hik, hjl, hi, hj⟩
  · next hik hjl =>
    -- Only ids of one archive can be the same: what has moved is beyond the span of `a`.
    obtain ⟨old, hold, rfl⟩ := Option.map_eq_some_iff.1 hj
    exact absurd (lt_fileIdSpan hi) (Nat.not_lt.2 (fileIdSpan_le_moved h hold))
  · next hik hjl =>
    obtain ⟨old, hold, rfl⟩ := Option.map_eq_some_iff.1 hi
    exact absurd (lt_fileIdSpan hj) (Nat.not_lt.2 (fileIdSpan_le_moved h hold))
  · next hik hjl =>
    obtain ⟨old, hold, rfl⟩ := Option.map_eq_some_iff.1 hi
    obtain ⟨old', hold', hsame⟩ := Option.map_eq_some_iff.1 hj
    obtain rfl : old' = old := (UInt16.add_left_inj _).1 hsame
    exact .inr ⟨Nat.le_of_not_lt hik, Nat.le_of_not_lt hjl, old', hold, hold'⟩

/-! ## References -/

/-- No number of an entry of `b` leaves its range when it moves behind the slots of `a`. -/
structure Fits (a b : Archive) : Prop where
  bank : ∀ e ∈ b.sequences.live, e.settings.bank.toNat + a.banks.length < 0xFFFF
  player : ∀ e ∈ b.sequences.live, e.settings.player.toNat + a.players.length ≤ 0xFF
  waveArchive : ∀ e ∈ b.banks.live, ∀ i : Fin 4,
    e.settings.waveArchives[i] ≠ BankSettings.noWaveArchive →
      e.settings.waveArchives[i].toNat + a.waveArchives.length < 0xFFFF
  files : a.fileIdSpan + b.fileIdSpan ≤ 65536

theorem bank?_merge_moved {a : Archive} (b : Archive) {n : UInt16}
    (h : n.toNat + a.banks.length < 0xFFFF) :
    (a.merge b).bank? (n + a.shift.bank) = (b.bank? n).map a.shift.ofBank := by
  have hn : (n + a.shift.bank).toNat = n.toNat + a.banks.length :=
    toNat_add_toUInt16 (by omega)
  rw [bank?, merge, hn, Slots.entry?_append_right (Nat.le_add_left ..), Nat.add_sub_cancel,
    Slots.entry?_mapLive]
  rfl

theorem player?_merge_moved {a : Archive} (b : Archive) {n : UInt8}
    (h : n.toNat + a.players.length ≤ 0xFF) :
    (a.merge b).player? (a.shift.ofPlayer n) = b.player? n := by
  have hn : (a.shift.ofPlayer n).toNat = n.toNat + a.players.length := toNat_ofPlayer h
  rw [player?, merge, hn, Slots.entry?_append_right (Nat.le_add_left ..), Nat.add_sub_cancel]
  rfl

theorem waveArchive?_merge_moved {a : Archive} (b : Archive) {n : UInt16}
    (h : n ≠ BankSettings.noWaveArchive → n.toNat + a.waveArchives.length < 0xFFFF) :
    (a.merge b).waveArchive? (a.shift.ofWaveArchive n)
      = (b.waveArchive? n).map a.shift.ofFile := by
  unfold Shift.ofWaveArchive
  split
  · next hnone => simp [waveArchive?, hnone]
  · next hsome =>
    have hfits := h hsome
    have hn : (n + a.shift.waveArchive).toNat = n.toNat + a.waveArchives.length :=
      toNat_add_toUInt16 (by omega)
    have hmoved : n + a.shift.waveArchive ≠ BankSettings.noWaveArchive := by
      intro hnone
      have hnat := congrArg UInt16.toNat hnone
      rw [hn, show BankSettings.noWaveArchive.toNat = 0xFFFF from rfl] at hnat
      omega
    rw [waveArchive?, waveArchive?, if_neg hsome, if_neg hmoved, merge, hn,
      Slots.entry?_append_right (Nat.le_add_left ..), Nat.add_sub_cancel, Slots.entry?_mapLive]

theorem forall₂_mapLive {α : Type} {R : α → α → Prop} {f : α → α} {slots : Slots α}
    (h : ∀ x ∈ slots.live, R x (f x)) :
    List.Forall₂ (Option.Rel R) slots (slots.mapLive f) := by
  induction slots with
  | nil => exact .nil
  | cons slot rest ih =>
    cases slot with
    | none => exact .cons .none (ih h)
    | some x =>
      obtain ⟨hx, hrest⟩ := List.forall_mem_cons.1 h
      exact .cons (.some hx) (ih hrest)

theorem Fits.keepsSequence {a b : Archive} (h : Fits a b) {e : SequenceEntry}
    (he : e ∈ b.sequences.live) : KeepsSequence b (a.merge b) e (a.shift.ofSequence e) where
  unchanged := rfl
  bank := by
    rw [show (a.shift.ofSequence e).settings.bank = e.settings.bank + a.shift.bank from rfl,
      bank?_merge_moved b (h.bank e he), Option.map_map]
    rfl
  player := player?_merge_moved b (h.player e he)

theorem Fits.keepsBank {a b : Archive} (h : Fits a b) {e : BankEntry} (he : e ∈ b.banks.live) :
    KeepsBank b (a.merge b) e (a.shift.ofBank e) where
  unchanged := rfl
  waveArchive i := by
    have hmoved : (a.shift.ofBank e).settings.waveArchives[i]
        = a.shift.ofWaveArchive e.settings.waveArchives[i] := Vector.getElem_map ..
    rw [hmoved, waveArchive?_merge_moved b (h.waveArchive e he i), Option.map_map]
    rfl

/-! ## The merged archive -/

/-- `m` holds the slots of `a` as they are and those of `b` behind them. There holes are holes,
and every entry is what it was and refers to what it did. Its file ids are its own. -/
structure Joins (a b m : Archive) : Prop where
  sequences : ∃ appended, m.sequences = a.sequences ++ appended ∧
    List.Forall₂ (Option.Rel (KeepsSequence b m)) b.sequences appended
  banks : ∃ appended, m.banks = a.banks ++ appended ∧
    List.Forall₂ (Option.Rel (KeepsBank b m)) b.banks appended
  waveArchives : ∃ appended, m.waveArchives = a.waveArchives ++ appended ∧
    List.Forall₂ (Option.Rel KeepsWaveArchive) b.waveArchives appended
  players : m.players = a.players ++ b.players
  files : FilesApart a b m

theorem merge_joins {a b : Archive} (h : Fits a b) : Joins a b (a.merge b) where
  sequences := ⟨_, rfl, forall₂_mapLive fun _ he => h.keepsSequence he⟩
  banks := ⟨_, rfl, forall₂_mapLive fun _ he => h.keepsBank he⟩
  waveArchives := ⟨_, rfl, forall₂_mapLive fun _ _ => rfl⟩
  players := rfl
  files := filesApart_merge h.files

/-- Behind a song and its bank come a hole and a song with a bank that refers to one wave archive
that is there and one that is not. -/
theorem merge_joins_of_songs :
    let song (bank : UInt16) (fileId : UInt16) : SequenceEntry :=
      { name := "S", isPlaceholder := false, archiveId := "x", fileId, body := #[]
        settings :=
          { bank, volume := 127, channelPriority := 64, playerPriority := 32, player := 0
            reserved := 0, reservedTail := (0, 0) }
        resource := none }
    let bank (waveArchives : Vector UInt16 4) (fileId : UInt16) : BankEntry :=
      { name := "B", isPlaceholder := false, archiveId := "x", fileId, body := #[]
        settings := { waveArchives, reserved := 0 }, resource := none }
    let waves : WaveArchiveEntry :=
      { name := "W", isPlaceholder := false, archiveId := "x", fileId := 1, body := #[]
        settings := { reserved := 0 }, resource := none }
    let player : PlayerSettings :=
      { maxSequences := 1, padding := 0, channelMask := 0xFFFF, heapSize := 0 }
    let a : Archive :=
      { mergeCount := 0, hasSymbols := true, needsSymbolCleanup := false, fileTableLength := 2
        sequences := [some (song 0 0)], banks := [some (bank (.replicate 4 0xFFFF) 1)]
        waveArchives := [], players := [some player] }
    let b : Archive :=
      { mergeCount := 0, hasSymbols := true, needsSymbolCleanup := false, fileTableLength := 0
        sequences := [none, some (song 0 0)], banks := [some (bank #v[0, 7, 0xFFFF, 0xFFFF] 9)]
        waveArchives := [some waves], players := [some player] }
    Fits a b ∧ Joins a b (a.merge b) := by
  intro song bank waves player a b
  have h : Fits a b := ⟨by decide, by decide, by decide, by decide⟩
  exact ⟨h, merge_joins h⟩

end Archive

end SoundArchive
