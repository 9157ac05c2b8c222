import SoundArchive.Archive.Basic
import SoundArchive.Proofs.Archive.Slots
import Mathlib.Data.List.Forall2

/-! # Numbering files and cleaning names leaves what the entries hold -/

namespace SoundArchive

/-- What an entry holds, whatever its name and its file id. -/
structure Content (σ ρ : Type) where
  archiveId : String
  body : Bytes
  settings : σ
  resource : Option ρ

variable {σ ρ : Type}

namespace Entry

def content (e : Entry σ ρ) : Content σ ρ :=
  { archiveId := e.archiveId, body := e.body, settings := e.settings, resource := e.resource }

theorem content_named (e : Entry σ ρ) (kind : EntryKind) : (e.named kind).content = e.content := by
  unfold named
  split <;> rfl

theorem fileId_named (e : Entry σ ρ) (kind : EntryKind) : (e.named kind).fileId = e.fileId := by
  unfold named
  split <;> rfl

end Entry

namespace Slots

def contents (slots : Slots (Entry σ ρ)) : Slots (Content σ ρ) := slots.mapLive (·.content)

theorem contents_numberFiles (n : Nat) (slots : Slots (Entry σ ρ)) :
    (Archive.numberFiles n slots).contents = slots.contents := by
  unfold Archive.numberFiles
  induction slots generalizing n with
  | nil => rfl
  | cons slot rest ih =>
    cases slot with
    | none => exact congrArg (List.cons none) (ih n)
    | some e => exact congrArg (List.cons (some e.content)) (ih (n + 1))

/-- Numbering again finds the numbers that are there. -/
theorem numberFiles_mapLive (f : Entry σ ρ → Entry σ ρ) (hf : ∀ e, (f e).fileId = e.fileId)
    (n : Nat) (slots : Slots (Entry σ ρ)) :
    Archive.numberFiles n ((Archive.numberFiles n slots).mapLive f)
      = (Archive.numberFiles n slots).mapLive f := by
  unfold Archive.numberFiles
  induction slots generalizing n with
  | nil => rfl
  | cons slot rest ih =>
    cases slot with
    | none => exact congrArg (List.cons none) (ih n)
    | some e =>
      have hhead : { f { e with fileId := n.toUInt16 } with fileId := n.toUInt16 }
          = f { e with fileId := n.toUInt16 } := by
        have hid := hf { e with fileId := n.toUInt16 }
        generalize f { e with fileId := n.toUInt16 } = e' at hid
        cases e'
        cases hid
        rfl
      exact congrArg₂ List.cons (congrArg some hhead) (ih (n + 1))

theorem contents_mapLive {f : Entry σ ρ → Entry σ ρ} (hf : ∀ e, (f e).content = e.content)
    (slots : Slots (Entry σ ρ)) : (slots.mapLive f).contents = slots.contents := by
  simp [contents, mapLive, Function.comp_def, hf]

theorem contents_named (kind : EntryKind) (slots : Slots (Entry σ ρ)) :
    (slots.mapLive (·.named kind)).contents = slots.contents :=
  contents_mapLive (Entry.content_named · kind) slots

theorem liveCount_of_contents {slots slots' : Slots (Entry σ ρ)}
    (h : slots'.contents = slots.contents) : slots'.liveCount = slots.liveCount := by
  rw [← liveCount_mapLive (·.content) slots', ← liveCount_mapLive (·.content) slots]
  exact congrArg liveCount h

theorem bodies_of_contents {slots slots' : Slots (Entry σ ρ)}
    (h : slots'.contents = slots.contents) :
    slots'.live.map (·.body) = slots.live.map (·.body) := by
  have hlive := congrArg (fun contents => (live contents).map Content.body) h
  simpa [contents, live_mapLive, Entry.content, Function.comp_def] using hlive

theorem liveCount_numberFiles (n : Nat) (slots : Slots (Entry σ ρ)) :
    liveCount (Archive.numberFiles n slots) = slots.liveCount :=
  liveCount_of_contents (contents_numberFiles n slots)

theorem content_of_contents {slots slots' : Slots (Entry σ ρ)}
    (h : slots'.contents = slots.contents) (n : Nat) :
    (slots'.entry? n).map (·.content) = (slots.entry? n).map (·.content) := by
  rw [← entry?_mapLive, ← entry?_mapLive]
  exact congrArg (fun s => entry? s n) h

theorem exists_of_contents {slots slots' : Slots (Entry σ ρ)} {n : Nat} {e' : Entry σ ρ}
    (h : slots'.contents = slots.contents) (he' : slots'.entry? n = some e') :
    ∃ e, slots.entry? n = some e ∧ e.content = e'.content := by
  have hcontent := content_of_contents h n
  rw [he', Option.map_some, eq_comm, Option.map_eq_some_iff] at hcontent
  exact hcontent

theorem length_of_contents {slots slots' : Slots (Entry σ ρ)}
    (h : slots'.contents = slots.contents) : slots'.length = slots.length := by
  have hlength := congrArg List.length h
  simpa [contents, mapLive] using hlength

theorem none_notMem_of_contents {slots slots' : Slots (Entry σ ρ)}
    (h : slots'.contents = slots.contents) (hslots : none ∉ slots) : none ∉ slots' := by
  have hmem (l : Slots (Entry σ ρ)) : none ∈ l.contents ↔ none ∈ l := by
    simp [contents, mapLive]
  rwa [← hmem, h, hmem]

/-- What entries differ in is what they hold. -/
theorem Differ.of_contents {κ : Type} {slots slots' : Slots (Entry σ ρ)}
    (h : slots'.contents = slots.contents) (key : Content σ ρ → κ)
    (hslots : Differ (fun e => key e.content) slots) : Differ (fun e => key e.content) slots' := by
  intro m n x' y' hx' hy' hkey
  obtain ⟨x, hx, hxx'⟩ := exists_of_contents h hx'
  obtain ⟨y, hy, hyy'⟩ := exists_of_contents h hy'
  refine hslots m n x y hx hy ?_
  simp only [hxx', hyy']
  exact hkey

theorem forall₂_of_contents {α : Type} {l : List α} {f : α → Content σ ρ}
    {slots : Slots (Entry σ ρ)} (h : slots.contents = l.map fun x => some (f x)) :
    List.Forall₂ (fun x slot => ∃ e : Entry σ ρ, slot = some e ∧ e.content = f x) l slots := by
  induction l generalizing slots with
  | nil =>
    obtain rfl := List.map_eq_nil_iff.1 h
    exact .nil
  | cons x rest ih =>
    obtain ⟨slot, slots, rfl, hslot, hslots⟩ := List.map_eq_cons_iff.1 h
    obtain ⟨e, rfl, he⟩ := Option.map_eq_some_iff.1 hslot
    exact .cons ⟨e, rfl, he⟩ (ih hslots)

end Slots

namespace Archive

variable {a b c : Archive}

/-- The archives hold the same, whatever the names and file ids of their entries. -/
structure SameContents (a b : Archive) : Prop where
  sequences : b.sequences.contents = a.sequences.contents
  banks : b.banks.contents = a.banks.contents
  waveArchives : b.waveArchives.contents = a.waveArchives.contents
  players : b.players = a.players

theorem sameContents_renumberFiles (a : Archive) : SameContents a a.renumberFiles :=
  ⟨Slots.contents_numberFiles _ _, Slots.contents_numberFiles _ _, Slots.contents_numberFiles _ _,
    rfl⟩

theorem sameContents_cleanUpSymbols (a : Archive) : SameContents a a.cleanUpSymbols :=
  ⟨Slots.contents_named _ _, Slots.contents_named _ _, Slots.contents_named _ _, rfl⟩

theorem renumberFiles_renumberFiles (a : Archive) :
    a.renumberFiles.renumberFiles = a.renumberFiles := by
  have hnumbers {σ ρ : Type} (n : Nat) (slots : Slots (Entry σ ρ)) :
      numberFiles n (numberFiles n slots) = numberFiles n slots := by
    simpa [Slots.mapLive] using Slots.numberFiles_mapLive id (fun _ => rfl) n slots
  simp [renumberFiles, fileCount, Slots.liveCount_numberFiles, hnumbers]

theorem renumberFiles_cleanUpSymbols (a : Archive) :
    a.renumberFiles.cleanUpSymbols.renumberFiles = a.renumberFiles.cleanUpSymbols := by
  simp [renumberFiles, cleanUpSymbols, fileCount, Slots.liveCount_numberFiles,
    Slots.liveCount_mapLive, Slots.numberFiles_mapLive _ (Entry.fileId_named · _)]

theorem SameContents.trans (h : SameContents a b) (h' : SameContents b c) : SameContents a c :=
  ⟨h'.sequences.trans h.sequences, h'.banks.trans h.banks,
    h'.waveArchives.trans h.waveArchives, h'.players.trans h.players⟩

theorem SameContents.symm (h : SameContents a b) : SameContents b a :=
  ⟨h.sequences.symm, h.banks.symm, h.waveArchives.symm, h.players.symm⟩

theorem SameContents.fileCount (h : SameContents a b) : b.fileCount = a.fileCount := by
  simp only [Archive.fileCount, Slots.liveCount_of_contents h.sequences,
    Slots.liveCount_of_contents h.banks, Slots.liveCount_of_contents h.waveArchives]

theorem SameContents.isSome_bank? (h : SameContents a b) (n : UInt16) :
    (b.bank? n).isSome = (a.bank? n).isSome := by
  have hcontent := congrArg Option.isSome (Slots.content_of_contents h.banks n.toNat)
  simpa [bank?] using hcontent

theorem SameContents.isSome_waveArchive? (h : SameContents a b) (w : UInt16) :
    (b.waveArchive? w).isSome = (a.waveArchive? w).isSome := by
  have hcontent := congrArg Option.isSome (Slots.content_of_contents h.waveArchives w.toNat)
  unfold waveArchive?
  split
  · rfl
  · simpa using hcontent

end Archive

end SoundArchive
