import SoundArchive.Proofs.Archive.RoundTrip
import SoundArchive.Proofs.Archive.Slots

/-! # What every decoded archive is like -/

namespace SoundArchive

variable {σ ρ : Type} {archiveId : String} {policy : DecodePolicy} {category : Category ρ}
  {hasSymbols : Bool} {e : Entry σ ρ} {slots : Slots (Entry σ ρ)}

/-- An entry that was decoded with a file table of this length. One whose file is in the table
has what is found in its body, and a lenient reader leaves the others empty. -/
structure Entry.IsDecoded (archiveId : String) (policy : DecodePolicy) (hasSymbols : Bool)
    (tableLength : Nat) (category : Category ρ) (e : Entry σ ρ) : Prop where
  archiveId : e.archiveId = archiveId
  parsed : e.fileId.toNat < tableLength → e.IsParsed policy category
  missing : tableLength ≤ e.fileId.toNat → policy = .bestEffort ∧ e.body = #[]
  named : e.isPlaceholder = false →
    hasSymbols = true ∧ e.name.isEmpty = false ∧ Symbols.Writable e.name

structure Archive.IsDecoded (archiveId : String) (policy : DecodePolicy) (a : Archive) :
    Prop where
  clean : a.needsSymbolCleanup = false
  nonempty : a.sequences ≠ []
  sequences : ∀ e ∈ a.sequences.live,
    e.IsDecoded archiveId policy a.hasSymbols a.fileTableLength .sequences
  banks : ∀ e ∈ a.banks.live,
    e.IsDecoded archiveId policy a.hasSymbols a.fileTableLength .banks
  waveArchives : ∀ e ∈ a.waveArchives.live,
    e.IsDecoded archiveId policy a.hasSymbols a.fileTableLength .waveArchives

namespace Archive

variable {a : Archive} {files : Files} {data : Bytes} {slot : Nat}

/-! ## Entries -/

theorem isParsed_of_decodeResource
    (h : decodeResource files category slot e.body = .ok e.resource) :
    e.IsParsed files.policy category := by
  cases hdecode : category.decode e.body with
  | ok resource =>
    simp only [decodeResource, hdecode] at h
    simp only [Entry.IsParsed, hdecode]
    exact (Except.ok.inj h).symm
  | error cause =>
    simp only [decodeResource, hdecode] at h
    simp only [Entry.IsParsed, hdecode]
    split at h
    · next hlenient => exact ⟨hlenient.1, hlenient.2, (Except.ok.inj h).symm⟩
    · cases h

theorem isParsed_of_decodeBody
    (h : decodeBody files category slot e.fileId = .ok (e.body, e.resource))
    (hlt : e.fileId.toNat < files.records.size) : e.IsParsed files.policy category := by
  rw [decodeBody, Array.getElem?_eq_getElem hlt] at h
  simp only at h
  split at h
  · cases h
  · obtain ⟨resource, hresource, hpair⟩ := bind_eq_ok.1 h
    obtain ⟨rfl, rfl⟩ := Prod.mk.inj (Except.ok.inj hpair)
    exact isParsed_of_decodeResource hresource

theorem missing_of_decodeBody
    (h : decodeBody files category slot e.fileId = .ok (e.body, e.resource))
    (hle : files.records.size ≤ e.fileId.toNat) :
    files.policy = .bestEffort ∧ e.body = #[] := by
  rw [decodeBody, Array.getElem?_eq_none hle] at h
  simp only at h
  split at h
  · next hbest => exact ⟨hbest, (Prod.mk.inj (Except.ok.inj h)).1.symm⟩
  · cases h

theorem isDecoded_of_decodeEntry {name : Option String} {record : FiledRecord σ}
    (h : decodeEntry files category slot name record = .ok e)
    (hname : ∀ n ∈ name, hasSymbols = true ∧ Symbols.Writable n) :
    e.IsDecoded files.archiveId files.policy hasSymbols files.records.size category := by
  obtain ⟨⟨body, resource⟩, hbody, h⟩ := bind_eq_ok.1 h
  cases h
  refine ⟨rfl, isParsed_of_decodeBody hbody, missing_of_decodeBody hbody, fun hplaceholder => ?_⟩
  cases hstored : name.filter (fun n => !n.isEmpty) with
  | none => simp [hstored] at hplaceholder
  | some n =>
    obtain ⟨hn, hne⟩ := Option.filter_eq_some_iff.1 hstored
    obtain ⟨hhas, hwritable⟩ := hname n hn
    simpa [hstored] using ⟨hhas, by simpa using hne, hwritable⟩

theorem isDecoded_of_decodeSlots {names : Slots String} {records : Slots (FiledRecord σ)}
    (h : decodeSlots files category names records = .ok slots)
    (hnames : ∀ n ∈ names.live, hasSymbols = true ∧ Symbols.Writable n) :
    ∀ e ∈ slots.live,
      e.IsDecoded files.archiveId files.policy hasSymbols files.records.size category := by
  intro e he
  have hmem : some e ∈ slots := by simpa [Slots.live] using he
  obtain ⟨⟨record, slot⟩, -, hslot⟩ := exists_of_forall₂ (forall₂_of_mapM h) hmem
  cases record with
  | none => cases hslot
  | some record =>
    obtain ⟨e', hentry, hsome⟩ := map_eq_ok.1 hslot
    cases hsome
    refine isDecoded_of_decodeEntry hentry fun n hn => hnames n ?_
    rw [List.getElem?_toArray] at hn
    exact Slots.mem_live.2 ⟨slot, hn⟩

theorem length_of_decodeSlots {names : Slots String} {records : Slots (FiledRecord σ)}
    (h : decodeSlots files category names records = .ok slots) :
    slots.length = records.length := by
  rw [← (forall₂_of_mapM h).length_eq, List.length_zipIdx]

/-! ## Archives -/

theorem isDecoded_of_decodeSections {mergeCount : UInt16} {symbols : Option Symbols}
    {index : Index} (h : decodeSections files mergeCount symbols index = .ok a)
    (hsymbols : ∀ s ∈ symbols, s.Storable) (hsequences : index.sequences ≠ []) :
    a.IsDecoded files.archiveId files.policy := by
  unfold decodeSections at h
  obtain ⟨sequences, hreadSequences, h⟩ := bind_eq_ok.1 h
  obtain ⟨banks, hreadBanks, h⟩ := bind_eq_ok.1 h
  obtain ⟨waveArchives, hreadWaveArchives, h⟩ := bind_eq_ok.1 h
  cases h
  -- An entry has a name of its own only if the archive has names, and these were read.
  have hnames (list : Symbols → Slots String)
      (hlist : ∀ s, list s ∈ [s.sequences, s.banks, s.waveArchives])
      (hnone : list { sequences := [], banks := [], waveArchives := [] } = []) :
      ∀ n ∈ (list (symbols.getD { sequences := [], banks := [], waveArchives := [] })).live,
        symbols.isSome = true ∧ Symbols.Writable n := by
    cases symbols with
    | none => simp [hnone, Slots.live]
    | some s => exact fun n hn => ⟨rfl, hsymbols s rfl _ (hlist s) n hn⟩
  refine ⟨rfl, ?_, ?_, ?_, ?_⟩
  · rw [ne_eq, ← List.length_eq_zero_iff, length_of_decodeSlots hreadSequences,
      List.length_eq_zero_iff]
    exact hsequences
  · exact isDecoded_of_decodeSlots hreadSequences (hnames (·.sequences) (by simp) rfl)
  · exact isDecoded_of_decodeSlots hreadBanks (hnames (·.banks) (by simp) rfl)
  · exact isDecoded_of_decodeSlots hreadWaveArchives (hnames (·.waveArchives) (by simp) rfl)

theorem storable_of_decodeSymbols {place : Place} {symbols : Option Symbols}
    (h : decodeSymbols data place = .ok symbols) : ∀ s ∈ symbols, s.Storable := by
  intro s hs
  cases hs
  unfold decodeSymbols at h
  split at h
  · cases h
  · obtain ⟨bytes, -, h⟩ := bind_eq_ok.1 h
    obtain ⟨s', hread, hsome⟩ := map_eq_ok.1 h
    cases hsome
    exact Symbols.storable_of_decode hread

theorem isDecoded_of_decode (h : decode data archiveId policy = .ok a) :
    a.IsDecoded archiveId policy := by
  unfold decode at h
  obtain ⟨_, -, h⟩ := bind_eq_ok.1 h
  obtain ⟨_, -, h⟩ := bind_eq_ok.1 h
  obtain ⟨_, -, h⟩ := bind_eq_ok.1 h
  obtain ⟨_, -, h⟩ := bind_eq_ok.1 h
  obtain ⟨mergeCount, -, h⟩ := bind_eq_ok.1 h
  obtain ⟨symbols, hsymbols, h⟩ := bind_eq_ok.1 h
  obtain ⟨_, -, h⟩ := bind_eq_ok.1 h
  obtain ⟨index, -, h⟩ := bind_eq_ok.1 h
  obtain ⟨_, -, h⟩ := bind_eq_ok.1 h
  obtain ⟨records, -, h⟩ := bind_eq_ok.1 h
  split at h
  · cases h
  · next hempty =>
    have hread : decodeSections { data, records := records.toArray, archiveId, policy }
        mergeCount symbols index = .ok a := by
      unfold decodeSections
      exact h
    have hsequences : index.sequences ≠ [] := by simpa using hempty
    exact isDecoded_of_decodeSections hread (storable_of_decodeSymbols hsymbols) hsequences

end Archive

end SoundArchive
