import SoundArchive.Proofs.Archive.Contents
import SoundArchive.Proofs.Archive.Decoded

/-! # Writing what was decoded, and reading it back -/

namespace SoundArchive

open Bytes

variable {σ ρ : Type} {archiveId : String} {policy : DecodePolicy} {category : Category ρ}
  {kind : EntryKind} {hasSymbols : Bool} {tableLength : Nat} {e : Entry σ ρ}
  {slots : Slots (Entry σ ρ)}

/-! ## Entries -/

namespace Entry

/-- The entry with the name that it is read back with. -/
def renamed (hasSymbols : Bool) (kind : EntryKind) (e : Entry σ ρ) : Entry σ ρ :=
  if hasSymbols then e.named kind
  else { e with name := kind.placeholder e.fileId, isPlaceholder := true }

theorem content_renamed (hasSymbols : Bool) (kind : EntryKind) (e : Entry σ ρ) :
    (e.renamed hasSymbols kind).content = e.content := by
  unfold renamed
  split
  · exact content_named e kind
  · rfl

theorem fileId_renamed (hasSymbols : Bool) (kind : EntryKind) (e : Entry σ ρ) :
    (e.renamed hasSymbols kind).fileId = e.fileId := by
  unfold renamed
  split
  · exact fileId_named e kind
  · rfl

theorem symbol_named (kind : EntryKind) (e : Entry σ ρ) :
    (e.named kind).symbol kind = e.symbol kind := by
  unfold named
  split
  · next hlacks =>
    have hnamed : lacksName { e with name := kind.placeholder e.fileId, isPlaceholder := false }
        = false := Symbols.isEmpty_placeholder kind e.fileId
    rw [symbol, symbol, if_pos hlacks, hnamed]
    rfl
  · rfl

theorem isNamed_renamed (h : e.isPlaceholder = false →
      hasSymbols = true ∧ e.name.isEmpty = false ∧ Symbols.Writable e.name) (id : UInt16) :
    ({ e with fileId := id }.renamed hasSymbols kind).IsNamed hasSymbols kind := by
  cases hasSymbols with
  | false => exact ⟨rfl, rfl⟩
  | true =>
    rw [renamed, if_pos rfl, named]
    split
    · exact ⟨rfl, Symbols.isEmpty_placeholder kind id, Symbols.writable_placeholder kind id⟩
    · next hown =>
      have hplaceholder : e.isPlaceholder = false := by simp_all [lacksName]
      exact ⟨hplaceholder, (h hplaceholder).2⟩

/-- `e'` holds what `e` does, and has its name if `e` has one of its own. -/
structure Kept (e e' : Entry σ ρ) : Prop where
  content : e'.content = e.content
  name : e.isPlaceholder = false → e'.name = e.name ∧ e'.isPlaceholder = false

theorem kept_renamed (h : e.isPlaceholder = false → hasSymbols = true ∧ e.name.isEmpty = false)
    (id : UInt16) : e.Kept ({ e with fileId := id }.renamed hasSymbols kind) := by
  refine ⟨content_renamed hasSymbols kind _, fun hplaceholder => ?_⟩
  obtain ⟨rfl, hname⟩ := h hplaceholder
  simp [renamed, named, lacksName, hplaceholder, hname]

theorem IsDecoded.isCanonical_renamed
    (h : e.IsDecoded archiveId policy hasSymbols tableLength category)
    (hfile : e.fileId.toNat < tableLength) (id : UInt16) :
    ({ e with fileId := id }.renamed hasSymbols category.kind).IsCanonical archiveId policy
      hasSymbols category := by
  have hcontent := content_renamed hasSymbols category.kind { e with fileId := id }
  refine ⟨(congrArg Content.archiveId hcontent).trans h.archiveId, ?_, isNamed_renamed h.named id⟩
  have hbody := congrArg Content.body hcontent
  have hresource := congrArg Content.resource hcontent
  have hparsed := h.parsed hfile
  simp only [content] at hbody hresource
  unfold IsParsed at hparsed ⊢
  rw [hbody, hresource]
  exact hparsed

end Entry

/-! ## Slots -/

namespace Slots

/-- What a numbering and a map do to every entry. -/
theorem forall₂_numberFiles {r : Entry σ ρ → Entry σ ρ → Prop} {f : Entry σ ρ → Entry σ ρ}
    (h : ∀ e ∈ slots.live, ∀ id, r e (f { e with fileId := id })) (n : Nat) :
    List.Forall₂ (Option.Rel r) slots ((Archive.numberFiles n slots).mapLive f) := by
  induction slots generalizing n with
  | nil => exact .nil
  | cons slot rest ih =>
    cases slot with
    | none => exact .cons .none (ih h n)
    | some e =>
      have hrest := ih (fun e' he' => h e' (List.mem_cons_of_mem e he')) (n + 1)
      exact .cons (.some (h e List.mem_cons_self n.toUInt16)) hrest

theorem exists_of_numberFiles {f : Entry σ ρ → Entry σ ρ} {n : Nat} {e' : Entry σ ρ}
    (he' : e' ∈ ((Archive.numberFiles n slots).mapLive f).live) :
    ∃ e ∈ slots.live, ∃ id, e' = f { e with fileId := id } := by
  let r (e e' : Entry σ ρ) : Prop := e ∈ slots.live ∧ ∃ id, e' = f { e with fileId := id }
  have hall : List.Forall₂ (Option.Rel r) slots ((Archive.numberFiles n slots).mapLive f) :=
    forall₂_numberFiles (fun e he id => ⟨he, id, rfl⟩) n
  have hmem : some e' ∈ (Archive.numberFiles n slots).mapLive f := by simpa [live] using he'
  obtain ⟨_, -, hrel⟩ := exists_of_forall₂ hall hmem
  cases hrel with
  | some hrel => exact ⟨_, hrel⟩

end Slots

namespace Archive

variable {a b : Archive} {data : Bytes} {files : Files}

/-! ## The archive that is read back -/

/-- The archive that is read back when `a` is written. -/
def reread (a : Archive) : Archive :=
  let a := a.renumberFiles
  { a with
    needsSymbolCleanup := false
    sequences := a.sequences.mapLive (·.renamed a.hasSymbols .sequence)
    banks := a.banks.mapLive (·.renamed a.hasSymbols .bank)
    waveArchives := a.waveArchives.mapLive (·.renamed a.hasSymbols .waveArchive) }

theorem renumberFiles_reread (a : Archive) : a.reread.renumberFiles = a.reread := by
  simp [renumberFiles, reread, fileCount, Slots.liveCount_numberFiles, Slots.liveCount_mapLive,
    Slots.numberFiles_mapLive _ (Entry.fileId_renamed _ _ ·)]

theorem sameContents_reread (a : Archive) : SameContents a a.reread :=
  (sameContents_renumberFiles a).trans
    ⟨Slots.contents_mapLive (Entry.content_renamed _ _) _,
      Slots.contents_mapLive (Entry.content_renamed _ _) _,
      Slots.contents_mapLive (Entry.content_renamed _ _) _, rfl⟩

theorem SameContents.bodies (h : SameContents a b) : b.bodies = a.bodies := by
  simp only [Archive.bodies, Slots.bodies_of_contents h.sequences,
    Slots.bodies_of_contents h.banks, Slots.bodies_of_contents h.waveArchives]

theorem recordsOf_renamed (slots : Slots (Entry σ ρ)) :
    recordsOf (slots.mapLive (·.renamed hasSymbols kind)) = recordsOf slots := by
  have hsettings (e : Entry σ ρ) : (e.renamed hasSymbols kind).settings = e.settings :=
    congrArg Content.settings (Entry.content_renamed hasSymbols kind e)
  simp [recordsOf, Slots.mapLive, Function.comp_def, Entry.fileId_renamed, hsettings]

theorem symbolsOf_renamed (slots : Slots (Entry σ ρ)) :
    symbolsOf kind (slots.mapLive (·.renamed true kind)) = symbolsOf kind slots := by
  simp [symbolsOf, Slots.mapLive, Function.comp_def, Entry.renamed, Entry.symbol_named]

theorem encode_reread (a : Archive) : a.reread.encode = a.encode := by
  have hindex : a.reread.index = a.renumberFiles.index := by
    simp only [index, reread, recordsOf_renamed]
  have hbodies : a.reread.bodies = a.renumberFiles.bodies :=
    (sameContents_reread a).bodies.trans (sameContents_renumberFiles a).bodies.symm
  have hsymbols : (if a.hasSymbols then a.reread.symbols.encode else #[])
      = if a.hasSymbols then a.renumberFiles.symbols.encode else #[] := by
    by_cases hhas : a.hasSymbols = true
    · have hhas' : a.renumberFiles.hasSymbols = true := hhas
      simp only [symbols, reread, hhas', symbolsOf_renamed]
    · rw [if_neg hhas, if_neg hhas]
  have hreread : a.reread.mergeCount = a.mergeCount ∧ a.reread.hasSymbols = a.hasSymbols :=
    ⟨rfl, rfl⟩
  have hnumbered : a.renumberFiles.mergeCount = a.mergeCount ∧
      a.renumberFiles.hasSymbols = a.hasSymbols := ⟨rfl, rfl⟩
  simp only [encode, renumberFiles_reread, hindex, hbodies, hreread, hnumbered, hsymbols]

/-! ## What is kept -/

/-- `b` has the slots and holes of `a`, and its entries hold the same. File ids, the length of the
file table, and placeholders may have changed. -/
structure Kept (a b : Archive) : Prop where
  mergeCount : b.mergeCount = a.mergeCount
  hasSymbols : b.hasSymbols = a.hasSymbols
  needsSymbolCleanup : b.needsSymbolCleanup = a.needsSymbolCleanup
  sequences : List.Forall₂ (Option.Rel Entry.Kept) a.sequences b.sequences
  banks : List.Forall₂ (Option.Rel Entry.Kept) a.banks b.banks
  waveArchives : List.Forall₂ (Option.Rel Entry.Kept) a.waveArchives b.waveArchives
  players : b.players = a.players

theorem IsDecoded.kept_reread (h : a.IsDecoded archiveId policy) : a.Kept a.reread := by
  have hkept {σ ρ : Type} {category : Category ρ} {e : Entry σ ρ} (kind : EntryKind)
      (he : e.IsDecoded archiveId policy a.hasSymbols a.fileTableLength category) (id : UInt16) :
      e.Kept ({ e with fileId := id }.renamed a.hasSymbols kind) :=
    Entry.kept_renamed (fun hplaceholder => (he.named hplaceholder).imp_right And.left) id
  exact
    { mergeCount := rfl
      hasSymbols := rfl
      needsSymbolCleanup := h.clean.symm
      sequences := Slots.forall₂_numberFiles (fun e he => hkept .sequence (h.sequences e he)) _
      banks := Slots.forall₂_numberFiles (fun e he => hkept .bank (h.banks e he)) _
      waveArchives :=
        Slots.forall₂_numberFiles (fun e he => hkept .waveArchive (h.waveArchives e he)) _
      players := rfl }

/-! ## Missing files -/

/-- The file of every entry is in the file table. -/
def HasFiles (a : Archive) : Prop := ∀ id ∈ a.fileIds, id.toNat < a.fileTableLength

instance (a : Archive) : Decidable a.HasFiles :=
  List.decidableBAll (fun id : UInt16 => id.toNat < a.fileTableLength) a.fileIds

theorem hasFiles_iff : a.HasFiles ↔
    (∀ e ∈ a.sequences.live, e.fileId.toNat < a.fileTableLength) ∧
      (∀ e ∈ a.banks.live, e.fileId.toNat < a.fileTableLength) ∧
      ∀ e ∈ a.waveArchives.live, e.fileId.toNat < a.fileTableLength := by
  simp [HasFiles, fileIds, or_imp, forall_and]

theorem forall_mem_bodies {p : Bytes → Prop} : (∀ body ∈ a.bodies, p body) ↔
    (∀ e ∈ a.sequences.live, p e.body) ∧ (∀ e ∈ a.banks.live, p e.body) ∧
      ∀ e ∈ a.waveArchives.live, p e.body := by
  simp [bodies, or_imp, forall_and]

/-- Only a lenient reader misses a file, and it leaves an empty body for it. -/
theorem IsDecoded.hasFiles_or (h : a.IsDecoded archiveId policy) :
    a.HasFiles ∨ policy = .bestEffort ∧ #[] ∈ a.bodies := by
  rw [or_iff_not_imp_right]
  intro hpresent
  have hfile {σ ρ : Type} {category : Category ρ} {e : Entry σ ρ}
      (he : e.IsDecoded archiveId policy a.hasSymbols a.fileTableLength category)
      (hbody : e.body ∈ a.bodies) : e.fileId.toNat < a.fileTableLength := by
    by_contra hlt
    obtain ⟨hbest, hempty⟩ := he.missing (Nat.le_of_not_lt hlt)
    exact hpresent ⟨hbest, hempty ▸ hbody⟩
  obtain ⟨hsequences, hbanks, hwaveArchives⟩ := forall_mem_bodies.1 fun body hbody => hbody
  exact hasFiles_iff.2 ⟨fun e he => hfile (h.sequences e he) (hsequences e he),
    fun e he => hfile (h.banks e he) (hbanks e he),
    fun e he => hfile (h.waveArchives e he) (hwaveArchives e he)⟩

theorem IsDecoded.isCanonical_reread (h : a.IsDecoded archiveId policy) (hfiles : a.HasFiles) :
    a.reread.IsCanonical archiveId policy := by
  obtain ⟨hsequences, hbanks, hwaveArchives⟩ := hasFiles_iff.1 hfiles
  refine ⟨renumberFiles_reread a, rfl, ?_, ?_, ?_⟩
  · intro e' he'
    obtain ⟨e, he, id, rfl⟩ := Slots.exists_of_numberFiles he'
    exact (h.sequences e he).isCanonical_renamed (hsequences e he) id
  · intro e' he'
    obtain ⟨e, he, id, rfl⟩ := Slots.exists_of_numberFiles he'
    exact (h.banks e he).isCanonical_renamed (hbanks e he) id
  · intro e' he'
    obtain ⟨e, he, id, rfl⟩ := Slots.exists_of_numberFiles he'
    exact (h.waveArchives e he).isCanonical_renamed (hwaveArchives e he) id

theorem IsDecoded.storable_reread (h : a.IsDecoded archiveId policy)
    (hhas : a.reread.hasSymbols = true) : a.reread.symbols.Storable := by
  have hnamed {σ ρ : Type} {category : Category ρ} {slots : Slots (Entry σ ρ)}
      (kind : EntryKind) (n : Nat) (hslots : ∀ e ∈ slots.live,
        e.IsDecoded archiveId policy a.hasSymbols a.fileTableLength category) :
      ∀ e ∈ ((numberFiles n slots).mapLive (·.renamed a.hasSymbols kind)).live,
        e.IsNamed true kind := by
    intro e' he'
    obtain ⟨e, he, id, rfl⟩ := Slots.exists_of_numberFiles he'
    exact hhas ▸ Entry.isNamed_renamed (hslots e he).named id
  exact symbols_storable (hnamed .sequence _ h.sequences) (hnamed .bank _ h.banks)
    (hnamed .waveArchive _ h.waveArchives)

theorem laidOut_reread (hsize : a.encode.size < 2 ^ 32) : LaidOut a.encode a.reread := by
  rw [← encode_reread] at hsize ⊢
  exact laidOut_encode (renumberFiles_reread a) hsize

theorem IsDecoded.reread_ne_nil (h : a.IsDecoded archiveId policy) : a.reread.sequences ≠ [] := by
  have hlength := Slots.length_of_contents (sameContents_reread a).sequences
  rw [ne_eq, ← List.length_eq_zero_iff, hlength, List.length_eq_zero_iff]
  exact h.nonempty

theorem IsDecoded.decode_encode (h : a.IsDecoded archiveId policy) (hfiles : a.HasFiles)
    (hcount : a.fileCount < 65536) (hsize : a.encode.size < 2 ^ 32) :
    decode a.encode archiveId policy = .ok a.reread :=
  (laidOut_reread hsize).decode_of_isCanonical (h.isCanonical_reread hfiles) h.reread_ne_nil
    ((sameContents_reread a).fileCount ▸ hcount)

/-! ## Empty bodies -/

theorem ne_empty_of_decodeSlots {names : Slots String} {slots' : Slots (Entry σ ρ)}
    (htruncated : category.decode #[] = .error .truncated)
    (hfiled : ∀ e ∈ slots.live, Filed files e)
    (h : decodeSlots files category names (recordsOf slots) = .ok slots') :
    ∀ e ∈ slots.live, e.body ≠ #[] := by
  intro e he hempty
  obtain ⟨i, hi⟩ := Slots.mem_live.1 he
  obtain ⟨record, hrecord, hrange⟩ := hfiled e he
  have hslot : (recordsOf slots).zipIdx[i]?
      = some (some { fileId := e.fileId, settings := e.settings }, i) := by
    simp [recordsOf, Slots.mapLive, Slots.entry?_eq_some.1 hi]
  obtain ⟨_, -, hentry⟩ := getElem?_of_mapM h hslot
  obtain ⟨_, hentry, -⟩ := map_eq_ok.1 hentry
  obtain ⟨_, hbody, -⟩ := bind_eq_ok.1 hentry
  rw [hempty] at hrange
  -- The file is there, so its empty body is read, and even a lenient reader wants a header in it.
  simp only [decodeBody, hrecord, hrange] at hbody
  obtain ⟨_, hresource, -⟩ := bind_eq_ok.1 hbody
  simp [decodeResource, htruncated, ResourceError.isMissingResource] at hresource

/-- What can be read back has no empty bodies. -/
theorem IsDecoded.ne_empty_of_decode_encode (h : a.IsDecoded archiveId policy)
    (hcount : a.fileCount < 65536) (hsize : a.encode.size < 2 ^ 32)
    (hdecode : decode a.encode archiveId policy = .ok b) : ∀ body ∈ a.bodies, body ≠ #[] := by
  -- What is laid out is the archive with its files numbered anew, where none is missing.
  have hlaid := laidOut_reread hsize
  obtain ⟨hsequences, hbanks, hwaveArchives⟩ := hlaid.filed (renumberFiles_reread a)
    ((sameContents_reread a).fileCount ▸ hcount)
    { data := a.encode, records := a.reread.fileRecords.toArray, archiveId, policy } rfl rfl
  rw [hlaid.decode_eq h.storable_reread h.reread_ne_nil] at hdecode
  obtain ⟨_, hreadSequences, hdecode⟩ := bind_eq_ok.1 hdecode
  obtain ⟨_, hreadBanks, hdecode⟩ := bind_eq_ok.1 hdecode
  obtain ⟨_, hreadWaveArchives, -⟩ := bind_eq_ok.1 hdecode
  rw [← (sameContents_reread a).bodies]
  exact forall_mem_bodies.2 ⟨ne_empty_of_decodeSlots rfl hsequences hreadSequences,
    ne_empty_of_decodeSlots rfl hbanks hreadBanks,
    ne_empty_of_decodeSlots rfl hwaveArchives hreadWaveArchives⟩

/-! ## The whole -/

/-- What was decoded is written and read back, unless a lenient reader missed a file of it. The
empty body that this leaves is written as a file, in which then nothing can be read. -/
theorem decode_encode_iff_hasFiles (hdecode : decode data archiveId policy = .ok a)
    (hcount : a.fileCount < 65536) (hsize : a.encode.size < 2 ^ 32) :
    (∃ b, decode a.encode archiveId policy = .ok b ∧ a.Kept b) ↔
      (policy = .bestEffort → a.HasFiles) := by
  have ha := isDecoded_of_decode hdecode
  constructor
  · rintro ⟨b, hb, -⟩ -
    have hbodies := ha.ne_empty_of_decode_encode hcount hsize hb
    exact ha.hasFiles_or.resolve_right fun hmissing => hbodies #[] hmissing.2 rfl
  · intro hfiles
    have hall : a.HasFiles := ha.hasFiles_or.elim id fun hmissing => hfiles hmissing.1
    exact ⟨a.reread, ha.decode_encode hall hcount hsize, ha.kept_reread⟩

/-- An archive of songs without names, each with its file id and body. -/
def ofSongs (tableLength : Nat) (songs : List (UInt16 × Bytes)) : Archive :=
  let song (fileId : UInt16) (body : Bytes) : SequenceEntry :=
    { name := EntryKind.sequence.placeholder fileId, isPlaceholder := true, archiveId := "x"
      fileId, body, resource := (Sequence.decode body).toOption
      settings := { bank := 0, volume := 127, channelPriority := 64, playerPriority := 32
                    player := 0, reserved := 0, reservedTail := (0, 0) } }
  { mergeCount := 0, hasSymbols := false, needsSymbolCleanup := false
    fileTableLength := tableLength, sequences := songs.map fun (fileId, body) => song fileId body
    banks := [], waveArchives := [], players := [] }

/-- Two songs share a file that cannot be read, and another file has no song. -/
theorem decode_encode_of_sharedFile :
    let songs (fileId : UInt16) := ofSongs 2 [(0, zeros 16), (fileId, zeros 16)]
    let data := (songs 1).encode.set! 180 0
    (decode data "x" .bestEffort = .ok (songs 0) ∧ (songs 0).fileCount < 65536 ∧
        (songs 0).encode.size < 2 ^ 32) ∧
      ∃ b, decode (songs 0).encode "x" .bestEffort = .ok b ∧ (songs 0).Kept b := by
  intro songs data
  have hdecode : decode data "x" .bestEffort = .ok (songs 0) := by decide +kernel
  have hcount : (songs 0).fileCount < 65536 := by decide
  have hsize : (songs 0).encode.size < 2 ^ 32 := by
    rw [← encode_reread, size_encode (renumberFiles_reread _)]
    decide +kernel
  have hfiles : (songs 0).HasFiles := by decide
  exact ⟨⟨hdecode, hcount, hsize⟩,
    (decode_encode_iff_hasFiles hdecode hcount hsize).2 fun _ => hfiles⟩

/-- The file of a song is missing. -/
theorem decode_encode_loses_missing_file :
    ¬ ∀ (data : Bytes) (archiveId : String) (policy : DecodePolicy) (a : Archive),
      decode data archiveId policy = .ok a → a.fileCount < 65536 → a.encode.size < 2 ^ 32 →
      ∃ b, decode a.encode archiveId policy = .ok b ∧ a.Kept b := by
  intro hclaim
  let data := (ofSongs 1 [(0, Sequence.encode ⟨#[0xFF]⟩)]).encode.set! 164 0x40
  let a := ofSongs 1 [(0x40, #[])]
  have hdecode : decode data "x" .bestEffort = .ok a := by decide +kernel
  have hcount : a.fileCount < 65536 := by decide
  have hsize : a.encode.size < 2 ^ 32 := by
    rw [← encode_reread, size_encode (renumberFiles_reread _)]
    decide +kernel
  obtain ⟨b, hb, -⟩ := hclaim data "x" .bestEffort a hdecode hcount hsize
  have hempty : #[] ∈ a.bodies := by simp [a, ofSongs, bodies, Slots.live]
  exact (isDecoded_of_decode hdecode).ne_empty_of_decode_encode hcount hsize hb #[] hempty rfl

end Archive

end SoundArchive
