import SoundArchive.Proofs.Archive.Rereading

/-!
# What a lenient reader forgives

A lenient reader goes on where the file of an entry is missing, or where a body does not begin
with the right header. Everything else is the same for both readers, so the first error that
only a strict reader sees is one of these two.
-/

namespace SoundArchive

open Bytes

variable {α β γ σ ρ : Type}

/-- A lenient reader leaves the entry unread and goes on. -/
def DecodeError.IsForgiven : DecodeError → Prop
  | missingFile .. => True
  | resource _ _ (.header _) => True
  | _ => False

/-- The lenient reader gives the answer of the strict one, unless that is an error which it
forgives. It fails with no such error. -/
structure Forgives (strict lenient : Except DecodeError α) : Prop where
  same : (∀ e, strict = .error e → ¬ e.IsForgiven) → lenient = strict
  forgiving : ∀ e, lenient = .error e → ¬ e.IsForgiven

/-- Both readers take this step, and it fails with nothing that one of them forgives. -/
abbrev Agreed (step : Except DecodeError α) : Prop := Forgives step step

namespace Forgives

variable {strict lenient : Except DecodeError α}

theorem ok (a : α) : Agreed (.ok a) := ⟨fun _ => rfl, fun _ h => by cases h⟩

theorem error {e : DecodeError} (h : ¬ e.IsForgiven) :
    Agreed (.error e : Except DecodeError α) := by
  refine ⟨fun _ => rfl, fun e' he' => ?_⟩
  cases he'
  exact h

theorem bind {f g : α → Except DecodeError β} (h : Forgives strict lenient)
    (hnext : ∀ a, Forgives (f a) (g a)) : Forgives (strict >>= f) (lenient >>= g) := by
  constructor
  · intro hstrict
    cases strict with
    | error e =>
      have herror (e' : DecodeError) (he' : Except.error e = .error e') : ¬ e'.IsForgiven :=
        hstrict e' (congrArg (· >>= f) he')
      rw [h.same herror]
      rfl
    | ok a =>
      obtain rfl : lenient = .ok a := h.same fun e he => by cases he
      exact (hnext a).same hstrict
  · intro e he
    cases lenient with
    | error e' =>
      cases he
      exact h.forgiving e rfl
    | ok a => exact (hnext a).forgiving e he

theorem map (f : α → β) (h : Forgives strict lenient) :
    Forgives (f <$> strict) (f <$> lenient) := by
  rw [map_eq_pure_bind, map_eq_pure_bind]
  exact h.bind fun a => ok (f a)

theorem mapM {f g : α → Except DecodeError β} (h : ∀ a, Forgives (f a) (g a)) (as : List α) :
    Forgives (as.mapM f) (as.mapM g) := by
  induction as with
  | nil => exact ok []
  | cons a as ih =>
    rw [List.mapM_cons, List.mapM_cons]
    exact (h a).bind fun b => ih.bind fun bs => ok (b :: bs)

theorem required (field : Option α) : Agreed (DecodeError.required field) := by
  cases field with
  | none => exact error fun h => h
  | some a => exact ok a

theorem eq_iff (h : Forgives strict lenient) :
    lenient = strict ↔ ∀ e, strict = .error e → ¬ e.IsForgiven :=
  ⟨fun heq e he => h.forgiving e (heq.trans he), h.same⟩

end Forgives

/-! ## What both readers do -/

theorem RecordList.agreed_list {read : Nat → Except DecodeError β}
    {next : β → Except DecodeError γ} (bytes : Bytes) (n : Nat)
    (hread : ∀ start, Agreed (read start)) (hnext : ∀ slots, Agreed (next slots)) :
    Agreed (start? bytes n >>= fun start => read start >>= next) := by
  unfold start?
  exact ((Forgives.required _).bind fun _ => .ok _).bind fun start => (hread start).bind hnext

theorem Place.agreed_readSection (p : Place) (data : Bytes) (tag : Tag) (minimum : Nat) :
    Agreed (p.readSection data tag minimum) := by
  unfold readSection
  split
  · exact .error fun h => h
  · simp only
    split
    · exact .error fun h => h
    · refine (Forgives.required _).bind fun found => ?_
      split
      · exact .error fun h => h
      · exact .ok _

namespace Symbols

theorem agreed_readSlot (bytes : Bytes) (offset : UInt32) : Agreed (readSlot bytes offset) := by
  unfold readSlot readName
  split
  · exact .ok none
  · split
    · exact .map _ (.error fun h => h)
    · exact .map _ (.ok _)

theorem agreed_readSlots (bytes : Bytes) (start : Nat) : Agreed (readSlots bytes start) := by
  unfold readSlots
  split
  · exact .ok []
  · refine (Forgives.required _).bind fun count => ?_
    refine Forgives.bind
      (.mapM (fun i => (Forgives.required _).bind (agreed_readSlot bytes)) _) fun names => ?_
    split
    · exact .error fun h => h
    · exact .ok names

theorem agreed_decode (bytes : Bytes) : Agreed (decode bytes) := by
  have hlist := agreed_readSlots bytes
  unfold decode
  exact RecordList.agreed_list bytes 0 hlist fun _ =>
    RecordList.agreed_list bytes 2 hlist fun _ =>
    RecordList.agreed_list bytes 3 hlist fun _ => .ok _

end Symbols

namespace Index

theorem agreed_readSlots [Storable α] (bytes : Bytes) (start : Nat) :
    Agreed (readSlots (α := α) bytes start) := by
  unfold readSlots
  split
  · exact .ok []
  · refine (Forgives.required _).bind (.mapM fun offset => ?_)
    unfold readSlot
    split
    · exact .ok none
    · exact .map _ (.required _)

theorem agreed_decode (bytes : Bytes) : Agreed (decode bytes) := by
  unfold decode
  exact RecordList.agreed_list bytes 0 (agreed_readSlots bytes) fun _ =>
    RecordList.agreed_list bytes 2 (agreed_readSlots bytes) fun _ =>
    RecordList.agreed_list bytes 3 (agreed_readSlots bytes) fun _ =>
    RecordList.agreed_list bytes 4 (agreed_readSlots bytes) fun _ => .ok _

end Index

theorem FileTable.agreed_decode (bytes : Bytes) : Agreed (decode bytes) := by
  unfold decode
  exact (Forgives.required _).bind fun _ => .required _

namespace Archive

variable {category : Category ρ}

theorem agreed_verifyHeader (data : Bytes) : Agreed (verifyHeader data) := by
  unfold verifyHeader
  refine (Forgives.required _).bind fun header => ?_
  split
  · exact .ok ()
  · exact .error fun h => h

theorem agreed_decodeSymbols (data : Bytes) (place : Place) :
    Agreed (decodeSymbols data place) := by
  unfold decodeSymbols
  split
  · exact .ok none
  · exact (place.agreed_readSection _ _ _).bind fun bytes =>
      .map _ (Symbols.agreed_decode bytes)

/-! ## What only a lenient reader does -/

/-- The same files for the other reader. -/
def Files.withPolicy (files : Files) (policy : DecodePolicy) : Files := { files with policy }

theorem forgives_decodeResource (files : Files) (category : Category ρ) (slot : Nat)
    (body : Bytes) :
    Forgives (decodeResource (files.withPolicy .failHard) category slot body)
      (decodeResource (files.withPolicy .bestEffort) category slot body) := by
  unfold decodeResource
  cases category.decode body with
  | ok resource => exact .ok _
  | error cause =>
    -- Of the causes only a wrong header parts the two readers.
    cases cause with
    | header cause =>
      refine ⟨fun hstrict => absurd trivial (hstrict _ rfl), fun e he => ?_⟩
      cases he
    | dataBlock | waveFormat | truncated | tooLarge => exact .error fun h => h

theorem forgives_decodeBody (files : Files) (category : Category ρ) (slot : Nat)
    (fileId : UInt16) :
    Forgives (decodeBody (files.withPolicy .failHard) category slot fileId)
      (decodeBody (files.withPolicy .bestEffort) category slot fileId) := by
  have hrecords (policy : DecodePolicy) : (files.withPolicy policy).records = files.records := rfl
  have hdata (policy : DecodePolicy) : (files.withPolicy policy).data = files.data := rfl
  unfold decodeBody
  -- Both look the file up in one table, so they part here only where it is missing.
  simp only [hrecords, hdata]
  split
  · refine ⟨fun hstrict => absurd trivial (hstrict _ rfl), fun e he => ?_⟩
    cases he
  · split
    · exact .error fun h => h
    · exact (forgives_decodeResource files category slot _).bind fun _ => .ok _

theorem forgives_decodeSlots (files : Files) (category : Category ρ) (names : Slots String)
    (records : Slots (FiledRecord σ)) :
    Forgives (decodeSlots (files.withPolicy .failHard) category names records)
      (decodeSlots (files.withPolicy .bestEffort) category names records) := by
  unfold decodeSlots
  refine .mapM (fun (record, slot) => ?_) _
  cases record with
  | none => exact .ok none
  | some record =>
    refine .map _ ?_
    unfold decodeEntry
    exact (forgives_decodeBody files category slot record.fileId).bind fun _ => .ok _

theorem forgives_decode (data : Bytes) (archiveId : String) :
    Forgives (decode data archiveId .failHard) (decode data archiveId .bestEffort) := by
  unfold decode
  refine (agreed_verifyHeader data).bind fun _ => ?_
  refine (Forgives.required _).bind fun symbolsPlace => ?_
  refine (Forgives.required _).bind fun indexPlace => ?_
  refine (Forgives.required _).bind fun tablePlace => ?_
  refine (Forgives.required _).bind fun mergeCount => ?_
  refine (agreed_decodeSymbols data symbolsPlace).bind fun symbols => ?_
  refine (indexPlace.agreed_readSection _ _ _).bind fun bytes => ?_
  refine (Index.agreed_decode bytes).bind fun index => ?_
  refine (tablePlace.agreed_readSection _ _ _).bind fun bytes => ?_
  refine (FileTable.agreed_decode bytes).bind fun records => ?_
  split
  · exact .error fun h => h
  · let files : Files := { data, records := records.toArray, archiveId, policy := .failHard }
    exact (forgives_decodeSlots files .sequences _ index.sequences).bind fun _ =>
      (forgives_decodeSlots files .banks _ index.banks).bind fun _ =>
      (forgives_decodeSlots files .waveArchives _ index.waveArchives).bind fun _ => .ok _

/-! ## What an entry holds then -/

theorem decodeBody_eq_ok {files : Files} {slot : Nat} {fileId : UInt16} {body : Bytes}
    {resource : Option ρ} (h : decodeBody files category slot fileId = .ok (body, resource)) :
    (files.records[fileId.toNat]? = none ∧ body = #[] ∧ resource = none) ∨
      ∃ record, files.records[fileId.toNat]? = some record ∧
        files.data.range? record.start record.stop = some body ∧
        decodeResource files category slot body = .ok resource := by
  unfold decodeBody at h
  split at h
  · next hmissing =>
    split at h
    · cases h
      exact .inl ⟨hmissing, rfl, rfl⟩
    · cases h
  · next record hrecord =>
    split at h
    · cases h
    · next body' hbody =>
      obtain ⟨resource', hresource, hpair⟩ := bind_eq_ok.1 h
      cases hpair
      exact .inr ⟨record, hrecord, hbody, hresource⟩

end Archive

namespace Entry

variable {policy : DecodePolicy} {category : Category ρ} {e : Entry σ ρ}

theorem IsParsed.decode_eq {resource : ρ} (h : e.IsParsed policy category)
    (hresource : e.resource = some resource) : category.decode e.body = .ok resource := by
  unfold IsParsed at h
  split at h
  · next read hread => rw [hread, ← Option.some.inj (h.symm.trans hresource)]
  · rw [h.2.2] at hresource
    cases hresource

theorem IsParsed.resource_eq_none_iff (h : e.IsParsed policy category) :
    e.resource = none ↔ ∃ cause, category.decode e.body = .error (.header cause) := by
  unfold IsParsed at h
  split at h
  · next hread => simp [h, hread]
  · next cause hread =>
    obtain ⟨-, hforgiven, hnone⟩ := h
    refine iff_of_true hnone ?_
    cases cause with
    | header cause => exact ⟨cause, hread⟩
    | dataBlock | waveFormat | truncated | tooLarge => cases hforgiven

end Entry

/-- The entry has the body that the table of files leads to. What can be read there was read, and
it was left unread only without a file or with a header that is not the right one. -/
structure Entry.IsReadFrom (data : Bytes) (records : List FileRecord) (category : Category ρ)
    (e : Entry σ ρ) : Prop where
  body : e.body = (records[e.fileId.toNat]?.bind fun r => data.range? r.start r.stop).getD #[]
  parsed : ∀ resource, e.resource = some resource → category.decode e.body = .ok resource
  unparsed : e.resource = none ↔ records.length ≤ e.fileId.toNat ∨
    ∃ cause, category.decode e.body = .error (.header cause)

namespace Archive

variable {category : Category ρ} {e : Entry σ ρ} {data : Bytes} {archiveId : String} {a : Archive}
  {policy : DecodePolicy}

theorem isReadFrom_of_decodeBody {files : Files} {slot : Nat}
    (h : decodeBody files category slot e.fileId = .ok (e.body, e.resource)) :
    e.IsReadFrom files.data files.records.toList category := by
  obtain ⟨hmissing, hbody, hresource⟩ | ⟨record, hrecord, hbody, hresource⟩ := decodeBody_eq_ok h
  · refine ⟨?_, fun resource hsome => ?_, iff_of_true hresource (.inl ?_)⟩
    · rw [Array.getElem?_toList, hmissing, hbody]
      rfl
    · rw [hresource] at hsome
      cases hsome
    · simpa using hmissing
  · have hparsed := isParsed_of_decodeResource hresource
    have hlt : e.fileId.toNat < files.records.size := (Array.getElem?_eq_some_iff.1 hrecord).1
    refine ⟨?_, fun resource => hparsed.decode_eq, ?_⟩
    · rw [Array.getElem?_toList, hrecord, Option.bind_some, hbody]
      rfl
    · rw [Array.length_toList, or_iff_right (Nat.not_le.2 hlt)]
      exact hparsed.resource_eq_none_iff

theorem isReadFrom_of_decodeSlots {files : Files} {names : Slots String}
    {records : Slots (FiledRecord σ)} {slots : Slots (Entry σ ρ)}
    (h : decodeSlots files category names records = .ok slots) :
    ∀ e ∈ slots.live, e.IsReadFrom files.data files.records.toList category := by
  intro e he
  have hmem : some e ∈ slots := by simpa [Slots.live] using he
  obtain ⟨⟨record, slot⟩, -, hslot⟩ := exists_of_forall₂ (forall₂_of_mapM h) hmem
  cases record with
  | none => cases hslot
  | some record =>
    obtain ⟨e', hentry, hsome⟩ := map_eq_ok.1 hslot
    cases hsome
    obtain ⟨⟨body, resource⟩, hbody, hentry⟩ := bind_eq_ok.1 hentry
    cases hentry
    exact isReadFrom_of_decodeBody hbody

/-- The table of files, as the header of the archive leads to it. -/
def decodeTable (data : Bytes) : Except DecodeError (List FileRecord) := do
  let place ← DecodeError.required (Place.read? data 32)
  FileTable.decode (← place.readSection data FileTable.tag FileTable.headerLength)

/-- Every entry holds what its file does. -/
structure IsReadFrom (data : Bytes) (records : List FileRecord) (a : Archive) : Prop where
  sequences : ∀ e ∈ a.sequences.live, e.IsReadFrom data records .sequences
  banks : ∀ e ∈ a.banks.live, e.IsReadFrom data records .banks
  waveArchives : ∀ e ∈ a.waveArchives.live, e.IsReadFrom data records .waveArchives

theorem isReadFrom_of_decode (h : decode data archiveId policy = .ok a) :
    ∃ records, decodeTable data = .ok records ∧ a.IsReadFrom data records := by
  unfold decode at h
  obtain ⟨_, -, h⟩ := bind_eq_ok.1 h
  obtain ⟨_, -, h⟩ := bind_eq_ok.1 h
  obtain ⟨_, -, h⟩ := bind_eq_ok.1 h
  obtain ⟨place, hplace, h⟩ := bind_eq_ok.1 h
  obtain ⟨_, -, h⟩ := bind_eq_ok.1 h
  obtain ⟨_, -, h⟩ := bind_eq_ok.1 h
  obtain ⟨_, -, h⟩ := bind_eq_ok.1 h
  obtain ⟨_, -, h⟩ := bind_eq_ok.1 h
  obtain ⟨bytes, hbytes, h⟩ := bind_eq_ok.1 h
  obtain ⟨records, hrecords, h⟩ := bind_eq_ok.1 h
  split at h
  · cases h
  · obtain ⟨sequences, hsequences, h⟩ := bind_eq_ok.1 h
    obtain ⟨banks, hbanks, h⟩ := bind_eq_ok.1 h
    obtain ⟨waveArchives, hwaveArchives, h⟩ := bind_eq_ok.1 h
    cases h
    refine ⟨records, ?_, isReadFrom_of_decodeSlots hsequences, isReadFrom_of_decodeSlots hbanks,
      isReadFrom_of_decodeSlots hwaveArchives⟩
    rw [decodeTable, hplace, ok_bind, hbytes, ok_bind, hrecords]

/-- A lenient reader gives the answer of a strict one unless that is an error which it forgives.
An archive that it reads has in every entry what its file holds, and of the entries that it left
unread the file is missing, or the body has the wrong header. -/
theorem decode_bestEffort (data : Bytes) (archiveId : String) :
    (decode data archiveId .bestEffort = decode data archiveId .failHard ↔
        ∀ e, decode data archiveId .failHard = .error e → ¬ e.IsForgiven) ∧
      ∀ a, decode data archiveId .bestEffort = .ok a →
        ∃ records, decodeTable data = .ok records ∧ a.IsReadFrom data records :=
  ⟨(forgives_decode data archiveId).eq_iff, fun _ h => isReadFrom_of_decode h⟩

/-- Of two songs the first has the wrong header, and the file of the second is missing. Where the
first is cut off, no reader comes to the missing file. -/
theorem decode_bestEffort_of_unread_songs :
    let data := (ofSongs 2 [(0, zeros 16), (1, #[])]).encode.set! 180 7
    let a := ofSongs 2 [(0, zeros 16), (7, #[])]
    let cut := (ofSongs 2 [(0, zeros 8), (1, #[])]).encode.set! 180 7
    let e : DecodeError := .resource .sequence 0 .truncated
    (decode data "x" .bestEffort = .ok a ∧ decode cut "x" .failHard = .error e ∧
        ¬ e.IsForgiven) ∧
      (∃ records, decodeTable data = .ok records ∧ a.IsReadFrom data records) ∧
      decode cut "x" .bestEffort = .error e := by
  intro data a cut e
  have hdecode : decode data "x" .bestEffort = .ok a := by decide +kernel
  have hcut : decode cut "x" .failHard = .error e := by decide +kernel
  have he : ¬ e.IsForgiven := fun h => h
  have hsame : decode cut "x" .bestEffort = decode cut "x" .failHard := by
    refine (decode_bestEffort cut "x").1.2 fun e' he' => ?_
    rw [hcut] at he'
    cases he'
    exact he
  exact ⟨⟨hdecode, hcut, he⟩, (decode_bestEffort data "x").2 a hdecode, hsame.trans hcut⟩

end Archive

end SoundArchive
