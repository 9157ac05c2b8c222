import SoundArchive.Archive.Embedded
import SoundArchive.Proofs.Archive.Layout
import SoundArchive.Proofs.Archive.Rereading

/-!
# Finding archives in an image

The bytes that every archive begins with cannot overlap themselves, so whatever stands in front
of an archive hides nothing of it. What its header says of its size is true, so the search goes
on right behind it, and sees nothing of what is inside.
-/

namespace SoundArchive

open Bytes

namespace Archive

variable {image data : Bytes} {imageId archiveId : String} {policy : DecodePolicy} {a : Archive}
  {p q stop found size : Nat}

/-! ## Signatures -/

theorem size_signature : signature.size = 8 := rfl

theorem signature_eq : signature = tag.toArray ++ ofU32 Header.standardMagic := rfl

theorem hasSignature_iff : hasSignature image p = true ↔ At image p signature := by
  rw [hasSignature, Bool.and_eq_true, beq_iff_eq, beq_iff_eq]
  constructor
  · rintro ⟨-, hpart⟩
    have hsize := congrArg Array.size hpart
    rw [Array.size_extract, size_signature] at hsize
    have hat := at_extract (Nat.le_add_right p 8) (show p + 8 ≤ image.size by omega)
    rwa [← size_signature, hpart] at hat
  · intro h
    exact ⟨h.getElem? (i := 0) (by decide), h.extract⟩

/-- The first byte of a signature is nowhere else in it. -/
theorem signature_ne_first : ∀ i < 7, signature[i + 1]? ≠ signature[0]? := by decide

/-- Signatures do not overlap. -/
theorem apart_of_signatures (h : At image p signature) (h' : At image q signature) (hlt : p < q) :
    p + signature.size ≤ q := by
  by_contra hover
  rw [size_signature] at hover
  obtain ⟨i, rfl⟩ := Nat.exists_eq_add_of_lt hlt
  have hfirst : image[p + (i + 1)]? = signature[0]? := h'.getElem? (i := 0) (by decide)
  rw [h.getElem? (by rw [size_signature]; omega)] at hfirst
  exact signature_ne_first i (by omega) hfirst

def LacksSignature (bytes : Bytes) : Prop := ∀ p, ¬ At bytes p signature

theorem LacksSignature.not_at (h : LacksSignature data) (hdata : At image p data) (hle : p ≤ q)
    (hfit : q + signature.size ≤ p + data.size) : ¬ At image q signature := by
  obtain ⟨i, rfl⟩ := Nat.exists_eq_add_of_le hle
  exact fun hq => h i (hdata.inside hq (by omega))

theorem lacksSignature_of_lt (h : data.size < signature.size) : LacksSignature data := by
  intro p hp
  have hbound := hp.bound
  omega

/-! ## What an encoded archive says of itself -/

theorem encode_renumberFiles (a : Archive) : a.renumberFiles.encode = a.encode := by
  rw [encode, renumberFiles_renumberFiles]
  rfl

theorem packed_renumberFiles (hsize : a.encode.size < 2 ^ 32) :
    Packed a.encode a.renumberFiles := by
  rw [← encode_renumberFiles] at hsize ⊢
  exact packed_encode (renumberFiles_renumberFiles a) hsize

theorem at_signature_encode (hsize : a.encode.size < 2 ^ 32) : At a.encode 0 signature := by
  rw [signature_eq]
  exact (packed_renumberFiles hsize).standardHeader.left.left.left

theorem declared?_of_at (h : At image p a.encode) (hsize : a.encode.size < 2 ^ 32) :
    declared? image p = some a.encode := by
  have hword := (h.trans (packed_renumberFiles hsize).at_fileSize).u32?
  rw [declared?, size_signature]
  exact Option.bind_eq_some_iff.2 ⟨_, hword, by rw [toNat_toUInt32 hsize]; exact h.range?⟩

/-! ## The id of an archive -/

section

variable {σ ρ : Type}

def withArchiveId (archiveId : String) (a : Archive) : Archive :=
  { a with
    sequences := a.sequences.mapLive ({ · with archiveId })
    banks := a.banks.mapLive ({ · with archiveId })
    waveArchives := a.waveArchives.mapLive ({ · with archiveId }) }

theorem decodeEntry_archiveId (files : Files) (category : Category ρ) (slot : Nat)
    (name : Option String) (record : FiledRecord σ) (archiveId : String) :
    decodeEntry { files with archiveId } category slot name record
      = ({ · with archiveId }) <$> decodeEntry files category slot name record := by
  have hbody : decodeBody { files with archiveId } category slot record.fileId
      = decodeBody files category slot record.fileId := rfl
  rw [decodeEntry, decodeEntry, hbody, map_bind]
  rfl

theorem decodeSlots_archiveId (files : Files) (category : Category ρ) (names : Slots String)
    (records : Slots (FiledRecord σ)) (archiveId : String) :
    decodeSlots { files with archiveId } category names records
      = (Slots.mapLive ({ · with archiveId })) <$> decodeSlots files category names records := by
  unfold decodeSlots Slots.mapLive
  rw [← mapM_map]
  refine congrArg (List.mapM · records.zipIdx) (funext fun (record, slot) => ?_)
  cases record with
  | none => rfl
  | some record => simp only [decodeEntry_archiveId, Functor.map_map, Option.map_some]

theorem decodeSections_archiveId (files : Files) (mergeCount : UInt16) (symbols : Option Symbols)
    (index : Index) (archiveId : String) :
    decodeSections { files with archiveId } mergeCount symbols index
      = withArchiveId archiveId <$> decodeSections files mergeCount symbols index := by
  simp only [decodeSections, decodeSlots_archiveId, map_bind, bind_map_left, map_pure]
  rfl

/-- The id has no say in whether there is an archive. -/
theorem decode_archiveId (data : Bytes) (id id' : String) (policy : DecodePolicy) :
    decode data id' policy = withArchiveId id' <$> decode data id policy := by
  unfold decode
  simp only [map_bind]
  refine bind_congr fun _ => bind_congr fun _ => bind_congr fun _ => bind_congr fun _ =>
    bind_congr fun mergeCount => bind_congr fun symbols => bind_congr fun _ =>
    bind_congr fun index => bind_congr fun _ => bind_congr fun records => ?_
  split
  · rfl
  · exact decodeSections_archiveId { data, records := records.toArray, archiveId := id, policy }
      mergeCount symbols index id'

end

/-! ## What is found at one place -/

theorem embeddedAt?_eq_some :
    embeddedAt? image imageId policy p found = some (a, size) ↔
      At image p signature ∧ ∃ data, declared? image p = some data ∧
        decode data (imageId ++ "#" ++ toString found) policy = .ok a ∧ data.size = size := by
  rw [← hasSignature_iff, embeddedAt?]
  generalize imageId ++ "#" ++ toString found = archiveId
  split
  · next hsignature =>
    cases hdeclared : declared? image p with
    | none => simp
    | some data =>
      cases hdecode : decode data archiveId policy with
      | error e => simp [hdecode]
      | ok b => simp [hdecode, hsignature]
  · next hsignature => simp [hsignature]

theorem embeddedAt?_of_not_at (h : ¬ At image p signature) :
    embeddedAt? image imageId policy p found = none := by
  rw [embeddedAt?, if_neg (mt hasSignature_iff.1 h)]

/-- Nothing is decoded of no bytes, so the search always goes on. -/
theorem pos_of_embeddedAt? (h : embeddedAt? image imageId policy p found = some (a, size)) :
    0 < size := by
  obtain ⟨-, data, -, hdecode, rfl⟩ := embeddedAt?_eq_some.1 h
  by_contra hnone
  have hempty : data = #[] := Array.eq_empty_of_size_eq_zero (by omega)
  rw [hempty] at hdecode
  cases hdecode

/-! ## The search -/

theorem embeddedFrom_end (h : image.size ≤ p) : embeddedFrom image imageId policy p found = [] := by
  rw [embeddedFrom, if_neg (by omega)]

theorem embeddedFrom_miss (hp : p < image.size)
    (h : embeddedAt? image imageId policy p found = none) :
    embeddedFrom image imageId policy p found
      = embeddedFrom image imageId policy (p + 1) found := by
  rw [embeddedFrom, if_pos hp, h]

theorem embeddedFrom_hit (h : embeddedAt? image imageId policy p found = some (a, size)) :
    embeddedFrom image imageId policy p found
      = a :: embeddedFrom image imageId policy (p + size) (found + 1) := by
  have hbound := (embeddedAt?_eq_some.1 h).1.bound
  rw [size_signature] at hbound
  have hpos := pos_of_embeddedAt? h
  rw [embeddedFrom, if_pos (by omega), h]
  simp only [Nat.max_eq_left hpos]

/-- The search passes over what has no signature. -/
theorem embeddedFrom_skip (hle : p ≤ stop) (hstop : stop ≤ image.size)
    (h : ∀ q, p ≤ q → q < stop → ¬ At image q signature) :
    embeddedFrom image imageId policy p found = embeddedFrom image imageId policy stop found := by
  obtain ⟨count, rfl⟩ := Nat.exists_eq_add_of_le hle
  induction count generalizing p with
  | zero => rfl
  | succ count ih =>
    have hnext : p + 1 + count = p + (count + 1) := by omega
    rw [embeddedFrom_miss (by omega) (embeddedAt?_of_not_at (h p (by omega) (by omega))),
      ih (p := p + 1) (by omega) (by omega) fun q hq hlt => h q (by omega) (by omega), hnext]

theorem embeddedFrom_eq_nil (h : ∀ q, p ≤ q → ¬ At image q signature) :
    embeddedFrom image imageId policy p found = [] := by
  rcases Nat.le_total p image.size with hle | hle
  · rw [embeddedFrom_skip hle (Nat.le_refl _) fun q hq _ => h q hq]
    exact embeddedFrom_end (Nat.le_refl _)
  · exact embeddedFrom_end hle

/-! ## The search as a loop -/

/-- Where the next signature is, from `p` on. -/
def nextSignature? (image : Bytes) (p : Nat) : Option Nat :=
  (List.range' p (image.size - p)).find? (hasSignature image)

theorem not_at_of_nextSignature?_eq_none (h : nextSignature? image p = none) (hle : p ≤ q) :
    ¬ At image q signature := by
  intro hq
  have hbound := hq.bound
  rw [size_signature] at hbound
  have hnone := List.find?_range'_eq_none.1 h q hle (by omega)
  simp [hasSignature_iff.2 hq] at hnone

theorem nextSignature?_eq_some (h : nextSignature? image p = some stop) :
    p ≤ stop ∧ At image stop signature ∧ ∀ q, p ≤ q → q < stop → ¬ At image q signature := by
  obtain ⟨hstop, hmem, hfirst⟩ := List.find?_range'_eq_some.1 h
  refine ⟨(List.mem_range'_1.1 hmem).1, hasSignature_iff.1 hstop, fun q hle hlt hq => ?_⟩
  have hnot := hfirst q hle hlt
  simp [hasSignature_iff.2 hq] at hnot

/-- How far the search has come, and what it has found. -/
structure Search where
  position : Nat
  found : List Archive

namespace Search

/-- The search goes to the next signature, and on behind the archive there or, if there is none,
behind the first byte. -/
def step (image : Bytes) (imageId : String) (policy : DecodePolicy) (s : Search) :
    Search ⊕ List Archive :=
  match nextSignature? image s.position with
  | none => .inr s.found
  | some start =>
    match embeddedAt? image imageId policy start s.found.length with
    | none => .inl ⟨start + 1, s.found⟩
    | some (archive, size) => .inl ⟨start + size, s.found ++ [archive]⟩

theorem ends_step (image : Bytes) (imageId : String) (policy : DecodePolicy) (p : Nat)
    (found : List Archive) :
    Ends (step image imageId policy) (.inl ⟨p, found⟩)
      (found ++ embeddedFrom image imageId policy p found.length) := by
  induction hleft : image.size - p using Nat.strong_induction_on generalizing p found with
  | h left ih =>
    apply Ends.step
    rw [step]
    cases hnext : nextSignature? image p with
    | none =>
      rw [embeddedFrom_eq_nil fun q => not_at_of_nextSignature?_eq_none hnext, List.append_nil]
      exact .answer found
    | some start =>
      obtain ⟨hle, hstart, hfirst⟩ := nextSignature?_eq_some hnext
      have hbound := hstart.bound
      rw [size_signature] at hbound
      rw [embeddedFrom_skip hle (by omega) hfirst]
      cases hhere : embeddedAt? image imageId policy start found.length with
      | none =>
        rw [embeddedFrom_miss (by omega) hhere]
        simp only [hhere]
        exact ih _ (by omega) (start + 1) found rfl
      | some hit =>
        obtain ⟨archive, size⟩ := hit
        have hpos := pos_of_embeddedAt? hhere
        have hrest := ih _ (by omega) (start + size) (found ++ [archive]) rfl
        rw [List.length_append, List.length_singleton, List.append_assoc] at hrest
        rw [embeddedFrom_hit hhere]
        simp only [hhere]
        exact hrest

end Search

/-! ## Archives in an image -/

/-- An archive in an image, and the bytes in front of it. -/
structure Piece where
  gap : Bytes
  data : Bytes

structure Piece.IsEmbeddable (policy : DecodePolicy) (piece : Piece) : Prop where
  gap : LacksSignature piece.gap
  encoded : ∃ a : Archive, a.encode = piece.data
  small : piece.data.size < 2 ^ 32
  decodes : ∃ archiveId a, decode piece.data archiveId policy = .ok a

theorem Piece.IsEmbeddable.embeddedAt? {piece : Piece} (h : piece.IsEmbeddable policy)
    (hdata : At image p piece.data) (imageId : String) (found : Nat) :
    At image p signature ∧ ∃ a,
      decode piece.data (imageId ++ "#" ++ toString found) policy = .ok a ∧
      embeddedAt? image imageId policy p found = some (a, piece.data.size) := by
  obtain ⟨a, ha⟩ := h.encoded
  obtain ⟨id, b, hb⟩ := h.decodes
  have hsmall := h.small
  rw [← ha] at hdata hsmall hb ⊢
  have hsignature := hdata.trans (at_signature_encode hsmall)
  have hdecode : decode a.encode (imageId ++ "#" ++ toString found) policy
      = .ok (b.withArchiveId (imageId ++ "#" ++ toString found)) := by
    rw [decode_archiveId _ id, hb, map_ok]
  exact ⟨hsignature, _, hdecode, embeddedAt?_eq_some.2
    ⟨hsignature, _, declared?_of_at hdata hsmall, hdecode, rfl⟩⟩

theorem size_encode_ofSong (body : Bytes) :
    (ofSongs 1 [(0, body)]).encode.size = 228 + body.size := by
  have hfront : (ofSongs 1 [(0, body)]).filesStart = 204 := by
    rw [filesStart, tableStart, indexStart, size_symbolBytes, size_index]
    rfl
  have hbodies : (ofSongs 1 [(0, body)]).bodies = [body] := rfl
  rw [size_encode rfl, hfront, hbodies, concat_cons, concat_nil, Array.append_empty]
  rfl

theorem isEmbeddable_ofSong {gap : Bytes} {s : Sequence} (hgap : LacksSignature gap)
    (hsize : 228 + s.encode.size < 2 ^ 32) :
    Piece.IsEmbeddable policy ⟨gap, (ofSongs 1 [(0, s.encode)]).encode⟩ := by
  have hbody := Sequence.decode_encode (s := s) (by omega)
  have hcanonical : (ofSongs 1 [(0, s.encode)]).IsCanonical "x" policy := by
    refine ⟨rfl, rfl, ?_, ?_, ?_⟩
    · intro e he
      obtain rfl := List.mem_singleton.1 he
      refine ⟨rfl, ?_, rfl, rfl⟩
      simp [Entry.IsParsed, Category.sequences, hbody, Except.toOption]
    · intro e he
      cases he
    · intro e he
      cases he
  rw [← size_encode_ofSong] at hsize
  have hfiles : (ofSongs 1 [(0, s.encode)]).fileCount < 65536 := show 1 < 65536 by decide
  have hdecode := (laidOut_encode rfl hsize).decode_of_isCanonical hcanonical
    (List.cons_ne_nil _ _) hfiles
  exact ⟨hgap, ⟨_, rfl⟩, hsize, "x", _, hdecode⟩

/-! ## Images made of archives -/

/-- The pieces one behind the other, and the bytes behind the last of them. -/
def imageOf (pieces : List Piece) (rest : Bytes) : Bytes :=
  concat (pieces.map fun piece => piece.gap ++ piece.data) ++ rest

theorem imageOf_nil (rest : Bytes) : imageOf [] rest = rest := by simp [imageOf]

theorem imageOf_cons (piece : Piece) (pieces : List Piece) (rest : Bytes) :
    imageOf (piece :: pieces) rest = piece.gap ++ piece.data ++ imageOf pieces rest := by
  simp [imageOf, Array.append_assoc]

theorem embeddedFrom_imageOf {pieces : List Piece} {rest : Bytes}
    (hpieces : ∀ piece ∈ pieces, piece.IsEmbeddable policy) (hrest : LacksSignature rest)
    (himage : At image p (imageOf pieces rest))
    (hend : p + (imageOf pieces rest).size = image.size) (imageId : String) (found : Nat) :
    List.Forall₂
      (fun (piece, i) a => decode piece.data (imageId ++ "#" ++ toString i) policy = .ok a)
      (pieces.zipIdx found) (embeddedFrom image imageId policy p found) := by
  induction pieces generalizing p found with
  | nil =>
    rw [imageOf_nil] at himage hend
    have hnothing (q : Nat) (hle : p ≤ q) : ¬ At image q signature := by
      intro hq
      have hbound := hq.bound
      exact hrest.not_at himage hle (by omega) hq
    rw [embeddedFrom_eq_nil hnothing]
    exact .nil
  | cons piece pieces ih =>
    rw [imageOf_cons] at himage hend
    have hpiece := hpieces piece List.mem_cons_self
    obtain ⟨hsignature, a, hdecode, hhere⟩ := hpiece.embeddedAt? himage.left.right imageId found
    -- A signature that starts in the gap also ends in it, as the next one is right behind it.
    have hgap (q : Nat) (hle : p ≤ q) (hlt : q < p + piece.gap.size) : ¬ At image q signature := by
      intro hq
      exact hpiece.gap.not_at himage.left.left hle (apart_of_signatures hq hsignature hlt) hq
    have hbound := hsignature.bound
    rw [embeddedFrom_skip (Nat.le_add_right _ _) (by omega) hgap, embeddedFrom_hit hhere]
    have hbehind := ih (fun piece hpiece => hpieces piece (List.mem_cons_of_mem _ hpiece))
      himage.right (by rwa [Array.size_append, ← Nat.add_assoc] at hend) (found + 1)
    rw [Array.size_append, ← Nat.add_assoc] at hbehind
    exact .cons hdecode hbehind

/-- The search ends for every image. In an image that is made of archives it finds each of them,
whatever is inside, and gives it its number. -/
theorem embedded_finds_every_piece (imageId : String) (policy : DecodePolicy) :
    (∀ image, Ends (Search.step image imageId policy) (.inl ⟨0, []⟩)
      (embedded image imageId policy)) ∧
    ∀ pieces rest, (∀ piece ∈ pieces, piece.IsEmbeddable policy) → LacksSignature rest →
      List.Forall₂
        (fun (piece, i) a => decode piece.data (imageId ++ "#" ++ toString i) policy = .ok a)
        pieces.zipIdx (embedded (imageOf pieces rest) imageId policy) := by
  constructor
  · intro image
    exact Search.ends_step image imageId policy 0 []
  · intro pieces rest hpieces hrest
    exact embeddedFrom_imageOf hpieces hrest (at_self _) (Nat.zero_add _) imageId 0

/-- An archive whose song holds all the bytes of another, behind a signature that lacks its last
byte, and then that other archive. -/
theorem embedded_of_archive_in_archive :
    let inner := ofSongs 1 [(0, Sequence.encode ⟨#[0xFF]⟩)]
    let outer := ofSongs 1 [(0, Sequence.encode ⟨inner.encode⟩)]
    let pieces : List Piece := [⟨signature.pop, outer.encode⟩, ⟨#[], inner.encode⟩]
    let rest : Bytes := #[0x53, 0x44]
    ((∀ piece ∈ pieces, piece.IsEmbeddable .failHard) ∧ LacksSignature rest) ∧
      List.Forall₂
        (fun (piece, i) a => decode piece.data ("game" ++ "#" ++ toString i) .failHard = .ok a)
        pieces.zipIdx (embedded (imageOf pieces rest) "game" .failHard) := by
  intro inner outer pieces rest
  have houter : Piece.IsEmbeddable .failHard ⟨signature.pop, outer.encode⟩ := by
    refine isEmbeddable_ofSong (lacksSignature_of_lt (by decide)) ?_
    rw [Sequence.size_encode, size_encode_ofSong, Sequence.size_encode]
    decide
  have hinner : Piece.IsEmbeddable .failHard ⟨#[], inner.encode⟩ := by
    refine isEmbeddable_ofSong (lacksSignature_of_lt (by decide)) ?_
    rw [Sequence.size_encode]
    decide
  have hpieces : ∀ piece ∈ pieces, piece.IsEmbeddable .failHard :=
    List.forall_mem_cons.2 ⟨houter, List.forall_mem_singleton.2 hinner⟩
  have hrest : LacksSignature rest := lacksSignature_of_lt (by decide)
  exact ⟨⟨hpieces, hrest⟩,
    (embedded_finds_every_piece "game" .failHard).2 pieces rest hpieces hrest⟩

end Archive

end SoundArchive
