import SoundArchive.Collect.Basic
import SoundArchive.Proofs.Bank.KeySelection
import SoundArchive.Proofs.Collect.Selection
import Mathlib.Algebra.Group.Nat.Defs

/-! # What is left of a bank has the instruments that sequences select -/

namespace SoundArchive

/-! ## Ranges -/

namespace Instrument

theorem rangeForKey?_mapRanges {f : KeyRange → KeyRange} (hf : ∀ r, (f r).highNote = r.highNote)
    (i : Instrument) (key : UInt8) :
    (i.mapRanges f).rangeForKey? key = (i.rangeForKey? key).map f := by
  cases i with
  | empty => rfl
  | single range => rfl
  | noteTable lowNote ranges =>
    simp only [mapRanges, rangeForKey?, List.getLast?_map, List.getElem?_map]
    cases ranges.getLast? with
    | none => rfl
    | some last =>
      simp only [Option.map_some, hf]
      split <;> rfl
  | keySplit ranges =>
    simp only [mapRanges, rangeForKey?, List.find?_map, Function.comp_def, hf]

end Instrument

/-- The range that a bank plays for a patch and a key. -/
def Bank.range? (b : Bank) (patch : UInt32) (key : UInt8) : Option KeyRange :=
  (b.instrument? patch.toNat).bind (·.rangeForKey? key)

theorem Bank.range?_mapRanges {f : KeyRange → KeyRange} (hf : ∀ r, (f r).highNote = r.highNote)
    (instruments : List Instrument) (patch : UInt32) (key : UInt8) :
    range? ⟨instruments.map (·.mapRanges f)⟩ patch key
      = (range? ⟨instruments⟩ patch key).map f := by
  simp only [range?, instrument?, List.getElem?_map]
  cases instruments[patch.toNat]? with
  | none => rfl
  | some i => exact Instrument.rangeForKey?_mapRanges hf i key

theorem Bank.mem_of_range? {instruments : List Instrument} {patch : UInt32} {key : UInt8}
    {r : KeyRange} (h : range? ⟨instruments⟩ patch key = some r) :
    r ∈ instruments.flatMap Instrument.ranges := by
  obtain ⟨i, hi, hr⟩ := Option.bind_eq_some_iff.1 h
  exact List.mem_flatMap.2
    ⟨i, List.mem_of_getElem? hi, Instrument.rangeForKey?_mem hr⟩

theorem Bank.range?_of_not_hasInstrument {b : Bank} {patch : UInt32}
    (h : ¬ b.hasInstrument patch.toNat) (key : UInt8) : b.range? patch key = none := by
  unfold hasInstrument at h
  unfold range?
  split at h
  · next hnone => rw [hnone]; rfl
  · next hempty => rw [hempty]; rfl
  · exact absurd rfl h

theorem Bank.isSome_of_hasInstrument {b : Bank} {m : Nat} (h : b.hasInstrument m) :
    (b.instrument? m).isSome := by
  unfold hasInstrument at h
  cases hb : b.instrument? m with
  | none => rw [hb] at h; cases h
  | some _ => rfl

theorem Bank.range?_shrink {bank : Bank} {patches : List Nat} {patch : UInt32}
    (hpatches : ∀ m ∈ patches, m < 2 ^ 32) (hpatch : patch.toNat ∈ patches) (key : UInt8) :
    range? ⟨(bank.shrink patches).instruments⟩
        ((bank.shrink patches).selection.renumber patch.toNat).toUInt32 key
      = bank.range? patch key := by
  have hlt : (bank.shrink patches).selection.renumber patch.toNat < 2 ^ 32 :=
    Selection.renumber_lt _ hpatches hpatch
  have hfound : (⟨(bank.shrink patches).instruments⟩ : Bank).instrument?
      ((bank.shrink patches).selection.renumber patch.toNat)
        = if bank.hasInstrument patch.toNat then bank.instrument? patch.toNat else none :=
    Selection.getElem?_filterMap_renumber bank.hasInstrument
      (fun _ => isSome_of_hasInstrument) hpatch
  rw [range?, Nat.toUInt32_eq, UInt32.toNat_ofNat', Nat.mod_eq_of_lt hlt, hfound]
  split
  · rfl
  · next hnone => exact (range?_of_not_hasInstrument hnone key).symm

/-! ## Plans -/

theorem ScannedSequence.lt_of_mem_patches {s : ScannedSequence} {m : Nat} (h : m ∈ s.patches) :
    m < 2 ^ 32 := by
  unfold patches at h
  split at h
  · rcases List.mem_cons.1 h with rfl | h
    · decide
    · obtain ⟨patch, _, rfl⟩ := List.mem_map.1 h
      exact patch.toNat_lt
  · obtain rfl := List.mem_singleton.1 h
    decide

theorem BankPlan.eq_shrink_of_shrunk? {bank : Bank} {sequences : List ScannedSequence}
    {shrunk : ShrunkBank} (h : (ofUsers bank sequences).shrunk? = some shrunk) :
    shrunk = bank.shrink (sequences.flatMap (·.patches)) := by
  unfold ofUsers at h
  split at h
  · cases h
  · split at h
    · cases h
    · exact (Option.some.inj h).symm

/-- Every sequence selects the initial patch, and a bank that no sequence plays with has no such
plan. -/
theorem BankPlan.initialPatch_mem {bank : Bank} {sequences : List ScannedSequence}
    {shrunk : ShrunkBank} (h : (ofUsers bank sequences).shrunk? = some shrunk) :
    initialPatch ∈ sequences.flatMap (·.patches) := by
  cases sequences with
  | nil => cases h
  | cons s rest =>
    refine List.mem_flatMap.2 ⟨s, List.mem_cons_self, ?_⟩
    unfold ScannedSequence.patches
    split <;> exact List.mem_cons_self

/-- A number that stands for one bank only leads to the plan of that bank. -/
theorem BankPlans.shrunk?_of_alone {plans : BankPlans} {n : UInt16}
    (halone : ∀ i, (plans[(i + 1) * page + n.toNat]?).bind (·.shrunk?) = none) :
    plans.shrunk? n = (plans[n.toNat]?).bind (·.shrunk?) := by
  have hothers : ((List.range (plans.size / page)).map Nat.succ).reverse.findSome?
      (fun i => (plans[i * page + n.toNat]?).bind (·.shrunk?)) = none := by
    rw [List.findSome?_eq_none_iff]
    intro m hm
    obtain ⟨i, _, rfl⟩ := List.mem_map.1 (List.mem_reverse.1 hm)
    exact halone i
  rw [shrunk?, List.range_succ_eq_map, List.reverse_cons, List.findSome?_append, hothers]
  simp

namespace Archive

variable {a a' : Archive} {summary : CollectSummary}

def bankPlans (a : Archive) : BankPlans := a.planBanks (a.sequences.mapLive scanEntry).live

/-- The number that a patch gets in the sequences that play with bank `n`. -/
def newPatch (a : Archive) (n : UInt16) (patch : UInt32) : UInt32 :=
  match a.bankPlans.shrunk? n with
  | some bank => (bank.selection.renumber patch.toNat).toUInt32
  | none => patch

/-- No other bank that was read goes by the number `n` in sequences. -/
def OwnsNumber (a : Archive) (n : UInt16) : Prop :=
  ∀ i, (a.banks.entry? ((i + 1) * BankPlans.page + n.toNat)).bind (·.resource) = none

theorem ownsNumber_of_length (hsize : a.banks.length < BankPlans.page) (n : UInt16) :
    a.OwnsNumber n := by
  intro i
  have hbehind : a.banks.length ≤ (i + 1) * BankPlans.page + n.toNat := by
    rw [Nat.succ_mul]
    omega
  rw [Slots.entry?, List.getElem?_eq_none hbehind]
  rfl

/-- What was found in the sequences that play with bank `n`. -/
def usersOf (a : Archive) (n : UInt16) : List ScannedSequence :=
  (a.sequences.mapLive scanEntry).live.filter fun s => s.bank = n

theorem shrunk?_planAt (a : Archive) (i : Nat) :
    a.bankPlans[i]?.bind (·.shrunk?) = ((a.banks.entry? i).bind (·.resource)).bind fun bank =>
      (BankPlan.ofUsers bank (a.usersOf i.toUInt16)).shrunk? := by
  simp only [bankPlans, planBanks, List.getElem?_toArray, List.getElem?_map,
    List.getElem?_zipIdx, Slots.entry?]
  rcases a.banks[i]? with _ | _ | entry
  · rfl
  · rfl
  · cases hbank : entry.resource <;> simp [planBank, hbank, BankPlan.shrunk?, usersOf]

theorem shrunk?_bankPlans {n : UInt16} {entry : BankEntry} {bank : Bank}
    (howns : a.OwnsNumber n) (hentry : a.bank? n = some entry)
    (hbank : entry.resource = some bank) :
    a.bankPlans.shrunk? n = (BankPlan.ofUsers bank
      ((a.sequences.mapLive scanEntry).live.filter fun s => s.bank = n)).shrunk? := by
  have hn : n.toNat.toUInt16 = n := by simp
  have hslot : a.banks.entry? n.toNat = some entry := hentry
  rw [BankPlans.shrunk?_of_alone, shrunk?_planAt, hn, hslot, Option.bind_some, hbank]
  · rfl
  · intro i
    rw [shrunk?_planAt, howns i]
    rfl

theorem scanEntry_mem_live {s : SequenceEntry} (hs : s ∈ a.sequences.live) :
    scanEntry s ∈ (a.sequences.mapLive scanEntry).live := by
  obtain ⟨i, hi⟩ := Slots.mem_live.1 hs
  exact Slots.mem_live.2 ⟨i, by rw [Slots.entry?_mapLive, hi]; rfl⟩

theorem toNat_mem_patches {s : SequenceEntry} {sequence : Sequence} {scan : PatchScan}
    {patch : UInt32} (hsequence : s.resource = some sequence)
    (hscan : scanPatches sequence.code = .ok scan) (hpatch : patch ∈ scan.usedPatches) :
    patch.toNat ∈ (scanEntry s).patches := by
  have hfound : (scanEntry s).scan = some scan := by
    simp [scanEntry, hsequence, hscan, Except.toOption]
  rw [ScannedSequence.patches, hfound]
  exact List.mem_cons_of_mem _ (List.mem_map_of_mem hpatch)

/-- What is left of a bank has the ranges of every patch that is selected, under its new
number. -/
theorem range?_remaining {n : UInt16} {entry : BankEntry} {bank : Bank} {s : SequenceEntry}
    {sequence : Sequence} {scan : PatchScan} {patch : UInt32}
    (howns : a.OwnsNumber n) (hentry : a.bank? n = some entry)
    (hbank : entry.resource = some bank) (hs : s ∈ a.sequences.live)
    (hplays : s.settings.bank = n) (hsequence : s.resource = some sequence)
    (hscan : scanPatches sequence.code = .ok scan) (hpatch : patch ∈ scan.usedPatches) :
    ∃ old, remaining a.bankPlans entry n.toNat = some old ∧ ∀ key,
      Bank.range? ⟨old⟩ (a.newPatch n patch) key = bank.range? patch key := by
  have hplan := shrunk?_bankPlans howns hentry hbank
  have hn : n.toNat.toUInt16 = n := by simp
  simp only [remaining, hbank, hn]
  cases hshrunk : a.bankPlans.shrunk? n with
  | none => exact ⟨bank.instruments, rfl, fun key => by rw [newPatch, hshrunk]⟩
  | some shrunk =>
    refine ⟨shrunk.instruments, rfl, fun key => ?_⟩
    have hmem : patch.toNat ∈ ((a.sequences.mapLive scanEntry).live.filter
        fun s => s.bank = n).flatMap (·.patches) :=
      List.mem_flatMap.2 ⟨scanEntry s,
        List.mem_filter.2 ⟨scanEntry_mem_live hs, decide_eq_true hplays⟩,
        toNat_mem_patches hsequence hscan hpatch⟩
    have hlt : ∀ m ∈ ((a.sequences.mapLive scanEntry).live.filter
        fun s => s.bank = n).flatMap (·.patches), m < 2 ^ 32 := by
      intro m hm
      obtain ⟨_, _, hm⟩ := List.mem_flatMap.1 hm
      exact ScannedSequence.lt_of_mem_patches hm
    rw [newPatch, hshrunk]
    obtain rfl := BankPlan.eq_shrink_of_shrunk? (hplan.symm.trans hshrunk)
    exact Bank.range?_shrink hlt hmem key

end Archive

end SoundArchive
