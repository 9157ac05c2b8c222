import SoundArchive.Playback.Track
import SoundArchive.Proofs.Collect.Sound

/-!
# What collecting does to the patch that tracks start with

No operand holds this patch, so it cannot be renumbered: a track that selects nothing plays the
first instrument that is left of its bank.
-/

namespace SoundArchive

/-! ## The first instrument that is left -/

/-- The instruments that are kept keep their order, so the first of them is the initial one, if
that is kept at all. -/
theorem Selection.head?_kept {isThere : Nat → Bool} {used : List Nat}
    (hkept : 0 ∈ (ofUsed isThere used).kept) : (ofUsed isThere used).kept.head? = some 0 := by
  have hsorted : (ofUsed isThere used).kept.Pairwise (· < ·) :=
    (ascending_pairwise_lt used).filter _
  cases hcons : (ofUsed isThere used).kept with
  | nil => simp [hcons] at hkept
  | cons m rest =>
    rw [hcons] at hkept hsorted
    rcases List.mem_cons.1 hkept with rfl | hrest
    · rfl
    · have hlt := (List.pairwise_cons.1 hsorted).1 0 hrest
      omega

theorem Bank.range?_shrink_zero (bank : Bank) (patches : List Nat) (key : UInt8) :
    range? ⟨(bank.shrink patches).instruments⟩ 0 key
      = (bank.shrink patches).selection.kept.head?.bind fun m =>
          (bank.instrument? m).bind (·.rangeForKey? key) := by
  have hthere : ∀ m ∈ (bank.shrink patches).selection.kept, (bank.instrument? m).isSome :=
    fun m hm => isSome_of_hasInstrument (Selection.mem_kept.1 hm).2
  have hfirst := Slots.getElem?_filterMap hthere 0
  rw [List.head?_eq_getElem?, ← Option.bind_assoc, ← hfirst]
  rfl

namespace Archive

variable {a a' : Archive} {summary : CollectSummary} {n : UInt16} {entry : BankEntry}
  {bank : Bank}

/-- The patch whose instrument comes first in what is left of bank `n`. -/
def firstPatch? (a : Archive) (n : UInt16) : Option Nat :=
  match a.bankPlans.shrunk? n with
  | none => some initialPatch
  | some shrunk => shrunk.selection.kept.head?

theorem range?_remaining_zero (howns : a.OwnsNumber n) (hentry : a.bank? n = some entry)
    (hbank : entry.resource = some bank) :
    ∃ old, remaining a.bankPlans entry n.toNat = some old ∧ ∀ key,
      Bank.range? ⟨old⟩ 0 key
        = (a.firstPatch? n).bind fun m => (bank.instrument? m).bind (·.rangeForKey? key) := by
  have hplan := shrunk?_bankPlans howns hentry hbank
  have hn : n.toNat.toUInt16 = n := by simp
  simp only [remaining, hbank, hn, firstPatch?]
  cases hshrunk : a.bankPlans.shrunk? n with
  | none => exact ⟨bank.instruments, rfl, fun key => rfl⟩
  | some shrunk =>
    obtain rfl := BankPlan.eq_shrink_of_shrunk? (hplan.symm.trans hshrunk)
    exact ⟨_, rfl, Bank.range?_shrink_zero bank _⟩

/-- If the initial patch does not come first, it had no instrument. -/
theorem range?_zero_of_firstPatch? (howns : a.OwnsNumber n) (hentry : a.bank? n = some entry)
    (hbank : entry.resource = some bank) (hfirst : a.firstPatch? n ≠ some initialPatch)
    (key : UInt8) : bank.range? 0 key = none := by
  have hplan := shrunk?_bankPlans howns hentry hbank
  unfold firstPatch? at hfirst
  split at hfirst
  · exact absurd rfl hfirst
  · next shrunk hshrunk =>
    have hof := hplan.symm.trans hshrunk
    obtain rfl := BankPlan.eq_shrink_of_shrunk? hof
    refine Bank.range?_of_not_hasInstrument (fun hthere => hfirst ?_) key
    exact Selection.head?_kept (Selection.mem_kept.2 ⟨BankPlan.initialPatch_mem hof, hthere⟩)

/-! ## Tracks that select nothing -/

theorem isSome_of_rel {α β : Type} {r : α → β → Prop} {x : Option α} {y : Option β}
    (h : Option.Rel r x y) : x.isSome = y.isSome := by
  cases h <;> rfl

/-- A track that has selected nothing plays the same as before, unless the instrument of another
patch comes first now and has something to play. -/
theorem collect_keeps_initial_patch_iff (h : a.collect = .ok (a', summary))
    (howns : a.OwnsNumber n) (hentry : a.bank? n = some entry)
    (hbank : entry.resource = some bank) (track start : Nat) (priority : UInt8) :
    let patch := (Track.start track start priority).control.patch
    ∃ entry' bank', a'.bank? n = some entry' ∧ entry'.resource = some bank' ∧
      ((∀ key, Option.Rel
          (SameSound ⟨bank, a.waveArchivesOf entry⟩ ⟨bank', a'.waveArchivesOf entry'⟩)
          (bank.range? patch key) (bank'.range? patch key)) ↔
        ∀ m, a.firstPatch? n = some m → m ≠ initialPatch →
          ∀ key, (bank.instrument? m).bind (·.rangeForKey? key) = none) := by
  intro patch
  have hpatch : patch = 0 := rfl
  rw [hpatch]
  obtain ⟨old, hold, hranges⟩ := range?_remaining_zero howns hentry hbank
  obtain ⟨entry', bank', hentry', hbank', hsound⟩ := sound_of_collect h hentry hold bank
  refine ⟨entry', bank', hentry', hbank', ?_, ?_⟩
  · intro hsame m hfirst hne key
    have hnone := range?_zero_of_firstPatch? howns hentry hbank (by simpa [hfirst] using hne) key
    have hleft : (Bank.range? ⟨old⟩ 0 key).isSome = (bank.range? 0 key).isSome :=
      (isSome_of_rel (hsound 0 key)).trans (isSome_of_rel (hsame key)).symm
    rw [hranges key, hfirst, hnone] at hleft
    exact Option.isSome_eq_false_iff.1 hleft |> Option.isNone_iff_eq_none.1
  · intro hsilent key
    have hleft := hsound 0 key
    by_cases hfirst : a.firstPatch? n = some initialPatch
    · rw [hranges key, hfirst] at hleft
      exact hleft
    · rw [range?_zero_of_firstPatch? howns hentry hbank hfirst key]
      have hnone : Bank.range? ⟨old⟩ 0 key = none := by
        rw [hranges key, Option.bind_eq_none_iff]
        intro m hm
        exact hsilent m hm (fun heq => hfirst (heq ▸ hm)) key
      rwa [hnone] at hleft

/-- A song with this code, its bank, and a wave archive of one wave. -/
def ofSong (code : Bytes) (bank : Bank) : Archive where
  mergeCount := 0
  hasSymbols := true
  needsSymbolCleanup := false
  fileTableLength := 3
  sequences := [some
    { name := "A", isPlaceholder := false, archiveId := "x", fileId := 0, body := #[]
      settings := { bank := 0, volume := 127, channelPriority := 64, playerPriority := 32
                    player := 0, reserved := 0, reservedTail := (0, 0) }
      resource := some ⟨code⟩ }]
  banks := [some
    { name := "B", isPlaceholder := false, archiveId := "x", fileId := 1, body := #[]
      settings := { waveArchives := #v[0, 0xFFFF, 0xFFFF, 0xFFFF], reserved := 0 }
      resource := some bank }]
  waveArchives := [some
    { name := "C", isPlaceholder := false, archiveId := "x", fileId := 2, body := #[]
      settings := { reserved := 0 }
      resource := some (.ofWaves [.ofData .pcm8 false 8000 2000 0 #[1, 2, 3, 4]]) }]
  players := []

def piano : KeyRange where
  lowNote := 0
  highNote := 127
  record := 1
  wave := 0
  waveArchive := 0
  baseNote := 60
  attack := 127
  decay := 127
  sustain := 127
  release := 127
  pan := 64

/-- Patch 2 becomes patch 1 here, and patch 0 stays what it was. -/
theorem initial_patch_of_piano :
    let bank : Bank := ⟨[.single piano, .empty, .single { piano with pan := 0 }]⟩
    let a := ofSong #[0x81, 2, 0xFF] bank
    ∃ a' summary entry entry' bank', a.collect = .ok (a', summary) ∧ a.bank? 0 = some entry ∧
      a'.bank? 0 = some entry' ∧ entry'.resource = some bank' ∧
      ∀ key, Option.Rel
        (SameSound ⟨bank, a.waveArchivesOf entry⟩ ⟨bank', a'.waveArchivesOf entry'⟩)
        (some piano) (bank'.range? 0 key) := by
  intro bank a
  have hok : a.collect.toOption.isSome = true := by cbv
  obtain ⟨⟨a', summary⟩, h⟩ := Option.isSome_iff_exists.1 hok
  rw [toOption_eq_some] at h
  have howns : a.OwnsNumber 0 := ownsNumber_of_length (by decide) 0
  have hfirst : a.firstPatch? 0 = some 0 := by cbv
  obtain ⟨entry', bank', hentry', hbank', hiff⟩ :=
    collect_keeps_initial_patch_iff h howns rfl rfl 0 0 64
  refine ⟨a', summary, _, entry', bank', h, rfl, hentry', hbank', hiff.2 ?_⟩
  intro m hm hne
  rw [hfirst] at hm
  exact absurd (Option.some.inj hm).symm hne

/-- Patch 0 has no instrument here. What is left of the bank has one, which patch 1 selected. -/
theorem initial_patch_gains_instrument :
    ¬ ∀ (a a' : Archive) (summary : CollectSummary), a.collect = .ok (a', summary) →
      ∀ s ∈ a.sequences.live, ∀ entry bank, a.bank? s.settings.bank = some entry →
        entry.resource = some bank →
        ∃ entry' bank', a'.bank? s.settings.bank = some entry' ∧ entry'.resource = some bank' ∧
          ∀ key, Option.Rel
            (SameSound ⟨bank, a.waveArchivesOf entry⟩ ⟨bank', a'.waveArchivesOf entry'⟩)
            (bank.range? 0 key) (bank'.range? 0 key) := by
  intro hclaim
  have hplays : ((ofSong #[0x81, 1, 0xFF] ⟨[.empty, .single piano]⟩).collect.toOption.bind
      fun result => (result.1.bank? 0).bind fun entry => entry.resource.bind fun bank =>
        bank.range? 0 60) = some piano := by
    cbv
  obtain ⟨⟨a', summary⟩, h, hplays⟩ := Option.bind_eq_some_iff.1 hplays
  obtain ⟨entry, hentry, hplays⟩ := Option.bind_eq_some_iff.1 hplays
  obtain ⟨bank, hbank, hplays⟩ := Option.bind_eq_some_iff.1 hplays
  obtain ⟨entry', bank', hentry', hbank', hsame⟩ := hclaim _ a' summary
    (toOption_eq_some.1 h) _ (List.mem_singleton_self _) _ _ rfl rfl
  obtain rfl := Option.some.inj (hentry.symm.trans hentry')
  obtain rfl := Option.some.inj (hbank.symm.trans hbank')
  have hsome := isSome_of_rel (hsame 60)
  rw [hplays] at hsome
  cases hsome

end Archive

end SoundArchive
