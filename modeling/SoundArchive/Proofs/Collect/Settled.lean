import SoundArchive.Proofs.Collect.Sound

/-!
# Archives that collecting leaves as they are

The patches that sequences select and the waves that instruments play are numbered without gaps
there, and bodies are what banks are encoded as.
-/

namespace SoundArchive

/-! ## Banks and wave archives -/

theorem filterMap_getElem?_range {α : Type} (l : List α) :
    (List.range l.length).filterMap (fun i => l[i]?) = l := by
  apply List.ext_getElem?
  intro i
  rw [Slots.getElem?_filterMap (by simp)]
  by_cases hi : i < l.length
  · simp [hi]
  · simp [hi]

theorem Bank.instruments_of_settled {bank : Bank} {patches : List Nat}
    (h : Selection.Settled bank.hasInstrument patches bank.instruments.length) :
    (bank.shrink patches).instruments = bank.instruments := by
  rw [Bank.shrink, h.kept]
  exact filterMap_getElem?_range bank.instruments

/-- An instrument was kept because it is not empty, and it is not empty whatever its ranges are
made of. -/
theorem Bank.hasInstrument_shrunk (bank : Bank) (patches : List Nat) (f : KeyRange → KeyRange)
    (n : Nat) :
    (⟨(bank.shrink patches).instruments.map (·.mapRanges f)⟩ : Bank).hasInstrument n = true ↔
      n < (bank.shrink patches).selection.kept.length := by
  have hthere : ∀ m ∈ (bank.shrink patches).selection.kept, bank.hasInstrument m :=
    fun m hm => (Selection.mem_kept.1 hm).2
  have hfound : (⟨(bank.shrink patches).instruments.map (·.mapRanges f)⟩ : Bank).instrument? n
      = ((bank.shrink patches).selection.kept[n]?.bind bank.instrument?).map (·.mapRanges f) := by
    rw [Bank.instrument?, List.getElem?_map]
    exact congrArg _
      (Slots.getElem?_filterMap (fun m hm => isSome_of_hasInstrument (hthere m hm)) n)
  unfold hasInstrument
  rw [hfound]
  by_cases hn : n < (bank.shrink patches).selection.kept.length
  · have hkept := hthere _ (List.getElem_mem hn)
    unfold hasInstrument at hkept
    rw [List.getElem?_eq_getElem hn, Option.bind_some]
    cases hi : bank.instrument? (bank.shrink patches).selection.kept[n] with
    | none => simp [hi] at hkept
    | some i => cases i <;> simp_all [Instrument.mapRanges]
  · simp [hn]

theorem Bank.length_shrunk (bank : Bank) (patches : List Nat) :
    (bank.shrink patches).instruments.length = (bank.shrink patches).selection.kept.length := by
  rw [shrink, List.length_filterMap_eq_countP, List.countP_eq_length]
  exact fun m hm => isSome_of_hasInstrument (Selection.mem_kept.1 hm).2

theorem WaveArchive.waves_of_settled {waves : List Wave} {used : List Nat}
    (h : Selection.Settled (fun n => ((ofWaves waves).wave? n).isSome) used waves.length) :
    ((ofWaves waves).shrink used).waves = ofWaves waves := by
  rw [WaveArchive.shrink, h.kept]
  simp only [wave?_ofWaves, filterMap_getElem?_range]

/-! ## Slots and sums -/

theorem Slots.replace_eq_self {σ ρ : Type} {slots : Slots (Entry σ ρ)} {news : Slots (ρ × Bytes)}
    (hlength : news.length = slots.length)
    (h : ∀ n entry new, slots.entry? n = some entry → news.entry? n = some new →
      entry.resource = some new.1 ∧ entry.body = new.2) : slots.replace news = slots := by
  apply List.ext_getElem?
  intro n
  rw [replace, List.getElem?_zipWith]
  cases hslot : slots[n]? with
  | none => rfl
  | some slot =>
    have hlt : n < news.length := hlength ▸ (List.getElem?_eq_some_iff.1 hslot).1
    rw [List.getElem?_eq_getElem hlt]
    cases slot with
    | none => rfl
    | some entry =>
      cases hnew : news[n] with
      | none => simp
      | some new =>
        obtain ⟨hresource, hbody⟩ := h n entry new (entry?_eq_some.2 hslot)
          (entry?_eq_some.2 (by rw [List.getElem?_eq_getElem hlt, hnew]))
        simp [← hresource, ← hbody]

theorem foldl_add_eq_zero {l : List Nat} (h : ∀ n ∈ l, n = 0) : l.foldl (· + ·) 0 = 0 := by
  induction l with
  | nil => rfl
  | cons n rest ih =>
    rw [List.foldl_cons, h n List.mem_cons_self]
    exact ih fun m hm => h m (List.mem_cons_of_mem _ hm)

/-! ## Settled archives -/

namespace Archive

variable {a : Archive}

/-- All numbers are where collecting would put them, and all bodies what it would write. -/
structure Settled (a : Archive) : Prop where
  patches : ∀ n bank, a.bankPlans.shrunk? n = some bank → ∀ m, bank.selection.renumber m = m
  /-- Of a bank that is to be shrunk all instruments are left, whichever plan is the one that
  counts for its number. -/
  instruments : ∀ i entry bank shrunk, a.banks.entry? i = some entry →
    entry.resource = some bank →
    (a.bankPlans[i]?.bind (·.shrunk?) = some shrunk ∨
      a.bankPlans.shrunk? i.toUInt16 = some shrunk) →
    shrunk.instruments = bank.instruments
  waves : ∀ i shrunk, a.shrunkWaves.entry? i = some shrunk →
    (∀ m, shrunk.selection.renumber m = m) ∧
      (a.waveArchives.entry? i).bind (·.resource) = some shrunk.waves
  bodies : ∀ i entry bank, a.banks.entry? i = some entry → entry.resource = some bank →
    (a.bankPlans.shrunk? i.toUInt16).isSome → bank.encode = .ok entry.body

theorem newSequence_of_settled {plans : BankPlans} {entry : SequenceEntry}
    {scan : Option PatchScan} {i : Nat}
    (h : ∀ n bank, plans.shrunk? n = some bank → ∀ m, bank.selection.renumber m = m) :
    newSequence plans entry scan i = .ok none := by
  unfold newSequence
  split
  · next bank _ scan hbank _ =>
    have hneeds : Sequence.needsRenumbering bank.selection scan = false := by
      simp [Sequence.needsRenumbering, h _ bank hbank]
    rw [if_neg (by simp [hneeds])]
  · rfl

theorem Settled.newSequences (h : a.Settled) :
    ∃ news, a.newSequences a.bankPlans (a.sequences.mapLive scanEntry) = .ok news ∧
      a.sequences.replace news = a.sequences ∧ news.liveCount = 0 := by
  have hmapM : ∃ news, a.newSequences a.bankPlans (a.sequences.mapLive scanEntry) = .ok news ∧
      List.Forall₂ (fun _ new => new = none)
        (a.sequences.zip (a.sequences.mapLive scanEntry)).zipIdx news := by
    apply exists_mapM
    rintro ⟨⟨slot, scanned⟩, n⟩ -
    cases slot with
    | none => exact ⟨none, rfl, rfl⟩
    | some entry => exact ⟨none, newSequence_of_settled h.patches, rfl⟩
  obtain ⟨news, hnews, hrel⟩ := hmapM
  have hnone : ∀ new ∈ news, new = none := by
    intro new hnew
    obtain ⟨_, -, hnone⟩ := exists_of_forall₂ hrel hnew
    exact hnone
  refine ⟨news, hnews, Slots.replace_eq_self ?_ fun n entry new _ hnew => ?_, ?_⟩
  · simpa [Slots.mapLive] using hrel.length_eq.symm
  · cases hnone _ (List.mem_of_getElem? (Slots.entry?_eq_some.1 hnew))
  · rw [Slots.liveCount, Slots.live, List.length_eq_zero_iff, List.filterMap_eq_nil_iff]
    exact hnone

theorem Settled.renumberWave (h : a.Settled) (slots : Vector UInt16 4) (r : KeyRange) :
    r.renumberWave a.shrunkWaves.toArray slots = r := by
  unfold KeyRange.renumberWave
  split
  · rfl
  · next s hs =>
    obtain ⟨n, -, hn⟩ := Option.bind_eq_some_iff.1 hs
    rw [List.getElem?_toArray] at hn
    rw [(h.waves n s hn).1]
    simp

theorem mapRanges_eq_self {f : KeyRange → KeyRange} (hf : ∀ r, f r = r)
    (instruments : List Instrument) : instruments.map (·.mapRanges f) = instruments := by
  obtain rfl : f = id := funext hf
  refine List.map_id'' (fun i => ?_) instruments
  cases i <;> simp [Instrument.mapRanges]

theorem remaining_of_instruments {plans : BankPlans} {i : Nat} {entry : BankEntry} {bank : Bank}
    (hbank : entry.resource = some bank)
    (h : ∀ shrunk, plans.shrunk? i.toUInt16 = some shrunk → shrunk.instruments = bank.instruments) :
    remaining plans entry i = some bank.instruments := by
  unfold remaining
  rw [hbank]
  cases hshrunk : plans.shrunk? i.toUInt16 with
  | none => rfl
  | some shrunk => simp only [h shrunk hshrunk]

theorem Settled.newBank (h : a.Settled) {i : Nat} {entry : BankEntry}
    (hentry : a.banks.entry? i = some entry) :
    ∃ new, newBank a.bankPlans a.shrunkWaves.toArray entry i = .ok new ∧
      ∀ n, new = some n → entry.resource = some n.1 ∧ entry.body = n.2 := by
  unfold Archive.newBank
  cases hbank : entry.resource with
  | none =>
    have hnone : Archive.remaining a.bankPlans entry i = none := by
      rw [Archive.remaining, hbank]
    rw [hnone]
    exact ⟨none, rfl, by simp⟩
  | some bank =>
    rw [remaining_of_instruments hbank fun shrunk hshrunk =>
      h.instruments i entry bank shrunk hentry hbank (.inr hshrunk)]
    simp only [mapRanges_eq_self (h.renumberWave _), decide_true, Bool.true_and]
    split
    · exact ⟨none, rfl, by simp⟩
    · next hsome =>
      have hencode := h.bodies i entry bank hentry hbank
        (by simpa [Option.isSome_iff_ne_none] using hsome)
      rw [hencode]
      refine ⟨_, rfl, fun n hn => ?_⟩
      cases hn
      exact ⟨rfl, rfl⟩

theorem Settled.newBanks (h : a.Settled) :
    ∃ news, a.newBanks a.bankPlans a.shrunkWaves.toArray = .ok news ∧
      a.banks.replace news = a.banks := by
  have hmapM : ∃ news, a.newBanks a.bankPlans a.shrunkWaves.toArray = .ok news ∧
      List.Forall₂ (fun x new => ∀ entry n, x.1 = some entry → new = some n →
        entry.resource = some n.1 ∧ entry.body = n.2) a.banks.zipIdx news := by
    apply exists_mapM
    rintro ⟨slot, n⟩ hx
    cases slot with
    | none => exact ⟨none, rfl, by simp⟩
    | some entry =>
      obtain ⟨new, hnew, hsame⟩ := h.newBank (i := n)
        (Slots.entry?_eq_some.2 (List.mem_zipIdx_iff_getElem?.1 hx))
      refine ⟨new, hnew, fun entry' n hentry hn => ?_⟩
      cases hentry
      exact hsame n hn
  obtain ⟨news, hnews, hrel⟩ := hmapM
  obtain ⟨hlength, hget⟩ := List.forall₂_iff_get.1 hrel
  rw [List.length_zipIdx] at hlength
  refine ⟨news, hnews, Slots.replace_eq_self hlength.symm fun n entry new hentry hnew => ?_⟩
  rw [Slots.entry?_eq_some] at hentry hnew
  obtain ⟨hn, hentry⟩ := List.getElem?_eq_some_iff.1 hentry
  obtain ⟨hn', hnew⟩ := List.getElem?_eq_some_iff.1 hnew
  exact hget n (by simpa using hn) hn' entry new (by simpa using hentry) hnew

theorem Settled.newWaveArchives (h : a.Settled) :
    a.waveArchives.replace (a.waveArchives.zipWith newWaveArchive a.shrunkWaves)
      = a.waveArchives := by
  refine Slots.replace_eq_self (by simp [shrunkWaves, shrinkWaveArchives]) ?_
  intro n entry new hentry hnew
  have hslot := Slots.entry?_eq_some.1 hentry
  rw [Slots.entry?_eq_some, List.getElem?_zipWith, hslot] at hnew
  cases hshrunk : a.shrunkWaves[n]? with
  | none => simp [hshrunk] at hnew
  | some shrunk =>
    cases shrunk with
    | none => simp [hshrunk, newWaveArchive] at hnew
    | some s =>
      have hsame := (h.waves n s (Slots.entry?_eq_some.2 hshrunk)).2
      rw [hentry, Option.bind_some] at hsame
      simp [hshrunk, newWaveArchive, hsame] at hnew

/-! ### Nothing is lost -/

theorem Settled.lostInstruments (h : a.Settled) :
    (a.banks.zipWith lostInstruments a.bankPlans.toList).foldl (· + ·) 0 = 0 := by
  refine foldl_add_eq_zero fun n hn => ?_
  obtain ⟨i, hi⟩ := List.mem_iff_getElem?.1 hn
  obtain ⟨slot, plan, hslot, hplan, rfl⟩ := List.getElem?_zipWith_eq_some.1 hi
  unfold Archive.lostInstruments
  split
  · next bank shrunk hbank hshrunk =>
    obtain ⟨entry, rfl, hbank⟩ := Option.bind_eq_some_iff.1 hbank
    rw [Array.getElem?_toList] at hplan
    have hsame := h.instruments i entry bank shrunk (Slots.entry?_eq_some.2 hslot) hbank
      (.inl (by rw [hplan, Option.bind_some, hshrunk]))
    rw [hsame, Nat.sub_self]
  · rfl

theorem Settled.lostWaves (h : a.Settled) :
    (a.waveArchives.zipWith lostWaves a.shrunkWaves).foldl (· + ·) 0 = 0 := by
  refine foldl_add_eq_zero fun n hn => ?_
  obtain ⟨i, hi⟩ := List.mem_iff_getElem?.1 hn
  obtain ⟨slot, shrunk, hslot, hshrunk, rfl⟩ := List.getElem?_zipWith_eq_some.1 hi
  unfold Archive.lostWaves
  split
  · next old s hold =>
    obtain ⟨entry, rfl, hentry⟩ := Option.bind_eq_some_iff.1 hold
    have hsame := (h.waves i s (Slots.entry?_eq_some.2 hshrunk)).2
    rw [Slots.entry?_eq_some.2 hslot, Option.bind_some, hentry] at hsame
    rw [Option.some.inj hsame, Nat.sub_self]
  · rfl

theorem collect_eq {sequences : Slots (Sequence × Bytes)} {banks : Slots (Bank × Bytes)}
    (hsequences : a.newSequences a.bankPlans (a.sequences.mapLive scanEntry) = .ok sequences)
    (hbanks : a.newBanks a.bankPlans a.shrunkWaves.toArray = .ok banks) :
    a.collect = .ok
      ({ a with
          sequences := a.sequences.replace sequences
          banks := a.banks.replace banks
          waveArchives := a.waveArchives.replace
            (a.waveArchives.zipWith newWaveArchive a.shrunkWaves) },
        { removedInstruments :=
            (a.banks.zipWith Archive.lostInstruments a.bankPlans.toList).foldl (· + ·) 0
          removedWaves := (a.waveArchives.zipWith Archive.lostWaves a.shrunkWaves).foldl (· + ·) 0
          changedSequences := sequences.liveCount
          wholeBanks := a.bankPlans.toList.countP (·.isWhole) }) := by
  unfold collect
  exact (bind_eq_ok.2 ⟨sequences, hsequences, bind_eq_ok.2 ⟨banks, hbanks, rfl⟩⟩)

/-- Collecting finds nothing to do. -/
theorem collect_of_settled (h : a.Settled) :
    ∃ summary, a.collect = .ok (a, summary) ∧ summary.removedInstruments = 0 ∧
      summary.removedWaves = 0 ∧ summary.changedSequences = 0 := by
  obtain ⟨sequences, hsequences, hreplace, hcount⟩ := h.newSequences
  obtain ⟨banks, hbanks, hsame⟩ := h.newBanks
  have hcollect := collect_eq hsequences hbanks
  rw [hreplace, hsame, h.newWaveArchives] at hcollect
  exact ⟨_, hcollect, h.lostInstruments, h.lostWaves, hcount⟩

end Archive

end SoundArchive
