import SoundArchive.Playback.Channel.Mix

/-!
# The past of a channel

A note may start on a channel that plays another. What the start leaves there is the amplitude and
most of the registers. Few calls ask for any of it before the first update, which writes all but the
registers of the noise, and behind the first update only noise asks for those.
-/

namespace SoundArchive

/-- What the start of a note leaves as it was. -/
structure Past where
  amplitude : Int32
  source : Option Source
  volume : UInt8
  divider : UInt8
  pan : UInt8
  noiseSample : Int
  noisePosition : UInt32

namespace Channel

variable {c d : Channel} {p : Past}

/-! ## The past of a channel -/

def past (c : Channel) : Past :=
  { amplitude := c.amplitude, source := c.registers.source, volume := c.registers.volume
    divider := c.registers.divider, pan := c.registers.pan
    noiseSample := c.registers.noiseSample, noisePosition := c.registers.noisePosition }

def withPast (c : Channel) (p : Past) : Channel :=
  { c with
    amplitude := p.amplitude
    registers := { c.registers with
      source := p.source, volume := p.volume, divider := p.divider, pan := p.pan
      noiseSample := p.noiseSample, noisePosition := p.noisePosition } }

def withNoise (c : Channel) (sample : Int) (position : UInt32) : Channel :=
  { c with registers := { c.registers with noiseSample := sample, noisePosition := position } }

theorem withNoise_eq_withPast (c : Channel) (s : Int) (n : UInt32) :
    c.withNoise s n = c.withPast { c.past with noiseSample := s, noisePosition := n } := rfl

theorem start_eq_withPast (hid : c.id = d.id) (source : Source) (range : KeyRange) (v : Voice)
    (note : Note) (baseVolume : Int) :
    d.claim.start source range v note baseVolume
      = (c.claim.start source range v note baseVolume).withPast d.past := by
  cases c
  cases d
  subst hid
  unfold start followPortamento
  dsimp only [followModulation, followTune, followPan, followVolume, clearDue, claim]
  split
  · rfl
  · split <;> rfl

/-! ## Calls that neither ask for the past nor change it -/

/-- What only updates and samples change. -/
structure Core where
  amplitude : Int32
  source : Option Source
  release : UInt16
  registers : Registers

def core (c : Channel) : Core :=
  { amplitude := c.amplitude, source := c.source, release := c.release, registers := c.registers }

structure Blind (f : Channel → Channel) : Prop where
  withPast : ∀ c p, f (c.withPast p) = (f c).withPast p
  core : ∀ c, (f c).core = c.core

namespace Blind

variable {f g : Channel → Channel}

theorem same : Blind fun c => c := ⟨fun _ _ => rfl, fun _ => rfl⟩

theorem comp (hg : Blind g) (hf : Blind f) : Blind fun c => g (f c) where
  withPast c p := by rw [hf.withPast, hg.withPast]
  core c := (hg.core _).trans (hf.core c)

theorem cond (q : Channel → Prop) [∀ c, Decidable (q c)] (hq : ∀ c p, q (c.withPast p) ↔ q c)
    (hf : Blind f) (hg : Blind g) : Blind fun c => if q c then f c else g c where
  withPast c p := by
    by_cases h : q c
    · simp only [hq, h, if_true, hf.withPast]
    · simp only [hq, h, if_false, hg.withPast]
  core c := by
    split
    · exact hf.core c
    · exact hg.core c

theorem registers (h : Blind f) (c : Channel) : (f c).registers = c.registers :=
  congrArg Core.registers (h.core c)

theorem past (h : Blind f) (c : Channel) : (f c).past = c.past :=
  congrArg (fun core => Past.mk core.amplitude core.registers.source core.registers.volume
    core.registers.divider core.registers.pan core.registers.noiseSample
    core.registers.noisePosition) (h.core c)

theorem withNoise (h : Blind f) (c : Channel) (s : Int) (n : UInt32) :
    f (c.withNoise s n) = (f c).withNoise s n := by
  rw [withNoise_eq_withPast, h.withPast, ← h.past c]
  rfl

end Blind

theorem blind_letGo : Blind letGo := ⟨fun _ _ => rfl, fun _ => rfl⟩

theorem blind_followVolume (v : Voice) (baseVolume : Int) : Blind (followVolume · v baseVolume) :=
  ⟨fun _ _ => rfl, fun _ => rfl⟩

theorem blind_followTune (v : Voice) : Blind (followTune · v) := ⟨fun _ _ => rfl, fun _ => rfl⟩

theorem blind_followModulation (v : Voice) : Blind (followModulation · v) :=
  ⟨fun _ _ => rfl, fun _ => rfl⟩

theorem blind_followPortamento (v : Voice) : Blind (followPortamento · v) := by
  unfold followPortamento
  refine .cond _ (fun _ _ => Iff.rfl) ⟨fun _ _ => rfl, fun _ => rfl⟩ ?_
  exact .cond _ (fun _ _ => Iff.rfl) ⟨fun _ _ => rfl, fun _ => rfl⟩ ⟨fun _ _ => rfl, fun _ => rfl⟩

theorem blind_retrigger (v : Voice) (key velocity : UInt8) (baseVolume : Int) :
    Blind (retrigger · v key velocity baseVolume) := by
  have hkey : Blind fun c => { c.clearDue with
      priority := v.priority, key, velocity := Curve.level velocity, modulationDelay := 0
      modulationCounter := 0 } := ⟨fun _ _ => rfl, fun _ => rfl⟩
  have hdue : Blind fun c => { c with timerDue := true } := ⟨fun _ _ => rfl, fun _ => rfl⟩
  exact hdue.comp ((blind_followPortamento v).comp ((blind_followModulation v).comp
    ((blind_followTune v).comp ((blind_followVolume v baseVolume).comp hkey))))

theorem blind_countRun : Blind countRun := by
  have hshorter : Blind fun c => { c with noteLength := c.noteLength - 1 } :=
    ⟨fun _ _ => rfl, fun _ => rfl⟩
  have hended : Blind fun c => if c.noteLength = 0 then c.letGo else c :=
    .cond _ (fun _ _ => Iff.rfl) blind_letGo .same
  have hsweep : Blind fun c => if c.manualSweep ∧ c.sweepCount < c.sweepLength then
      { c with sweepCount := c.sweepCount + 1 } else c :=
    .cond _ (fun _ _ => Iff.rfl) ⟨fun _ _ => rfl, fun _ => rfl⟩ .same
  exact .cond (fun c => c.stage = .silent ∨ c.stage = .start) (fun _ _ => Iff.rfl) .same
    (hsweep.comp (.cond (fun c => c.stage = .release) (fun _ _ => Iff.rfl) .same
      (hended.comp hshorter)))

theorem blind_follow (v : Voice) (baseVolume : Int) : Blind (follow · v baseVolume) := by
  have hflag (b : Bool) {f : Channel → Channel} (hf : Blind f) :
      Blind fun c => if b then f c else c :=
    .cond _ (fun _ _ => Iff.rfl) hf .same
  have hvolume : Blind fun c => { c.followVolume v baseVolume with volumeDue := true } :=
    ⟨fun _ _ => rfl, fun _ => rfl⟩
  have hpan : Blind fun c => { c.followPan v with panDue := true } :=
    ⟨fun _ _ => rfl, fun _ => rfl⟩
  have htimer : Blind fun c => { c.followTune v with timerDue := true } :=
    ⟨fun _ _ => rfl, fun _ => rfl⟩
  have hmodulation : Blind fun c =>
      if c.modulation.kind = v.modulation.kind then c.followModulation v
      else { c.followModulation v with volumeDue := true, panDue := true, timerDue := true } :=
    .cond _ (fun _ _ => Iff.rfl) (blind_followModulation v) ⟨fun _ _ => rfl, fun _ => rfl⟩
  exact (hflag v.updates.modulation hmodulation).comp ((hflag v.updates.timer htimer).comp
    ((hflag v.updates.pan hpan).comp ((hflag v.updates.volume hvolume).comp
      (hflag v.updates.length blind_countRun))))

/-! ## Stages -/

theorem stage_followPortamento (v : Voice) : (c.followPortamento v).stage = c.stage := by
  unfold followPortamento
  split
  · rfl
  · split <;> rfl

theorem stage_retrigger (v : Voice) (key velocity : UInt8) (baseVolume : Int) :
    (c.retrigger v key velocity baseVolume).stage = c.stage :=
  stage_followPortamento v

theorem stage_countRun :
    c.countRun.stage = c.stage ∨ c.stage ≠ .start ∧ c.countRun.stage = .release := by
  by_cases hidle : c.stage = .silent ∨ c.stage = .start
  · rw [countRun, if_pos hidle]
    exact .inl rfl
  · have hsweep (e : Channel) : (if e.manualSweep ∧ e.sweepCount < e.sweepLength then
        { e with sweepCount := e.sweepCount + 1 } else e).stage = e.stage := by
      split <;> rfl
    have hstart : c.stage ≠ .start := fun h => hidle (.inr h)
    rw [countRun, if_neg hidle, hsweep]
    split
    · exact .inl rfl
    · dsimp only
      split
      · exact .inr ⟨hstart, rfl⟩
      · exact .inl rfl

theorem stage_follow (v : Voice) (baseVolume : Int) : (c.follow v baseVolume).stage = c.stage ∨
    c.stage ≠ .start ∧ (c.follow v baseVolume).stage = .release := by
  have hflag (b : Bool) {f : Channel → Channel} (hf : ∀ c, (f c).stage = c.stage) (c : Channel) :
      (if b then f c else c).stage = c.stage := by
    cases b
    · rfl
    · exact hf c
  have hvolume (c : Channel) :
      Channel.stage { c.followVolume v baseVolume with volumeDue := true } = c.stage := rfl
  have hpan (c : Channel) : Channel.stage { c.followPan v with panDue := true } = c.stage := rfl
  have htimer (c : Channel) :
      Channel.stage { c.followTune v with timerDue := true } = c.stage := rfl
  have hmodulation (c : Channel) : Channel.stage
      (if c.modulation.kind = v.modulation.kind then c.followModulation v
        else { c.followModulation v with volumeDue := true, panDue := true, timerDue := true })
        = c.stage := by
    split <;> rfl
  have hrest : (c.follow v baseVolume).stage
      = (if v.updates.length then c.countRun else c).stage :=
    (hflag v.updates.modulation hmodulation _).trans ((hflag v.updates.timer htimer _).trans
      ((hflag v.updates.pan hpan _).trans (hflag v.updates.volume hvolume _)))
  rw [hrest]
  split
  · exact stage_countRun
  · exact .inl rfl

/-! ## Silence while the hardware starts, and on a channel that fell silent -/

/-- The channel stands still, either in front of its first sample or without a source. -/
def Mute (c : Channel) : Prop :=
  c.registers.increase = 0 ∧ (c.registers.position = -3 ∨ c.registers.position = -1 ∨
    c.registers.position = 0 ∧ c.registers.source = none)

theorem core_start (source : Source) (range : KeyRange) (v : Voice) (note : Note)
    (baseVolume : Int) : (c.start source range v note baseVolume).core =
      { amplitude := c.amplitude, source := some source
        release := Curve.fallStep (v.envelope.resolve range).release
        registers := { c.registers with
          position := source.firstPosition, noise := 0x7FFF, increase := 0 } } :=
  (blind_followPortamento v).core _

theorem stage_start (source : Source) (range : KeyRange) (v : Voice) (note : Note)
    (baseVolume : Int) : (c.start source range v note baseVolume).stage = .start :=
  stage_followPortamento v

theorem mute_start (source : Source) (range : KeyRange) (v : Voice) (note : Note)
    (baseVolume : Int) : (c.start source range v note baseVolume).Mute := by
  have hregisters := congrArg Core.registers (core_start (c := c) source range v note baseVolume)
  have hincrease := congrArg Registers.increase hregisters
  have hposition := congrArg Registers.position hregisters
  refine ⟨hincrease, ?_⟩
  cases source with
  | pcm wave => exact .inl hposition
  | square duty => exact .inr (.inl hposition)
  | noise => exact .inr (.inl hposition)

theorem mute_kill (c : Channel) : c.kill.Mute := ⟨rfl, .inr (.inr ⟨rfl, rfl⟩)⟩

theorem sample_of_mute (h : c.Mute) : sample c.registers = (c.registers, 0) := by
  have hthree : (-3 : Float) < 0 := by decide +kernel
  have hone : (-1 : Float) < 0 := by decide +kernel
  rw [sample]
  obtain ⟨-, hposition | hposition | ⟨hposition, hsource⟩⟩ := h
  · rw [hposition, if_pos hthree]
  · rw [hposition, if_pos hone]
  · split
    · rfl
    · rw [hsource]

theorem advance_of_mute (h : c.Mute) : c.advance = c := by
  have hthree : ¬ (-3 : Float) ≥ 0 ∧ (-3 : Float) + 0 = -3 := by decide +kernel
  have hone : ¬ (-1 : Float) ≥ 0 ∧ (-1 : Float) + 0 = -1 := by decide +kernel
  have hzero : (0 : Float) + 0 = 0 := by decide +kernel
  obtain ⟨hincrease, hposition⟩ := h
  have hstill : c.registers.position + c.registers.increase = c.registers.position := by
    rw [hincrease]
    rcases hposition with h | h | ⟨h, -⟩ <;> rw [h]
    · exact hthree.2
    · exact hone.2
    · exact hzero
  have hmoved : { c with registers := { c.registers with
      position := c.registers.position + c.registers.increase } } = c := by
    rw [hstill]
  unfold advance
  split
  next wave hwave =>
    have hbefore : ¬ c.registers.position ≥ 0 := by
      rcases hposition with h | h | ⟨-, hnone⟩
      · exact h ▸ hthree.1
      · exact h ▸ hone.1
      · rw [hnone] at hwave
        cases hwave
    rw [if_neg (fun h => hbefore h.1)]
    exact hmoved
  next => exact hmoved

theorem mix_of_mute (h : c.Mute) : c.mix = (c, 0, 0) := by
  have hscale (factor : UInt8) : Curve.scale7 0 factor = 0 := by
    unfold Curve.scale7
    split
    · rfl
    · simp
  have hshift (n : Nat) : (0 : Int) >>> n = 0 := by simp
  simp only [mix, sample_of_mute h, advance_of_mute h, hscale, hshift]

/-! ## Behind the first update nothing asks for the past, but noise does -/

variable {s : Int} {n : UInt32}

/-- The sample of registers whose source is no noise. -/
def toneSample (r : Registers) : Int :=
  if r.position < 0 then 0
  else
    match r.source with
    | some (.pcm wave) => (wave.samples.getD r.position.toUInt32.toNat 0).toInt
    | some (.square duty) => Curve.squareWave duty r.position.toUInt32
    | _ => 0

theorem sample_of_tone {r : Registers} (h : r.source ≠ some .noise) :
    sample r = (r, toneSample r) := by
  unfold sample toneSample
  split
  · rfl
  · rcases hsource : r.source with _ | _ | _ | _
    · rfl
    · rfl
    · rfl
    · exact absurd hsource h

/-- What the registers make of a sample, left and right. -/
def panned (value : Int) (r : Registers) : Int × Int :=
  let scaled := Curve.scale7 value r.volume >>> Curve.dividerShift r.divider
  (Curve.scale7 scaled (127 - r.pan), Curve.scale7 scaled r.pan)

theorem mix_of_tone (h : c.registers.source ≠ some .noise) :
    c.mix = (c.advance, panned (toneSample c.registers) c.advance.registers) := by
  rw [mix, sample_of_tone h]
  rfl

/-- The next position, none at the end of a wave without a loop. -/
def next? (r : Registers) : Option Float :=
  let position := r.position + r.increase
  match r.source with
  | some (.pcm wave) =>
    let start := wave.loopStart.toFloat
    let length := wave.loopLength.toFloat
    if r.position ≥ 0 ∧ position ≥ start + length then
      if wave.looped ∧ length > 0 then
        some (start + Remainder.remainder (position - start) length)
      else none
    else some position
  | _ => some position

theorem advance_eq : c.advance = (next? c.registers).elim c.kill fun position =>
    { c with registers := { c.registers with position } } := by
  unfold advance next?
  rcases hsource : c.registers.source with _ | wave | duty | _
  · rfl
  · by_cases hend : c.registers.position ≥ 0 ∧ c.registers.position + c.registers.increase
        ≥ wave.loopStart.toFloat + wave.loopLength.toFloat
    · by_cases hlooped : wave.looped ∧ wave.loopLength.toFloat > 0
      · simp only [hend, hlooped, and_self, if_true, Option.elim_some]
      · simp only [hend, hlooped, and_self, if_true, if_false, Option.elim_none]
    · simp only [hend, if_false, Option.elim_some]
  · rfl
  · rfl

theorem advance_withNoise : (c.withNoise s n).advance = c.advance.withNoise s n ∨
    (c.withNoise s n).advance = c.advance := by
  have hnext : next? (c.withNoise s n).registers = next? c.registers := rfl
  rw [advance_eq, advance_eq, hnext]
  cases next? c.registers with
  | none => exact .inr rfl
  | some position => exact .inl rfl

theorem source_advance :
    c.advance.registers.source = c.registers.source ∨ c.advance.registers.source = none := by
  rw [advance_eq]
  cases next? c.registers with
  | none => exact .inr rfl
  | some position => exact .inl rfl

theorem stage_advance : c.advance.stage = c.stage ∨ c.advance.stage = .silent := by
  rw [advance_eq]
  cases next? c.registers with
  | none => exact .inr rfl
  | some position => exact .inl rfl

theorem mix_withNoise (h : c.registers.source ≠ some .noise) :
    (c.withNoise s n).mix = (c.mix.1.withNoise s n, c.mix.2) ∨ (c.withNoise s n).mix = c.mix := by
  have hnoise : (c.withNoise s n).registers.source ≠ some .noise := h
  have htone : toneSample (c.withNoise s n).registers = toneSample c.registers := rfl
  rw [mix_of_tone hnoise, mix_of_tone h, htone]
  rcases advance_withNoise (c := c) (s := s) (n := n) with hadvance | hadvance
  · left
    rw [hadvance]
    rfl
  · right
    rw [hadvance]

/-! ## The first update writes what the start left -/

/-- Writes the registers that are due. -/
def refreshDue (c : Channel) (sweeping : Bool) (swing : Option Int) (timer volume pan : Bool) :
    Channel :=
  let c := if timer then c.refreshTimer sweeping swing else c
  let c := if volume then c.refreshVolume swing else c
  if pan then c.refreshPan swing else c

/-- An update behind the step of the envelope. -/
def refresh (c : Channel) (sweeping timer volume pan : Bool) : Channel :=
  if c.stage = .silent then c
  else
    let (c, swing) := c.stepModulation
    let swings := fun (kind : UInt8) => swing.isSome && c.modulation.kind == kind
    c.refreshDue sweeping swing (timer || swings 0) (volume || swings 1) (pan || swings 2)

theorem update_eq (c : Channel) : c.update = c.stepEnvelope.refresh c.isSweeping
    (c.timerDue || c.stage = .start || c.isSweeping) (c.volumeDue || c.stage ≠ .sustain)
    (c.panDue || c.stage = .start) := rfl

theorem blind_stepModulation : Blind fun c => c.stepModulation.1 := by
  have hdelayed : Blind fun c => { c with modulationDelay := c.modulationDelay + 1 } :=
    ⟨fun _ _ => rfl, fun _ => rfl⟩
  have hcounted : Blind fun c => { c with
      modulationCounter := advanceCounter c.modulationCounter c.modulation.speed } :=
    ⟨fun _ _ => rfl, fun _ => rfl⟩
  simp only [stepModulation, apply_ite Prod.fst]
  exact .cond (fun c => c.modulation.depth = 0) (fun _ _ => Iff.rfl) .same
    (.cond (fun c => c.modulationDelay < c.modulation.delay) (fun _ _ => Iff.rfl) hdelayed hcounted)

theorem stepModulation_withPast : (c.withPast p).stepModulation
    = (c.stepModulation.1.withPast p, c.stepModulation.2) := by
  have hswing : (c.withPast p).stepModulation.2 = c.stepModulation.2 := by
    simp only [stepModulation, apply_ite Prod.snd]
    rfl
  exact Prod.ext (blind_stepModulation.withPast c p) hswing

theorem past_stepModulation : c.stepModulation.1.past = c.past := blind_stepModulation.past c

theorem refresh_withNoise {sweeping timer volume pan : Bool} :
    (c.withNoise s n).refresh sweeping timer volume pan
      = (c.refresh sweeping timer volume pan).withNoise s n := by
  have hdue (c : Channel) (swing : Option Int) (timer volume pan : Bool) :
      (c.withNoise s n).refreshDue sweeping swing timer volume pan
        = (c.refreshDue sweeping swing timer volume pan).withNoise s n := by
    cases timer <;> cases volume <;> cases pan <;> rfl
  have hmodulation : (c.withNoise s n).stepModulation
      = (c.stepModulation.1.withNoise s n, c.stepModulation.2) := by
    refine Prod.ext (blind_stepModulation.withNoise c s n) ?_
    rw [withNoise_eq_withPast, stepModulation_withPast]
  have hstage : (c.withNoise s n).stage = c.stage := rfl
  unfold refresh
  rw [hstage, hmodulation]
  split
  · rfl
  · exact hdue _ _ _ _ _

theorem source_refresh {sweeping timer volume pan : Bool} :
    (c.refresh sweeping timer volume pan).registers.source = c.registers.source := by
  have htimer (c : Channel) (swing : Option Int) :
      (c.refreshTimer sweeping swing).registers.source = c.registers.source := by
    simp only [refreshTimer]
  have hvolume (c : Channel) (swing : Option Int) :
      (c.refreshVolume swing).registers.source = c.registers.source := by
    simp only [refreshVolume]
  have hpan (c : Channel) (swing : Option Int) :
      (c.refreshPan swing).registers.source = c.registers.source := by
    simp only [refreshPan]
  have hdue (c : Channel) (swing : Option Int) (timer volume pan : Bool) :
      (c.refreshDue sweeping swing timer volume pan).registers.source = c.registers.source := by
    unfold refreshDue
    cases timer <;> cases volume <;> cases pan <;> simp only [htimer, hvolume, hpan, if_true,
      if_false, Bool.false_eq_true]
  unfold refresh
  split
  · rfl
  · exact (hdue _ _ _ _ _).trans (congrArg Past.source past_stepModulation)

theorem stage_refresh {sweeping timer volume pan : Bool} :
    (c.refresh sweeping timer volume pan).stage = c.stage := by
  have hdue (c : Channel) (swing : Option Int) (timer volume pan : Bool) :
      (c.refreshDue sweeping swing timer volume pan).stage = c.stage := by
    cases timer <;> cases volume <;> cases pan <;> rfl
  have hmodulation : c.stepModulation.1.stage = c.stage := by
    unfold stepModulation
    split
    · rfl
    · split <;> rfl
  unfold refresh
  split
  · rfl
  · exact (hdue _ _ _ _ _).trans hmodulation

/-- With everything due, only the noise is not written. -/
theorem refresh_withPast (hstage : c.stage ≠ .silent) (hamplitude : p.amplitude = c.amplitude)
    (hsource : p.source = c.registers.source) {sweeping : Bool} :
    (c.withPast p).refresh sweeping true true true
      = (c.refresh sweeping true true true).withNoise p.noiseSample p.noisePosition := by
  have hpast := past_stepModulation (c := c)
  have hdue (c : Channel) (swing : Option Int) (hamplitude : p.amplitude = c.amplitude)
      (hsource : p.source = c.registers.source) :
      (c.withPast p).refreshDue sweeping swing true true true
        = (c.refreshDue sweeping swing true true true).withNoise p.noiseSample p.noisePosition := by
    obtain ⟨amplitude, source, volume, divider, pan, s, n⟩ := p
    obtain rfl : amplitude = c.amplitude := hamplitude
    obtain rfl : source = c.registers.source := hsource
    rfl
  have hstage' : (c.withPast p).stage = c.stage := rfl
  unfold refresh
  rw [hstage', stepModulation_withPast, if_neg hstage, if_neg hstage]
  exact hdue _ _ (hamplitude.trans (congrArg Past.amplitude hpast).symm)
    (hsource.trans (congrArg Past.source hpast).symm)

/-- In the first update of a note the registers of the noise are the only past that shows. -/
theorem update_of_start (hstage : c.stage = .start) :
    (c.withPast p).update = c.update.withNoise p.noiseSample p.noisePosition ∧
      c.update.registers.source = c.source ∧ c.update.stage ≠ .start := by
  -- What the step of the envelope leaves of the past, the registers that are due overwrite.
  let rest : Past := { c.stepEnvelope.past with
    volume := p.volume, divider := p.divider, pan := p.pan, noiseSample := p.noiseSample
    noisePosition := p.noisePosition }
  have henvelope : (c.withPast p).stepEnvelope = c.stepEnvelope.withPast rest := by
    have hstage' : (c.withPast p).stage = .start := hstage
    simp only [rest, stepEnvelope, hstage, hstage']
    rfl
  have hsource : c.stepEnvelope.registers.source = c.source := by
    simp only [stepEnvelope, hstage]
    rfl
  have hattack : c.stepEnvelope.stage = .decay ∨ c.stepEnvelope.stage = .attack := by
    simp only [stepEnvelope, hstage, attackStep]
    split
    · exact .inl rfl
    · exact .inr rfl
  have hupdate (d : Channel) (hd : d.stage = .start) :
      d.update = d.stepEnvelope.refresh d.isSweeping true true true := by
    simp [update_eq, hd]
  have hstage' : (c.withPast p).stage = .start := hstage
  have hsilent : c.stepEnvelope.stage ≠ .silent := by
    rcases hattack with h | h <;> simp [h]
  rw [hupdate _ hstage', hupdate c hstage, henvelope]
  refine ⟨refresh_withPast hsilent rfl rfl, source_refresh.trans hsource, ?_⟩
  rw [stage_refresh]
  rcases hattack with h | h <;> simp [h]

/-- Behind the first update the registers of the noise stay as much past as they were. -/
theorem update_withNoise (hstage : c.stage ≠ .start) :
    ((c.withNoise s n).update = c.update.withNoise s n ∨ (c.withNoise s n).update = c.update) ∧
      (c.update.registers.source = c.registers.source ∨ c.update.registers.source = none) ∧
      c.update.stage ≠ .start := by
  have henvelope : ((c.withNoise s n).stepEnvelope = c.stepEnvelope.withNoise s n ∨
      (c.withNoise s n).stepEnvelope = c.stepEnvelope) ∧
      (c.stepEnvelope.registers.source = c.registers.source ∨
        c.stepEnvelope.registers.source = none) ∧ c.stepEnvelope.stage ≠ .start := by
    have hstage' : (c.withNoise s n).stage = c.stage := rfl
    unfold stepEnvelope
    rw [hstage']
    cases h : c.stage with
    | silent | sustain => exact ⟨.inl rfl, .inl rfl, by simp [h]⟩
    | start => exact absurd h hstage
    | attack =>
      refine ⟨.inl rfl, .inl rfl, ?_⟩
      unfold attackStep
      dsimp only
      split <;> simp [h]
    | decay =>
      by_cases hlow : fallen c.amplitude c.decay ≤ c.sustainAmplitude
      · have hlow' : fallen (c.withNoise s n).amplitude (c.withNoise s n).decay
            ≤ (c.withNoise s n).sustainAmplitude := hlow
        rw [if_pos hlow, if_pos hlow']
        exact ⟨.inl rfl, .inl rfl, by simp⟩
      · have hlow' : ¬ fallen (c.withNoise s n).amplitude (c.withNoise s n).decay
            ≤ (c.withNoise s n).sustainAmplitude := hlow
        rw [if_neg hlow, if_neg hlow']
        exact ⟨.inl rfl, .inl rfl, by simp⟩
    | release =>
      by_cases hlow : fallen c.amplitude c.release ≤ Curve.silentAmplitude
      · have hlow' : fallen (c.withNoise s n).amplitude (c.withNoise s n).release
            ≤ Curve.silentAmplitude := hlow
        rw [if_pos hlow, if_pos hlow']
        exact ⟨.inr rfl, .inr rfl, by simp [kill]⟩
      · have hlow' : ¬ fallen (c.withNoise s n).amplitude (c.withNoise s n).release
            ≤ Curve.silentAmplitude := hlow
        rw [if_neg hlow, if_neg hlow']
        exact ⟨.inl rfl, .inl rfl, by simp⟩
  obtain ⟨hstep, hsource, hstart⟩ := henvelope
  rw [update_eq, update_eq, source_refresh, stage_refresh]
  refine ⟨?_, hsource, hstart⟩
  rcases hstep with hstep | hstep
  · left
    rw [hstep, refresh_withNoise]
    rfl
  · right
    rw [hstep]
    rfl

end Channel

end SoundArchive
