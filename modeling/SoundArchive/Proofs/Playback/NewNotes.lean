import SoundArchive.Proofs.Playback.Amplitudes
import SoundArchive.Proofs.Playback.Past

/-!
# What a new note owes to the notes before it

Two channels on which the same note starts and goes on in the same way are told apart by what was
on them before only through noise, and through a release that comes before the first update.
-/

namespace SoundArchive.Channel

variable {c d : Channel} {s : Int} {n : UInt32} {updates : Nat}

/-! ## Driving a note -/

/-- What is done to a channel while a note is on it. -/
inductive Call where
  | follow (v : Voice) (baseVolume : Int)
  | update
  | mix
  | retrigger (v : Voice) (key velocity : UInt8) (baseVolume : Int)
  | release

/-- The channel after a call, and the samples that the call gives. -/
def Call.act (c : Channel) : Call → Channel × Option (Int × Int)
  | follow v baseVolume => (c.follow v baseVolume, none)
  | update => (c.update, none)
  | mix => (c.mix.1, some c.mix.2)
  | retrigger v key velocity baseVolume => (c.retrigger v key velocity baseVolume, none)
  | release => (c.letGo, none)

def Call.isUpdate : Call → Bool
  | update => true
  | _ => false

/-- How often the channel is updated. -/
def updatesOf (calls : List Call) : Nat := calls.countP Call.isUpdate

/-- What others see of a channel after a call. -/
structure Seen where
  stage : Stage
  track : Option Nat
  priority : UInt8
  noteLength : Int32
  volume : UInt16
  samples : Option (Int × Int)
deriving DecidableEq

def seen (c : Channel) (samples : Option (Int × Int)) : Seen :=
  { stage := c.stage, track := c.track, priority := c.priority, noteLength := c.noteLength
    volume := c.volume, samples }

/-- What is seen after every call. -/
def watch (c : Channel) : List Call → List Seen
  | [] => []
  | call :: rest => (call.act c).1.seen (call.act c).2 :: watch (call.act c).1 rest

/-- The note is updated before it is released. -/
def UpdatesFirst (calls : List Call) : Prop :=
  ∀ front back, calls = front ++ .release :: back → .update ∈ front

/-! ## Two channels on which the same note is driven -/

/-- A release makes the channel fall silent with its first update. This goes on for so many updates
before the amplitude comes to the lowest one there is. -/
structure FadesFor (updates : Nat) (c : Channel) : Prop where
  quiet : c.amplitude.toInt - c.release.toNat ≤ Curve.silentAmplitude.toInt
  within : -2 ^ 31 ≤ c.amplitude.toInt - updates * c.release.toNat

theorem FadesFor.of_le {fewer : Nat} (h : c.FadesFor updates) (hle : fewer ≤ updates) :
    c.FadesFor fewer := by
  have hfalls : (fewer * c.release.toNat : Int) ≤ updates * c.release.toNat :=
    Int.mul_le_mul_of_nonneg_right (by omega) (by omega)
  have hwithin := h.within
  exact ⟨h.quiet, by omega⟩

/-- What the first of these updates takes off, and what is left for the others. -/
theorem FadesFor.fall (h : c.FadesFor (updates + 1)) {e : Channel}
    (hamplitude : e.amplitude = fallen c.amplitude c.release) (hrelease : e.release = c.release) :
    fallen c.amplitude c.release ≤ Curve.silentAmplitude ∧ e.FadesFor updates := by
  have hwithin := h.within
  have hnonneg := falls_nonneg updates c.release
  rw [falls_succ] at hwithin
  have hfallen := toInt_fallen c.amplitude c.release (by omega)
  have hquiet := h.quiet
  refine ⟨Int32.le_iff_toInt_le.2 (hfallen ▸ hquiet), ?_, ?_⟩
  · rw [hamplitude, hrelease, hfallen]
    omega
  · rw [hamplitude, hrelease, hfallen]
    omega

/-- The channels have started the same note and were not updated since. -/
structure Starting (c d : Channel) : Prop where
  stage : c.stage = .start
  mute : c.Mute
  mute' : d.Mute
  past : ∃ p, d = c.withPast p
  noise : c.source = some .noise → d.registers.noiseSample = c.registers.noiseSample ∧
    d.registers.noisePosition = c.registers.noisePosition

/-- Nothing that the channels do from here on tells them apart, with so many updates at most. -/
inductive Alike (updates : Nat) (c : Channel) : Channel → Prop
  /-- They differ in the noise, and the note is not noise. -/
  | sounding (s : Int) (n : UInt32) (hstage : c.stage ≠ .start)
      (hnoise : c.registers.source = some .noise → c.withNoise s n = c) :
      Alike updates c (c.withNoise s n)
  /-- They make no sound, and are or become silent with the next update. -/
  | fading (p : Past) (hstage : c.stage = .silent ∨ c.stage = .release) (hmute : c.Mute)
      (hmute' : (c.withPast p).Mute) (hfades : c.FadesFor updates)
      (hfades' : (c.withPast p).FadesFor updates) : Alike updates c (c.withPast p)

theorem Alike.seen_eq (h : Alike updates c d) (samples : Option (Int × Int)) :
    c.seen samples = d.seen samples := by
  cases h <;> rfl

theorem Blind.mute {f : Channel → Channel} (hf : Blind f) (h : c.Mute) : (f c).Mute := by
  rw [Mute, hf.registers]
  exact h

theorem Blind.fadesFor {f : Channel → Channel} (hf : Blind f) (h : c.FadesFor updates) :
    (f c).FadesFor updates := by
  have hamplitude : (f c).amplitude = c.amplitude := congrArg Core.amplitude (hf.core c)
  have hrelease : (f c).release = c.release := congrArg Core.release (hf.core c)
  constructor <;> rw [hamplitude, hrelease]
  · exact h.quiet
  · exact h.within

/-- What is blind for the past keeps channels alike, if it starts nothing and leaves them silent or
released. -/
theorem Alike.blind {f : Channel → Channel} (h : Alike updates c d) (hf : Blind f)
    (hstage : (f c).stage = c.stage ∨ (f c).stage = .release) : Alike updates (f c) (f d) := by
  cases h with
  | sounding s n hstart hnoise =>
    rw [hf.withNoise]
    refine .sounding s n ?_ ?_
    · rcases hstage with h | h
      · rwa [h]
      · simp [h]
    · intro hsource
      rw [hf.registers] at hsource
      rw [← hf.withNoise, hnoise hsource]
  | fading p hsilent hmute hmute' hfades hfades' =>
    have hpast := hf.withPast c p
    rw [hpast]
    refine .fading p ?_ (hf.mute hmute) (hpast ▸ hf.mute hmute') (hf.fadesFor hfades)
      (hpast ▸ hf.fadesFor hfades')
    rcases hstage with h | h
    · rwa [h]
    · exact .inr h

theorem Alike.refl (hstage : c.stage ≠ .start) : Alike updates c c :=
  .sounding c.registers.noiseSample c.registers.noisePosition hstage fun _ => rfl

theorem stage_mix_ne (hstage : c.stage ≠ .start) : c.mix.1.stage ≠ .start := by
  have hadvance := stage_advance (c := { c with registers := (sample c.registers).1 })
  intro hmix
  rcases hadvance with h | h
  · exact hstage (h.symm.trans hmix)
  · exact absurd (h.symm.trans hmix) (by simp)

theorem Alike.mix (h : Alike updates c d) :
    Alike updates c.mix.1 d.mix.1 ∧ c.mix.2 = d.mix.2 := by
  cases h with
  | sounding s n hstage hnoise =>
    have hstage' := stage_mix_ne hstage
    by_cases hsource : c.registers.source = some .noise
    · rw [hnoise hsource]
      exact ⟨.refl hstage', rfl⟩
    · rcases mix_withNoise (s := s) (n := n) hsource with hmix | hmix
      · rw [hmix]
        refine ⟨.sounding s n hstage' fun hnoise' => ?_, rfl⟩
        rw [mix_of_tone hsource] at hnoise'
        rcases source_advance (c := c) with h | h
        · exact absurd (h.symm.trans hnoise') hsource
        · exact absurd (h.symm.trans hnoise') (by simp)
      · rw [hmix]
        exact ⟨.refl hstage', rfl⟩
  | fading p hsilent hmute hmute' hfades hfades' =>
    rw [mix_of_mute hmute, mix_of_mute hmute']
    exact ⟨.fading p hsilent hmute hmute' hfades hfades', rfl⟩

theorem update_of_silent (hstage : c.stage = .silent) : c.update = c := by
  simp [update_eq, stepEnvelope, refresh, hstage]

theorem update_of_faded (hstage : c.stage = .release)
    (hfaded : fallen c.amplitude c.release ≤ Curve.silentAmplitude) :
    c.update = { c with amplitude := fallen c.amplitude c.release }.kill := by
  have henvelope : c.stepEnvelope = { c with amplitude := fallen c.amplitude c.release }.kill := by
    rw [stepEnvelope, hstage]
    exact if_pos hfaded
  rw [update_eq, henvelope]
  exact if_pos rfl

theorem Alike.update (h : Alike (updates + 1) c d) : Alike updates c.update d.update := by
  cases h with
  | sounding s n hstage hnoise =>
    obtain ⟨hupdate, hsource', hstage'⟩ := update_withNoise (s := s) (n := n) hstage
    by_cases hsource : c.registers.source = some .noise
    · rw [hnoise hsource]
      exact .refl hstage'
    · rcases hupdate with hupdate | hupdate
      · rw [hupdate]
        refine .sounding s n hstage' fun hnoise' => ?_
        rcases hsource' with h | h
        · exact absurd (h.symm.trans hnoise') hsource
        · exact absurd (h.symm.trans hnoise') (by simp)
      · rw [hupdate]
        exact .refl hstage'
  | fading p hstage hmute hmute' hfades hfades' =>
    rcases hstage with hstage | hstage
    · have hstage' : (c.withPast p).stage = .silent := hstage
      rw [update_of_silent hstage, update_of_silent hstage']
      exact .fading p (.inl hstage) hmute hmute' (hfades.of_le (Nat.le_succ _))
        (hfades'.of_le (Nat.le_succ _))
    · have hstage' : (c.withPast p).stage = .release := hstage
      have hfaded (e : Channel) (he : e.FadesFor (updates + 1)) :=
        he.fall (e := { e with amplitude := fallen e.amplitude e.release }.kill) rfl rfl
      rw [update_of_faded hstage (hfaded c hfades).1, update_of_faded hstage' (hfaded _ hfades').1]
      have hpast : { c.withPast p with
            amplitude := fallen (c.withPast p).amplitude (c.withPast p).release }.kill
          = { c with amplitude := fallen c.amplitude c.release }.kill.withPast
              { c.kill.past with amplitude := fallen p.amplitude c.release } := rfl
      rw [hpast]
      exact .fading _ (.inl rfl) (mute_kill _) (hpast ▸ mute_kill _) (hfaded c hfades).2
        (hpast ▸ (hfaded _ hfades').2)

theorem Alike.act {call : Call} {rest : List Call} (h : Alike (updatesOf (call :: rest)) c d) :
    Alike (updatesOf rest) (call.act c).1 (call.act d).1 ∧ (call.act c).2 = (call.act d).2 := by
  cases call with
  | follow v baseVolume =>
    exact ⟨h.blind (blind_follow v baseVolume)
      ((stage_follow v baseVolume).imp_right And.right), rfl⟩
  | update =>
    have hcount : updatesOf (.update :: rest) = updatesOf rest + 1 := List.countP_cons_of_pos rfl
    rw [hcount] at h
    exact ⟨h.update, rfl⟩
  | mix => exact ⟨h.mix.1, congrArg some h.mix.2⟩
  | retrigger v key velocity baseVolume =>
    exact ⟨h.blind (blind_retrigger v key velocity baseVolume)
      (.inl (stage_retrigger v key velocity baseVolume)), rfl⟩
  | release => exact ⟨h.blind blind_letGo (.inr rfl), rfl⟩

theorem Alike.watch_eq {calls : List Call} (h : Alike (updatesOf calls) c d) :
    c.watch calls = d.watch calls := by
  induction calls generalizing c d with
  | nil => rfl
  | cons call rest ih =>
    obtain ⟨hnext, hsamples⟩ := h.act
    rw [watch, watch, ← hsamples, hnext.seen_eq, ih hnext]

theorem UpdatesFirst.tail {call : Call} {rest : List Call} (h : UpdatesFirst (call :: rest))
    (hcall : call ≠ .update) : UpdatesFirst rest := by
  intro front back hrest
  have hmem := h (call :: front) back (by rw [hrest, List.cons_append])
  rcases List.mem_cons.1 hmem with hupdate | hmem
  · exact absurd hupdate.symm hcall
  · exact hmem

theorem UpdatesFirst.cons {call : Call} {rest : List Call} (hcall : call ≠ .release)
    (h : call = .update ∨ UpdatesFirst rest) : UpdatesFirst (call :: rest) := by
  intro front back hsplit
  cases front with
  | nil => exact absurd (List.cons.inj hsplit).1 hcall
  | cons first front =>
    obtain ⟨rfl, hrest⟩ := List.cons.inj hsplit
    rcases h with rfl | h
    · exact List.mem_cons_self
    · exact List.mem_cons_of_mem _ (h front back hrest)

namespace Starting

theorem blind {f : Channel → Channel} (h : Starting c d) (hf : Blind f)
    (hstage : (f c).stage = c.stage) : Starting (f c) (f d) where
  stage := hstage.trans h.stage
  mute := hf.mute h.mute
  mute' := hf.mute h.mute'
  past := by
    obtain ⟨p, rfl⟩ := h.past
    exact ⟨p, hf.withPast c p⟩
  noise := by
    have hsource : (f c).source = c.source := congrArg Core.source (hf.core c)
    rw [hsource, hf.registers, hf.registers]
    exact h.noise

theorem update (h : Starting c d) : Alike updates c.update d.update := by
  obtain ⟨p, rfl⟩ := h.past
  obtain ⟨hupdate, hsource, hstage⟩ := update_of_start (p := p) h.stage
  rw [hupdate]
  refine .sounding _ _ hstage fun hnoise => ?_
  obtain ⟨hsample, hposition⟩ := h.noise (hsource.symm.trans hnoise)
  have hsame := (update_of_start (p := c.past) h.stage).1
  have hsample : p.noiseSample = c.past.noiseSample := hsample
  have hposition : p.noisePosition = c.past.noisePosition := hposition
  rw [hsample, hposition]
  exact hsame.symm

theorem release (h : Starting c d) (hfades : c.FadesFor updates) (hfades' : d.FadesFor updates) :
    Alike updates c.letGo d.letGo := by
  obtain ⟨p, rfl⟩ := h.past
  exact .fading p (.inr rfl) (blind_letGo.mute h.mute) (blind_letGo.mute h.mute')
    (blind_letGo.fadesFor hfades) (blind_letGo.fadesFor hfades')

/-- Until the note is updated its past is not asked for, unless the note is released. -/
theorem watch_eq (h : Starting c d) {calls : List Call}
    (hcalls : UpdatesFirst calls ∨ c.FadesFor (updatesOf calls) ∧ d.FadesFor (updatesOf calls)) :
    c.watch calls = d.watch calls := by
  have hseen {c d : Channel} (h : Starting c d) (samples : Option (Int × Int)) :
      c.seen samples = d.seen samples := by
    obtain ⟨p, rfl⟩ := h.past
    rfl
  induction calls generalizing c d with
  | nil => rfl
  | cons call rest ih =>
    have hrest : updatesOf rest ≤ updatesOf (call :: rest) := (List.sublist_cons_self ..).countP_le
    have hblind {f : Channel → Channel} (hf : Blind f) (hstage : (f c).stage = c.stage)
        (hcall : call ≠ .update) :
        (f c).seen none :: (f c).watch rest = (f d).seen none :: (f d).watch rest := by
      have hnext := h.blind hf hstage
      rw [hseen hnext, ih hnext (hcalls.imp (·.tail hcall) fun hfades =>
        ⟨(hf.fadesFor hfades.1).of_le hrest, (hf.fadesFor hfades.2).of_le hrest⟩)]
    cases call with
    | follow v baseVolume =>
      refine hblind (blind_follow v baseVolume) ?_ (by simp)
      rcases stage_follow v baseVolume with hstage | ⟨hstage, -⟩
      · exact hstage
      · exact absurd h.stage hstage
    | update =>
      have hnext : Alike (updatesOf rest) c.update d.update := h.update
      simp only [watch, Call.act]
      rw [hnext.seen_eq, hnext.watch_eq]
    | mix =>
      simp only [watch, Call.act, mix_of_mute h.mute, mix_of_mute h.mute']
      rw [hseen h, ih h (hcalls.imp (·.tail (by simp)) fun hfades =>
        ⟨hfades.1.of_le hrest, hfades.2.of_le hrest⟩)]
    | retrigger v key velocity baseVolume =>
      exact hblind (blind_retrigger v key velocity baseVolume)
        (stage_retrigger v key velocity baseVolume) (by simp)
    | release =>
      rcases hcalls with hcalls | ⟨hfades, hfades'⟩
      · exact absurd (hcalls [] rest rfl) (by simp)
      · have hnext := h.release (hfades.of_le hrest) (hfades'.of_le hrest)
        simp only [watch, Call.act]
        rw [hnext.seen_eq, hnext.watch_eq]

end Starting

/-! ## A new note -/

/-- A note that starts on a channel. -/
structure Start where
  source : Source
  range : KeyRange
  voice : Voice
  note : Note
  baseVolume : Int

def begin (c : Channel) (new : Start) : Channel :=
  c.start new.source new.range new.voice new.note new.baseVolume

/-- The channel is taken for a new note, and the note starts. -/
def renew (c : Channel) (new : Start) : Channel := c.claim.begin new

/-- Everything that can be done to a channel. -/
inductive Method where
  | claim
  | start (new : Start)
  | kill
  | drive (call : Call)

def Method.act (c : Channel) : Method → Channel
  | claim => c.claim
  | start new => c.begin new
  | kill => c.kill
  | drive call => (call.act c).1

/-- A channel that went through `past`. -/
def reached (id : Nat) (past : List Method) : Channel := past.foldl Method.act { id }

/-- The registers of the noise are the same. -/
def SameNoise (c d : Channel) : Prop :=
  c.registers.noiseSample = d.registers.noiseSample ∧
    c.registers.noisePosition = d.registers.noisePosition

theorem starting_renew (hid : c.id = d.id) (new : Start)
    (hnoise : new.source = .noise → SameNoise c d) : Starting (c.renew new) (d.renew new) := by
  have hcore (e : Channel) := core_start (c := e.claim) new.source new.range new.voice new.note
    new.baseVolume
  have hsource : (c.renew new).source = some new.source := congrArg Core.source (hcore c)
  have hregisters (e : Channel) : (e.renew new).registers = { e.registers with
      position := new.source.firstPosition, noise := 0x7FFF, increase := 0 } :=
    congrArg Core.registers (hcore e)
  refine ⟨stage_start .., mute_start .., mute_start .., ⟨d.past, start_eq_withPast hid ..⟩, ?_⟩
  intro h
  rw [hsource, Option.some.injEq] at h
  rw [hregisters, hregisters]
  exact ⟨(hnoise h).1.symm, (hnoise h).2.symm⟩

/-- A new note owes nothing to what was on its channel before, as long as it is updated before it
is released. If it is not, what is left of the amplitude there has to be quiet, and far enough from
the lowest one there is for all the updates. A note of noise owes to it what the registers of the
noise were. -/
theorem watch_renew_eq (hid : c.id = d.id) (new : Start) (calls : List Call)
    (hnoise : new.source = .noise → SameNoise c d)
    (hcalls : UpdatesFirst calls ∨
      (c.renew new).FadesFor (updatesOf calls) ∧ (d.renew new).FadesFor (updatesOf calls)) :
    (c.renew new).seen none = (d.renew new).seen none ∧
      (c.renew new).watch calls = (d.renew new).watch calls := by
  have hstarting := starting_renew hid new hnoise
  refine ⟨?_, hstarting.watch_eq hcalls⟩
  obtain ⟨p, hp⟩ := hstarting.past
  rw [hp]
  rfl

/-- A note of noise on a new channel, and on one that is taken from a square wave. -/
theorem watch_renew_eq_of_square :
    let loud (source : Source) : Start :=
      { source
        range := { lowNote := 0, highNote := 127, record := 3, wave := 0, waveArchive := 0
                   baseNote := 60, attack := 127, decay := 127, sustain := 127, release := 64
                   pan := 64 }
        voice := { track := 0, priority := 64, volume := 127 }
        note := { key := 69, velocity := 127, length := 10 }
        baseVolume := 0 }
    let c := reached 15 []
    let d := reached 15 [.start (loud (.square 3)), .drive .update, .drive .mix, .drive .mix]
    let calls : List Call := [.mix, .update, .mix, .mix, .release, .update, .mix]
    d.isActive = true ∧ c.id = d.id ∧ SameNoise c d ∧ UpdatesFirst calls ∧
      (c.renew (loud .noise)).seen none = (d.renew (loud .noise)).seen none ∧
      (c.renew (loud .noise)).watch calls = (d.renew (loud .noise)).watch calls := by
  intro loud c d calls
  have hactive : d.isActive = true := by decide +kernel
  have hid : c.id = d.id := by decide +kernel
  have hnoise : SameNoise c d := by
    constructor
    · decide +kernel
    · decide +kernel
  have hcalls : UpdatesFirst calls := .cons (by simp) (.inr (.cons (by simp) (.inl rfl)))
  exact ⟨hactive, hid, hnoise, hcalls,
    watch_renew_eq hid (loud .noise) calls (fun _ => hnoise) (.inl hcalls)⟩

/-- Noise that takes the channel of other noise goes on with its last sample until it gets beyond
it, and a note that is released at once fades from the amplitude of the note before. -/
theorem watch_renew_ne_of_stolen :
    let loud (source : Source) : Start :=
      { source
        range := { lowNote := 0, highNote := 127, record := 3, wave := 0, waveArchive := 0
                   baseNote := 60, attack := 127, decay := 127, sustain := 127, release := 64
                   pan := 64 }
        voice := { track := 0, priority := 64, volume := 127 }
        note := { key := 69, velocity := 127, length := 10 }
        baseVolume := 0 }
    let c := reached 15 []
    let d := reached 15 [.start (loud .noise), .drive .update, .drive .mix, .drive .mix,
      .drive .mix, .drive .mix, .drive .mix]
    (c.renew (loud .noise)).watch [.update, .mix, .mix]
        ≠ (d.renew (loud .noise)).watch [.update, .mix, .mix] ∧
      (c.renew (loud (.square 3))).watch [.release, .update]
        ≠ (d.renew (loud (.square 3))).watch [.release, .update] := by
  intro loud c d
  constructor
  · intro h
    have hsamples := congrArg (List.map Seen.samples) h
    revert hsamples
    decide +kernel
  · intro h
    have hstages := congrArg (List.map Seen.stage) h
    revert hstages
    decide +kernel

end SoundArchive.Channel
