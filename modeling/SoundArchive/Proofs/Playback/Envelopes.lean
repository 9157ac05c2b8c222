import Mathlib.Data.List.Induction
import Mathlib.Logic.Function.Iterate
import SoundArchive.Proofs.Playback.EnvelopeSteps

/-!
# How envelopes progress

No channel comes to full volume in an attack, and every update of a release takes something off the
amplitude. So both are over after as many updates as there are levels or amplitudes. Only a release
that starts at the lowest amplitudes goes on at the highest ones, and takes longer.
-/

namespace SoundArchive.Channel

open Curve (silentAmplitude)

variable {c d : Channel}

/-! ## What every channel keeps -/

theorem mix_fst (c : Channel) :
    c.mix.1 = { c with registers := (sample c.registers).1 }.advance := rfl

/-- An attack is below full volume, a note that is held is on a level, and there is a release unless
nothing was ever started. -/
structure Shaped (c : Channel) : Prop where
  attack : c.stage = .attack → -92544 ≤ c.amplitude.toInt ∧ c.amplitude.toInt < 0
  held : c.stage = .decay ∨ c.stage = .sustain →
    -4194304 ≤ c.amplitude.toInt ∧ c.amplitude.toInt ≤ 0
  release : c.release ≠ 0 ∨
    c.amplitude = silentAmplitude ∧ (c.stage = .silent ∨ c.stage = .release)

namespace Shaped

theorem congr (h : c.Shaped) (hd : d.contour = c.contour) : d.Shaped := by
  have hstage : d.stage = c.stage := congrArg Contour.stage hd
  have hamplitude : d.amplitude = c.amplitude := congrArg Contour.amplitude hd
  have hrelease : d.release = c.release := congrArg Contour.release hd
  refine ⟨?_, ?_, ?_⟩ <;> rw [hamplitude, hstage]
  · exact h.attack
  · exact h.held
  · rw [hrelease]
    exact h.release

/-- A channel that is silent or released needs no more than a release. -/
theorem of_quiet (hstage : c.stage = .silent ∨ c.stage = .release)
    (hrelease : c.release ≠ 0 ∨ c.amplitude = silentAmplitude) : c.Shaped := by
  refine ⟨fun hattack => ?_, fun hheld => ?_, hrelease.imp_right (⟨·, hstage⟩)⟩
  · rcases hstage with hstage | hstage <;> simp [hstage] at hattack
  · rcases hstage with hstage | hstage <;> simp [hstage] at hheld

/-- So does one that falls silent or is let go. -/
theorem quieten (h : c.Shaped) (hamplitude : d.amplitude = c.amplitude)
    (hrelease : d.release = c.release) (hstage : d.stage = .silent ∨ d.stage = .release) :
    d.Shaped :=
  of_quiet hstage (by rw [hamplitude, hrelease]; exact h.release.imp_right And.left)

theorem blind {f : Channel → Channel} (h : c.Shaped) (hf : Blind f)
    (hstage : (f c).stage = c.stage ∨ (f c).stage = .release) : (f c).Shaped := by
  have hamplitude : (f c).amplitude = c.amplitude := congrArg Core.amplitude (hf.core c)
  have hrelease : (f c).release = c.release := congrArg Core.release (hf.core c)
  rcases hstage with hstage | hstage
  · refine h.congr ?_
    simp only [contour, hstage, hamplitude, hrelease]
  · exact h.quieten hamplitude hrelease (.inr hstage)

theorem mix (h : c.Shaped) : c.mix.1.Shaped := by
  rw [mix_fst, advance_eq]
  cases next? _ with
  | none => exact h.quieten rfl rfl (.inl rfl)
  | some position => exact h.congr rfl

theorem begin (new : Start) : (c.begin new).Shaped := by
  have hstage : (c.begin new).stage = .start := stage_start ..
  have hrelease : (c.begin new).release = _ := congrArg Core.release (core_start ..)
  refine ⟨fun hattack => ?_, fun hheld => ?_, .inl ?_⟩
  · simp [hstage] at hattack
  · simp [hstage] at hheld
  · rw [hrelease]
    exact Curve.fallStep_ne_zero _

theorem below (h : c.Shaped) (hstage : c.stage = .start ∨ c.stage = .attack) : c.Below := by
  rcases hstage with hstage | hstage
  · rw [Below, attackStart, if_pos hstage]
    decide
  · rw [Below, attackStart, if_neg (by simp [hstage])]
    exact h.attack hstage

theorem climbs (h : c.Shaped) (hstage : c.stage = .start ∨ c.stage = .attack) :
    c.Climbs c.update :=
  climbs_update hstage (h.below hstage)

theorem release_ne_zero (h : c.Shaped) (hsilent : c.stage ≠ .silent)
    (hreleased : c.stage ≠ .release) : c.release ≠ 0 :=
  h.release.resolve_right fun hlow => hlow.2.elim hsilent hreleased

/-- A decay ends on the level that is sustained, and does not come below it. -/
theorem decay_bounds (h : c.Shaped) (hstage : c.stage = .decay) :
    -4194304 ≤ c.stepEnvelope.amplitude.toInt ∧ c.stepEnvelope.amplitude.toInt ≤ 0 := by
  have hheld := h.held (.inl hstage)
  have hsustain := c.sustainAmplitude_bounds
  have hfall := c.decay.toNat_lt
  have hfallen := toInt_fallen c.amplitude c.decay (by omega)
  rw [stepEnvelope, hstage]
  dsimp only
  split
  · exact hsustain
  · next hloud =>
    rw [Int32.le_iff_toInt_le] at hloud
    dsimp only
    omega

theorem update (h : c.Shaped) : c.update.Shaped := by
  have hclimb (hstage : c.stage = .start ∨ c.stage = .attack) : c.update.Shaped := by
    have hclimbs := h.climbs hstage
    have hlow := hclimbs.amplitude_low
    have hle := hclimbs.amplitude_nonpos
    refine ⟨fun hattack => ⟨hlow, ?_⟩, fun _ => ⟨by omega, hle⟩, .inl ?_⟩
    · rw [hclimbs.stage] at hattack
      have hne : c.update.amplitude ≠ 0 := fun hzero => by simp [hzero] at hattack
      have hne' : c.update.amplitude.toInt ≠ 0 := fun hzero => hne (Int32.toInt_inj.1 hzero)
      omega
    · rw [hclimbs.release]
      rcases hstage with hstage | hstage <;>
        exact h.release_ne_zero (by simp [hstage]) (by simp [hstage])
  cases hstage : c.stage with
  | silent | sustain =>
    refine h.congr (contour_update.trans ?_)
    rw [stepEnvelope, hstage]
  | start => exact hclimb (.inl hstage)
  | attack => exact hclimb (.inr hstage)
  | decay =>
    have hbounds := h.decay_bounds hstage
    have hrelease := h.release_ne_zero (by simp [hstage]) (by simp [hstage])
    have hstep : c.stepEnvelope.stage ≠ .attack ∧ c.stepEnvelope.release = c.release := by
      rw [stepEnvelope, hstage]
      dsimp only
      split <;> exact ⟨by simp, rfl⟩
    refine Shaped.congr ⟨fun hattack => absurd hattack hstep.1, fun _ => hbounds, .inl ?_⟩
      contour_update
    rw [hstep.2]
    exact hrelease
  | release =>
    obtain ⟨hamplitude, hrelease, hafter⟩ := update_of_release hstage
    refine of_quiet ?_ ?_
    · rw [hafter]
      split
      · exact .inl rfl
      · exact .inr rfl
    · rw [hamplitude, hrelease]
      rcases h.release with hpos | ⟨hlow, -⟩
      · exact .inl hpos
      · by_cases hzero : c.release = 0
        · rw [hlow, hzero]
          exact .inr rfl
        · exact .inl hzero

theorem act (h : c.Shaped) (method : Method) : (method.act c).Shaped := by
  cases method with
  | claim => exact h.congr rfl
  | start new => exact begin new
  | kill => exact h.quieten rfl rfl (.inl rfl)
  | drive call =>
    cases call with
    | follow v baseVolume =>
      exact h.blind (blind_follow v baseVolume) ((stage_follow v baseVolume).imp_right And.right)
    | update => exact h.update
    | mix => exact h.mix
    | retrigger v key velocity baseVolume =>
      exact h.blind (blind_retrigger v key velocity baseVolume)
        (.inl (stage_retrigger v key velocity baseVolume))
    | release => exact h.quieten rfl rfl (.inr rfl)

end Shaped

variable {id : Nat} {past : List Method}

/-- The next update takes the amplitude of a release below the lowest one there is. -/
def Overflows (c : Channel) : Prop :=
  c.stage = .release ∧ c.amplitude.toInt - c.release.toNat < -2 ^ 31

/-- No update of the past did that. -/
def Calm (id : Nat) (past : List Method) : Prop :=
  ∀ front back, past = front ++ .drive .update :: back → ¬ (reached id front).Overflows

theorem Calm.front {back : List Method} (h : Calm id (past ++ back)) : Calm id past := by
  intro front rest hsplit
  exact h front (rest ++ back) (by rw [hsplit, List.append_assoc, List.cons_append])

def Method.isUpdate : Method → Bool
  | drive call => call.isUpdate
  | _ => false

/-- The channel is silent, and belongs to nobody. -/
structure Free (c : Channel) : Prop where
  stage : c.stage = .silent
  track : c.track = none
  priority : c.priority = 0

theorem Free.updates (h : c.Free) (n : Nat) : update^[n] c = c := by
  induction n with
  | zero => rfl
  | succ n ih => rw [Function.iterate_succ_apply, update_of_silent h.stage, ih]

theorem Free.of_le {n m : Nat} (h : (update^[n] c).Free) (hle : n ≤ m) : (update^[m] c).Free := by
  obtain ⟨k, rfl⟩ := Nat.exists_eq_add_of_le' hle
  rw [Function.iterate_add_apply, h.updates]
  exact h

/-- What a release of the note takes off each time. -/
def Start.fall (new : Start) : UInt16 :=
  Curve.fallStep (new.voice.envelope.resolve new.range).release

end SoundArchive.Channel
