import SoundArchive.Proofs.Playback.NewNotes

/-!
# Steps of envelopes

An attack multiplies until the level of the amplitude changes, which it would wait for in vain at
full volume. Below full volume every update of an attack gains a level.
-/

namespace SoundArchive.Channel

open Curve (silentAmplitude)

variable {c d : Channel}

/-! ## The loop of an attack -/

/-- The loop of an attack that leaves `level` goes from one amplitude to another. It goes on until
it is on another level. -/
inductive AttackLoop (factor : UInt8) (level : Int) : Int32 → Int32 → Prop where
  | leave {a : Int32} (h : levelOf (attenuated a factor) ≠ level) :
    AttackLoop factor level a (attenuated a factor)
  | again {a b : Int32} (h : levelOf (attenuated a factor) = level)
    (hrest : AttackLoop factor level (attenuated a factor) b) : AttackLoop factor level a b

theorem attackLoop_of_climb {factor : UInt8} {level : Int} {a b : Int32}
    (h : climb factor level a = some b) : AttackLoop factor level a b := by
  fun_induction climb factor level a with
  | case1 a next hleave => exact Option.some.inj h ▸ .leave hleave
  | case2 a next hstay _ ih => exact .again (Decidable.not_not.1 hstay) (ih h)
  | case3 => cases h

/-- Below full volume the loop ends, on a higher level. -/
theorem exists_climb (factor : UInt8) {level : Int} {a : Int32} (hlow : -92544 ≤ a.toInt)
    (hneg : a.toInt < 0) (hlevel : levelOf a = level) :
    ∃ b, climb factor level a = some b ∧ level < levelOf b ∧ a.toInt < b.toInt ∧ b.toInt ≤ 0 := by
  have hscale (a : Int32) : levelOf a = a.toInt / 128 := rfl
  fun_induction climb factor level a with
  | case1 a next hleave =>
    obtain ⟨hlt, hle⟩ : a.toInt < next.toInt ∧ next.toInt ≤ 0 := attenuated_bounds hlow hneg factor
    refine ⟨next, rfl, ?_, hlt, hle⟩
    rw [hscale] at hlevel hleave ⊢
    omega
  | case2 a next hstay _ ih =>
    obtain ⟨hlt, hle⟩ : a.toInt < next.toInt ∧ next.toInt ≤ 0 := attenuated_bounds hlow hneg factor
    have hsame : levelOf next = level := Decidable.not_not.1 hstay
    have hnext : next.toInt < 0 := by
      rw [hscale] at hlevel hsame
      omega
    obtain ⟨b, hclimb, hhigher, hrises, hnonpos⟩ := ih (by omega) hnext hsame
    exact ⟨b, hclimb, hhigher, by omega, hnonpos⟩
  | case3 a next hstay hstuck =>
    obtain ⟨hlt, hle⟩ : a.toInt < next.toInt ∧ next.toInt ≤ 0 := attenuated_bounds hlow hneg factor
    exact absurd hstuck (by omega)

/-! ## Updates -/

/-- What an update leaves as the step of the envelope made it. -/
structure Contour where
  stage : Stage
  amplitude : Int32
  release : UInt16

def contour (c : Channel) : Contour :=
  { stage := c.stage, amplitude := c.amplitude, release := c.release }

theorem contour_refresh {sweeping timer volume pan : Bool} :
    (c.refresh sweeping timer volume pan).contour = c.contour := by
  have hdue (c : Channel) (swing : Option Int) (timer volume pan : Bool) :
      (c.refreshDue sweeping swing timer volume pan).contour = c.contour := by
    cases timer <;> cases volume <;> cases pan <;> rfl
  have hmodulation : c.stepModulation.1.contour = c.contour := by
    unfold stepModulation
    split
    · rfl
    · split <;> rfl
  unfold refresh
  split
  · rfl
  · exact (hdue _ _ _ _ _).trans hmodulation

theorem contour_update : c.update.contour = c.stepEnvelope.contour := by
  rw [update_eq, contour_refresh]

/-! ### Updates of an attack -/

/-- The amplitude from which the attack goes on in an update. -/
def attackStart (c : Channel) : Int32 :=
  if c.stage = .start then silentAmplitude else c.amplitude

/-- The attack has not come to full volume. -/
def Below (c : Channel) : Prop := -92544 ≤ c.attackStart.toInt ∧ c.attackStart.toInt < 0

/-- An attack below full volume reaches a higher level, and is over at full volume. -/
structure Climbs (c d : Channel) : Prop where
  loop : AttackLoop c.attack (levelOf c.attackStart) c.attackStart d.amplitude
  level : levelOf c.attackStart < levelOf d.amplitude
  amplitude_low : -92544 ≤ d.amplitude.toInt
  amplitude_nonpos : d.amplitude.toInt ≤ 0
  stage : d.stage = if d.amplitude = 0 then .decay else .attack
  release : d.release = c.release

theorem contour_of_climb {b : Int32} (hstage : c.stage = .start ∨ c.stage = .attack)
    (hclimb : climb c.attack (levelOf c.attackStart) c.attackStart = some b) :
    c.update.contour =
      { stage := if b = 0 then .decay else .attack, amplitude := b, release := c.release } := by
  rw [contour_update]
  rcases hstage with hstage | hstage
  · rw [attackStart, if_pos hstage] at hclimb
    simp only [contour, stepEnvelope, hstage, attackStep, hclimb, Option.getD_some]
  · rw [attackStart, if_neg (by simp [hstage])] at hclimb
    simp only [contour, stepEnvelope, hstage, attackStep, hclimb, Option.getD_some]

theorem climbs_update (hstage : c.stage = .start ∨ c.stage = .attack) (hbelow : c.Below) :
    c.Climbs c.update := by
  obtain ⟨b, hclimb, hlevel, hrises, hle⟩ := exists_climb c.attack hbelow.1 hbelow.2 rfl
  have hcontour := contour_of_climb hstage hclimb
  have hlow : -92544 ≤ b.toInt := by
    have := hbelow.1
    omega
  obtain rfl : c.update.amplitude = b := congrArg Contour.amplitude hcontour
  exact ⟨attackLoop_of_climb hclimb, hlevel, hlow, hle, congrArg Contour.stage hcontour,
    congrArg Contour.release hcontour⟩

/-! ### Updates of a release -/

/-- What the step of a release leaves, whether it falls silent or not. -/
theorem update_of_release (hstage : c.stage = .release) :
    c.update.amplitude = fallen c.amplitude c.release ∧ c.update.release = c.release ∧
      c.update.stage =
        if fallen c.amplitude c.release ≤ silentAmplitude then .silent else .release := by
  have hcontour := contour_update (c := c)
  rw [stepEnvelope, hstage] at hcontour
  refine ⟨(congrArg Contour.amplitude hcontour).trans ?_,
    (congrArg Contour.release hcontour).trans ?_, (congrArg Contour.stage hcontour).trans ?_⟩
  all_goals
    dsimp only
    split <;> rfl

end SoundArchive.Channel
