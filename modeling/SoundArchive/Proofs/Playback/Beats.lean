import Mathlib.Algebra.GroupWithZero.Nat
import SoundArchive.Proofs.Playback.Endings

/-!
# No beat is lost or gained

Every round runs each track once and takes the threshold from the counter, to which every tick adds
the tempo. So the runs of a track account for all the tempo there was but what is on the counter.
-/

namespace SoundArchive.Player

/-! ## Runs of the tracks -/

/-- The stands in which the parts begin their runs in one round. -/
def runsByParts (code : Bytes) : List Part → Score → Mixer → List Stand
  | [], _, _ => []
  | part :: rest, score, mixer =>
    let s : Stand := { track := part.track, score, mixer }
    let { score, mixer, .. } := s.run code
    s :: runsByParts code rest score mixer

def runsInRound (p : Player) (track : Nat) : List Stand :=
  (runsByParts p.code p.parts p.score p.mixer)[track]?.toList

def runsInTick (p : Player) (track : Nat) : List Stand :=
  (List.range (roundsDue p.tempoCount)).flatMap fun n =>
    (n.repeat runRound p.counted).runsInRound track

/-- The stands in which a track begins its runs in the course of some actions. -/
def runsOf (track : Nat) : Player → List Action → List Stand
  | _, [] => []
  | p, .tick :: rest => p.runsInTick track ++ runsOf track p.tick rest
  | p, action :: rest => runsOf track (p.act action) rest

variable {track : Nat} {p : Player}

/-! ### What the runs execute -/

theorem executedByParts_eq_map (code : Bytes) (parts : List Part) (score : Score) (mixer : Mixer) :
    executedByParts code parts score mixer
      = (runsByParts code parts score mixer).map (Stand.executed code) := by
  induction parts generalizing score mixer with
  | nil => rfl
  | cons part rest ih => exact congrArg (_ :: ·) (ih _ _)

theorem executedInRound_eq_flatMap (p : Player) (track : Nat) :
    p.executedInRound track = (p.runsInRound track).flatMap (Stand.executed p.code) := by
  rw [executedInRound, executedByParts_eq_map, List.getElem?_map, runsInRound]
  cases (runsByParts p.code p.parts p.score p.mixer)[track]? with
  | none => rfl
  | some s => simp

theorem executedInTick_eq_flatMap (p : Player) (track : Nat) :
    p.executedInTick track = (p.runsInTick track).flatMap (Stand.executed p.code) := by
  rw [executedInTick, runsInTick, List.flatMap_assoc]
  refine congrArg (List.flatMap · _) (funext fun n => ?_)
  rw [executedInRound_eq_flatMap, Control.Invariant.code_rounds]
  rfl

/-- The runs of a track execute all its commands. -/
theorem executed_eq_flatMap (track : Nat) (p : Player) (actions : List Action) :
    executed track p actions = (runsOf track p actions).flatMap (Stand.executed p.code) := by
  induction actions generalizing p with
  | nil => rfl
  | cons action rest ih =>
    have hrest := ih (p.act action)
    rw [Control.Invariant.code_act] at hrest
    cases action with
    | tick =>
      rw [runsOf, List.flatMap_append, ← executedInTick_eq_flatMap]
      exact congrArg (p.executedInTick track ++ ·) hrest
    | updateTracks | updateChannels | mix => exact hrest

/-! ### How many there are -/

theorem length_runsByParts (code : Bytes) (parts : List Part) (score : Score) (mixer : Mixer) :
    (runsByParts code parts score mixer).length = parts.length := by
  induction parts generalizing score mixer with
  | nil => rfl
  | cons part rest ih => exact congrArg Nat.succ (ih _ _)

theorem length_runsInRound (h : track < p.parts.length) : (p.runsInRound track).length = 1 := by
  rw [← length_runsByParts p.code p.parts p.score p.mixer] at h
  rw [runsInRound, List.getElem?_eq_getElem h]
  rfl

theorem length_runsInTick (h : track < p.parts.length) :
    (p.runsInTick track).length = roundsDue p.tempoCount := by
  have hround (n : Nat) : ((n.repeat runRound p.counted).runsInRound track).length = 1 := by
    apply length_runsInRound
    rw [length_rounds]
    exact h
  simp [runsInTick, List.length_flatMap, hround]

/-! ## The counter -/

theorem tempoCount_runRound (p : Player) : p.runRound.tempoCount = p.tempoCount := by
  unfold runRound
  split
  split <;> rfl

theorem tempoCount_rounds (p : Player) (rounds : Nat) :
    (rounds.repeat runRound p).tempoCount = p.tempoCount := by
  induction rounds with
  | zero => rfl
  | succ rounds ih => exact (tempoCount_runRound _).trans ih

theorem tempoCount_tick (p : Player) :
    p.tick.tempoCount
      = p.tempoCount - roundsDue p.tempoCount * tempoThreshold + p.tick.score.tempo.toNat := by
  rw [tick_eq]
  dsimp only
  rw [tempoCount_rounds]
  rfl

/-- No more rounds are due than the counter pays for, and they leave no more than the threshold. -/
theorem roundsDue_bounds (tempoCount : Nat) :
    roundsDue tempoCount * tempoThreshold ≤ tempoCount ∧
      tempoCount - roundsDue tempoCount * tempoThreshold ≤ tempoThreshold := by
  unfold roundsDue tempoThreshold
  omega

/-- The runs of a tick and the counter behind it account for the counter in front of it and for the
tempo. -/
theorem tempo_accounted_tick (h : track < p.parts.length) :
    tempoThreshold * (p.runsInTick track).length + p.tick.tempoCount
      = p.tempoCount + p.tick.score.tempo.toNat := by
  have hpaid := (roundsDue_bounds p.tempoCount).1
  rw [length_runsInTick h, tempoCount_tick, Nat.mul_comm]
  omega

theorem tempoCount_tick_bounds (p : Player) :
    p.tick.score.tempo.toNat ≤ p.tick.tempoCount ∧
      p.tick.tempoCount - p.tick.score.tempo.toNat ≤ tempoThreshold := by
  have hleft := (roundsDue_bounds p.tempoCount).2
  rw [tempoCount_tick]
  omega

/-- The tempo at the end of each of `n` ticks, added up. -/
def temposSum (p : Player) (n : Nat) : Nat :=
  ((List.range n).map fun k => (p.after (List.replicate (k + 1) .tick)).score.tempo.toNat).sum

theorem temposSum_succ (p : Player) (n : Nat) :
    p.temposSum (n + 1) = p.tick.score.tempo.toNat + p.tick.temposSum n := by
  rw [temposSum, List.range_succ_eq_map, List.map_cons, List.sum_cons, List.map_map]
  rfl

theorem tempo_accounted (h : track < p.parts.length) (n : Nat) :
    tempoThreshold * (runsOf track p (List.replicate n .tick)).length
        + (p.after (List.replicate n .tick)).tempoCount
      = p.tempoCount + p.temposSum n := by
  induction n generalizing p with
  | zero => exact Nat.zero_add _
  | succ n ih =>
    have hnext : track < p.tick.parts.length := by
      rw [show p.tick.parts.length = p.parts.length from length_act p .tick]
      exact h
    have hrest := ih hnext
    have htick := tempo_accounted_tick h
    rw [List.replicate_succ, runsOf, List.length_append, temposSum_succ, Nat.mul_add]
    change _ + (p.tick.after (List.replicate n .tick)).tempoCount = _
    omega

end SoundArchive.Player
