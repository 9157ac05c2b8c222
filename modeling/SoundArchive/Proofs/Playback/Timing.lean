import SoundArchive.Proofs.Playback.Run
import Mathlib.Data.List.Forall2

/-! # What is heard has no part in the timing -/

namespace SoundArchive

/-! ## One track -/

namespace Stand

variable {code : Bytes} {s t : Stand}

theorem step_score (code : Bytes) (s : Stand) :
    (s.step code).score = (s.track.control.step code s.score).2.1 := by
  unfold step
  rcases h : s.track.control.step code s.score with ⟨control, score, done⟩
  cases done <;> simp only [h]

/-- The same control and the same score, whatever the voice and the channels. -/
structure SameTiming (s t : Stand) : Prop where
  control : s.track.control = t.track.control
  score : s.score = t.score

theorem SameTiming.step (h : SameTiming s t) : SameTiming (s.step code) (t.step code) where
  control := by rw [step_control, step_control, h.control, h.score]
  score := by rw [step_score, step_score, h.control, h.score]

theorem SameTiming.play (h : SameTiming s t) (limit : Nat) :
    SameTiming (s.play code limit) (t.play code limit) := by
  induction limit generalizing s t with
  | zero => exact h
  | succ limit ih =>
    unfold Stand.play
    rw [h.control]
    split
    · exact h
    · exact ih h.step

theorem SameTiming.resumed (h : SameTiming s t) : SameTiming s.resumed t.resumed where
  control := by simp only [Stand.resumed, h.control]
  score := h.score

theorem score_run_of_ended (h : s.track.control.ended = true) : (s.run code).score = s.score := by
  simp [run, h]

theorem SameTiming.run (h : SameTiming s t) : SameTiming (s.run code) (t.run code) := by
  cases hs : s.track.control.ended with
  | true =>
    have ht : t.track.control.ended = true := h.control ▸ hs
    refine ⟨?_, ?_⟩
    · rw [run_of_ended hs, run_of_ended ht, h.control]
    · rw [score_run_of_ended hs, score_run_of_ended ht, h.score]
  | false =>
    have ht : t.track.control.ended = false := h.control ▸ hs
    rw [run_of_not_ended hs, run_of_not_ended ht]
    exact h.resumed.play _

end Stand

/-! ## All tracks -/

/-- What a track does and when, whatever its voice. -/
def Part.timing (p : Part) : Control × Array Length := (p.track.control, p.times)

namespace Player

theorem timing_mapVoices (f : Voice → Voice) (parts : List Part) :
    (mapVoices f parts).map Part.timing = parts.map Part.timing := by
  rw [mapVoices, List.map_map]
  rfl

/-- Tracks that are alike stay so in a round, and leave the same score behind. -/
theorem timing_runParts (code : Bytes) (seconds : Float) (score : Score) (m n : Mixer)
    {ps qs : List Part} (h : ps.map Part.timing = qs.map Part.timing) :
    (runParts code seconds ps score m).1.map Part.timing
        = (runParts code seconds qs score n).1.map Part.timing ∧
      (runParts code seconds ps score m).2.1 = (runParts code seconds qs score n).2.1 := by
  induction ps generalizing qs score m n with
  | nil =>
    obtain rfl := List.map_eq_nil_iff.1 h.symm
    exact ⟨rfl, rfl⟩
  | cons p ps ih =>
    obtain ⟨q, qs, rfl, hq, hqs⟩ := List.map_eq_cons_iff.1 h.symm
    obtain ⟨hcontrol, htimes⟩ := Prod.mk.inj hq
    have hrun : Stand.SameTiming (Stand.run code ⟨p.track, score, m⟩)
        (Stand.run code ⟨q.track, score, n⟩) := Stand.SameTiming.run ⟨hcontrol.symm, rfl⟩
    obtain ⟨hrest, hscore⟩ := ih (Stand.run code ⟨q.track, score, n⟩).score
      (Stand.run code ⟨p.track, score, m⟩).mixer (Stand.run code ⟨q.track, score, n⟩).mixer hqs.symm
    simp only [runParts, hrun.score]
    refine ⟨?_, hscore⟩
    rw [List.map_cons, List.map_cons, hrest]
    simp only [Part.timing, hrun.control, htimes]

/-! ## Players -/

theorem tick_eq (p : Player) :
    p.tick =
      let played := (roundsDue p.tempoCount).repeat Player.runRound p.counted
      { played with
        tempoCount := played.tempoCount + played.score.tempo.toNat
        seconds := played.seconds + secondsPerTick } := rfl

/-- The players are at the same place of the same bytecode: their tracks have the same control
and the same recorded times, they share the score, and as much time has passed. -/
structure SameTiming (p q : Player) : Prop where
  code : p.code = q.code
  parts : p.parts.map Part.timing = q.parts.map Part.timing
  score : p.score = q.score
  tempoCount : p.tempoCount = q.tempoCount
  seconds : p.seconds = q.seconds

namespace SameTiming

variable {p q r : Player}

theorem symm (h : SameTiming p q) : SameTiming q p :=
  ⟨h.code.symm, h.parts.symm, h.score.symm, h.tempoCount.symm, h.seconds.symm⟩

theorem trans (h : SameTiming p q) (h' : SameTiming q r) : SameTiming p r :=
  ⟨h.code.trans h'.code, h.parts.trans h'.parts, h.score.trans h'.score,
    h.tempoCount.trans h'.tempoCount, h.seconds.trans h'.seconds⟩

theorem runRound (h : SameTiming p q) : SameTiming p.runRound q.runRound := by
  obtain ⟨hparts, hscore⟩ := timing_runParts q.code q.seconds q.score p.mixer q.mixer h.parts
  unfold Player.runRound
  rw [h.code, h.seconds, h.score]
  simp only [hscore]
  split
  · exact ⟨rfl, by simpa only [timing_mapVoices] using hparts, rfl, h.tempoCount, rfl⟩
  · exact ⟨rfl, hparts, rfl, h.tempoCount, rfl⟩

theorem rounds (h : SameTiming p q) (rounds : Nat) :
    SameTiming (rounds.repeat Player.runRound p) (rounds.repeat Player.runRound q) := by
  induction rounds with
  | zero => exact h
  | succ rounds ih => exact ih.runRound

theorem tick (h : SameTiming p q) : SameTiming p.tick q.tick := by
  have hcounted : SameTiming p.counted q.counted :=
    ⟨h.code, h.parts, h.score, by simp only [counted, h.tempoCount], h.seconds⟩
  have hrounds := hcounted.rounds (roundsDue p.tempoCount)
  rw [tick_eq, tick_eq, ← h.tempoCount]
  refine ⟨hrounds.code, hrounds.parts, hrounds.score, ?_, ?_⟩
  · exact congrArg₂ (· + ·) hrounds.tempoCount (congrArg (·.tempo.toNat) hrounds.score)
  · exact congrArg (· + secondsPerTick) hrounds.seconds

end SameTiming

/-! ## Runs -/

theorem sameTiming_attached (p : Player) (instruments : Instruments) :
    SameTiming (p.withInstruments instruments) p := ⟨rfl, rfl, rfl, rfl, rfl⟩

/-- Only a tick is felt in the timing. -/
theorem sameTiming_act {action : Action} (h : action ≠ .tick) (p : Player) :
    SameTiming (p.act action) p := by
  cases action with
  | tick => exact absurd rfl h
  | updateTracks =>
    exact ⟨rfl, timing_mapVoices (fun v => { v with updates := {} }) p.parts, rfl, rfl, rfl⟩
  | updateChannels => exact ⟨rfl, rfl, rfl, rfl, rfl⟩
  | mix => exact ⟨rfl, rfl, rfl, rfl, rfl⟩

theorem SameTiming.ticks {p q : Player} (h : SameTiming p q) (n : Nat) :
    SameTiming (p.after (List.replicate n .tick)) (q.after (List.replicate n .tick)) := by
  induction n generalizing p q with
  | zero => exact h
  | succ n ih => exact ih h.tick

/-- All that is between the ticks can be left out. -/
theorem sameTiming_after (p : Player) (actions : List Action) :
    SameTiming (p.after actions) (p.after (List.replicate (actions.count .tick) .tick)) := by
  induction actions generalizing p with
  | nil => exact ⟨rfl, rfl, rfl, rfl, rfl⟩
  | cons action rest ih =>
    have hrest := ih (p.act action)
    by_cases htick : action = .tick
    · subst htick
      rw [List.count_cons_self]
      exact hrest
    · rw [List.count_cons_of_ne htick]
      exact hrest.trans ((sameTiming_act htick p).ticks _)

/-- Whatever plays the notes of a sequence and whenever it is mixed, after equally many ticks the
tracks, their recorded times and the score are those of the player without instruments. -/
theorem sameTiming_withInstruments (code : Bytes) (seed : UInt64) (priority volume : UInt8)
    (instruments : Instruments) {sounding silent : List Action}
    (hticks : sounding.count .tick = silent.count .tick) :
    let p := (((start code).withVolume volume).withPriority priority).withSeed seed
    SameTiming ((p.withInstruments instruments).after sounding) (p.after silent) := by
  intro p
  have hsounding := sameTiming_after (p.withInstruments instruments) sounding
  have hsilent := sameTiming_after p silent
  rw [hticks] at hsounding
  exact (hsounding.trans ((sameTiming_attached p instruments).ticks _)).trans hsilent.symm

/-- A note that sounds on channel 13 while the same note is only waited for elsewhere. -/
theorem sameTiming_of_tone :
    let tone : KeyRange :=
      { lowNote := 0, highNote := 127, record := 2, wave := 3, waveArchive := 0, baseNote := 60
        attack := 127, decay := 127, sustain := 127, release := 127, pan := 64 }
    let instruments : Instruments := { bank := ⟨[.single tone]⟩, waveArchives := [] }
    let p := (((start #[0x3C, 100, 3, 0xFF]).withVolume 127).withPriority 0).withSeed 1
    let frame : List Action := [.mix, .updateTracks, .updateChannels, .tick]
    let sounding := (p.withInstruments instruments).after (frame ++ frame ++ frame ++ frame)
    let silent := p.after [.tick, .tick, .tick, .tick]
    sounding.mixer.channels[13].stage = .start ∧ silent.mixer.channels[13].stage = .silent ∧
      SameTiming sounding silent := by
  intro tone instruments p frame sounding silent
  refine ⟨by decide +kernel, by decide +kernel, ?_⟩
  exact sameTiming_withInstruments #[0x3C, 100, 3, 0xFF] 1 0 127 instruments (by decide)

end Player

end SoundArchive
