import SoundArchive.Proofs.Playback.Beats
import SoundArchive.Proofs.Playback.Courses
import SoundArchive.Proofs.Playback.Execution

/-!
# The end of a melody

A melody of notes and rests keeps the tempo, and with the usual one every second tick runs its
track. So it ends when twice as many ticks have passed as its durations add up to, and the three
that pass before the first run.
-/

namespace SoundArchive

open Bytecode

/-! ## Melodies -/

/-- Notes and rests without prefixes from `p` on, of these durations, and an end behind them. -/
inductive Melody (code : Bytes) : (p : Nat) → (durations : List Nat) → Prop where
  | finish {p : Nat} (hop : code[p]? = some 0xFF) : Melody code p []
  | rest {p q : Nat} {duration : UInt32} {durations : List Nat} (hop : code[p]? = some 0x80)
    (hduration : readNumber code (p + 1) = .ok (duration, q)) (h : Melody code q durations) :
    Melody code p (duration.toNat :: durations)
  | note {p q : Nat} {key velocity : UInt8} {duration : UInt32} {durations : List Nat}
    (hop : code[p]? = some key) (hkey : key < 0x80) (hvelocity : code[p + 1]? = some velocity)
    (hduration : readNumber code (p + 2) = .ok (duration, q)) (h : Melody code q durations) :
    Melody code p (duration.toNat :: durations)

variable {code : Bytes} {p q : Nat}

theorem Opcode.ofByte_of_lt {b : UInt8} (h : b < 0x80) : ofByte b = .note b := if_pos h

theorem Command.read_of_opcode {b : UInt8} (hp : code[p]? = some b)
    (hplain : (Opcode.ofByte b).operands ≠ .prefixed) :
    Command.read code p = (Instruction.read code (Opcode.ofByte b) (p + 1)).map
      fun r => (.plain r.1, r.2) := by
  obtain ⟨hlt, hbyte⟩ := Array.getElem?_eq_some_iff.1 hp
  subst hbyte
  rw [Ne, Opcode.operands_eq_prefixed_iff, not_or, not_or] at hplain
  exact Command.read_eq_plain hlt hplain.1 hplain.2.1 hplain.2.2

theorem Command.read_finish (hp : code[p]? = some 0xFF) :
    Command.read code p = .ok (.plain { opcode := .finish }, p + 1) := by
  rw [Command.read_of_opcode hp (by decide)]
  rfl

theorem Command.read_rest {duration : UInt32} (hp : code[p]? = some 0x80)
    (hduration : readNumber code (p + 1) = .ok (duration, q)) :
    Command.read code p = .ok (.plain { opcode := .rest, first := duration.toInt32 }, q) := by
  have hop : Opcode.ofByte 0x80 = .rest := by decide
  rw [Command.read_of_opcode hp (by decide), hop, Instruction.read_of_number rfl, hduration]
  rfl

theorem Command.read_note {key velocity : UInt8} {duration : UInt32} (hp : code[p]? = some key)
    (hkey : key < 0x80) (hvelocity : code[p + 1]? = some velocity)
    (hduration : readNumber code (p + 2) = .ok (duration, q)) :
    Command.read code p =
      .ok (.plain {
        opcode := .note key
        first := velocity.toUInt32.toInt32
        second := duration.toInt32 }, q) := by
  have hop := Opcode.ofByte_of_lt hkey
  have hoperands : (Opcode.ofByte key).operands ≠ .prefixed := by simp [hop, Opcode.operands]
  rw [Command.read_of_opcode hp hoperands, hop]
  simp [Instruction.read, Instruction.readOperands, Opcode.operands, readU8, byteAt, hvelocity,
    hduration, Except.map]

namespace Control

variable {c : Control} {durations : List Nat} {duration : Nat}

/-! ## Steps -/

/-- The track is at a melody, and there is nothing to record of it. -/
structure Plays (code : Bytes) (c : Control) (durations : List Nat) : Prop where
  melody : Melody code c.position durations
  noteWait : c.noteWait = true
  ended : c.ended = false
  hitLoop : c.hitLoop = false
  hitEnd : c.hitEnd = false

/-- The track has ended, which is not recorded yet, and did not go back. -/
structure JustEnded (c : Control) : Prop where
  ended : c.ended = true
  hitLoop : c.hitLoop = false
  hitEnd : c.hitEnd = true

theorem step_plain {i : Instruction} (hread : Command.read code c.position = .ok (.plain i, q))
    (s : Score) :
    let behind : Control := { c with position := q }
    c.step code s = ((behind.perform s i).1, (behind.perform s i).2, some i) := by
  simp only [step, hread, Command.resolve]

theorem Plays.step_cons (h : c.Plays code (duration :: durations)) (s : Score) :
    (c.step code s).2.1 = s ∧ (c.step code s).1.Plays code durations ∧
      (c.step code s).1.wait.toNat = duration := by
  obtain ⟨hmelody, hnoteWait, hended, hloop, hend⟩ := h
  cases hmelody with
  | rest hop hduration hmelody =>
    have hcount := countOf_word ((readNumber_lt hduration).trans (by decide))
    rw [step_plain (Command.read_rest hop hduration)]
    exact ⟨rfl, ⟨hmelody, hnoteWait, hended, hloop, hend⟩, congrArg UInt32.toNat hcount⟩
  | note hop hkey hvelocity hduration hmelody =>
    have hcount := countOf_word ((readNumber_lt hduration).trans (by decide))
    rw [step_plain (Command.read_note hop hkey hvelocity hduration)]
    simp only [perform, if_pos hnoteWait]
    exact ⟨trivial, ⟨hmelody, hnoteWait, hended, hloop, hend⟩, congrArg UInt32.toNat hcount⟩

theorem Plays.step_nil (h : c.Plays code []) (s : Score) :
    (c.step code s).2.1 = s ∧ (c.step code s).1.JustEnded := by
  obtain ⟨hmelody, -, -, hloop, -⟩ := h
  cases hmelody with
  | finish hop =>
    rw [step_plain (Command.read_finish hop)]
    exact ⟨rfl, rfl, hloop, rfl⟩

/-! ## Runs -/

/-- No run has to yield among commands that take no time. -/
def Breathes (durations : List Nat) : Prop :=
  ∀ zeros, List.replicate zeros 0 <:+: durations → zeros < Track.commandLimit

theorem Breathes.tail (h : Breathes (duration :: durations)) : Breathes durations :=
  fun zeros hzeros => h zeros (List.infix_cons hzeros)

/-- The track is at a melody that ends in the last of `runs` runs. -/
def EndsIn (code : Bytes) (c : Control) (runs : Nat) : Prop :=
  ∃ durations, c.Plays code durations ∧ Breathes durations ∧
    max 1 c.wait.toNat + durations.sum = runs

/-- The track is where `runs` runs are left of its melody. -/
def HasLeft (code : Bytes) (c : Control) (runs : Nat) : Prop :=
  if runs = 0 then c.JustEnded else c.EndsIn code runs

end Control

namespace Stand

open Control (Plays Breathes EndsIn HasLeft)

variable {s : Stand} {durations : List Nat} {limit : Nat}

theorem play_of_wait (h : s.track.control.wait ≠ 0) : s.play code limit = s := by
  cases limit with
  | zero => rfl
  | succ limit => rw [play, if_pos (.inl h)]

theorem play_of_ended (h : s.track.control.ended = true) : s.play code limit = s := by
  cases limit with
  | zero => rfl
  | succ limit => rw [play, if_pos (.inr h)]

/-- What a run plays is the notes that take no time, and the first one that does or the end. -/
theorem play_melody (h : s.track.control.Plays code durations) (hbreathes : Breathes durations)
    (hwait : s.track.control.wait = 0)
    (hlimit : ∀ zeros, List.replicate zeros 0 <+: durations → zeros < limit) :
    (s.play code limit).score = s.score ∧
      (s.play code limit).track.control.HasLeft code durations.sum := by
  -- Every command that takes no time costs one of the limit.
  induction durations generalizing s limit with
  | nil =>
    obtain ⟨limit, rfl⟩ := Nat.exists_eq_succ_of_ne_zero (hlimit 0 List.nil_prefix).ne'
    obtain ⟨hscore, hended⟩ := h.step_nil s.score
    rw [← step_control] at hended
    rw [← step_score] at hscore
    rw [play, if_neg (by simp [hwait, h.ended]), play_of_ended hended.ended]
    exact ⟨hscore, hended⟩
  | cons duration durations ih =>
    obtain ⟨limit, rfl⟩ := Nat.exists_eq_succ_of_ne_zero (hlimit 0 List.nil_prefix).ne'
    obtain ⟨hscore, hplays, hduration⟩ := h.step_cons s.score
    rw [← step_control] at hplays hduration
    rw [← step_score] at hscore
    rw [play, if_neg (by simp [hwait, h.ended]), List.sum_cons]
    by_cases hzero : (s.step code).track.control.wait = 0
    · have hnone : duration = 0 := by rw [← hduration, hzero, UInt32.toNat_zero]
      subst hnone
      rw [← hscore, Nat.zero_add]
      refine ih hplays hbreathes.tail hzero fun zeros hzeros => ?_
      exact Nat.lt_of_succ_lt_succ (hlimit (zeros + 1) ((List.prefix_cons_inj _).2 hzeros))
    · have hpos : duration ≠ 0 := by
        rintro rfl
        exact hzero (UInt32.toNat_inj.1 hduration)
      rw [play_of_wait hzero]
      refine ⟨hscore, ?_⟩
      rw [HasLeft, if_neg (by omega)]
      exact ⟨durations, hplays, hbreathes.tail, by omega⟩

theorem toNat_wait_resumed (s : Stand) :
    s.resumed.track.control.wait.toNat = s.track.control.wait.toNat - 1 := by
  unfold resumed
  dsimp only
  split
  · next hzero => simp [hzero]
  · next hpos =>
    have hne : s.track.control.wait.toNat ≠ 0 := fun hnat => hpos (UInt32.toNat_inj.1 hnat)
    exact UInt32.toNat_sub_of_le _ _ (UInt32.le_iff_toNat_le.2 (Nat.one_le_iff_ne_zero.2 hne))

/-- With a run, a run less is left of the melody. -/
theorem run_melody {runs : Nat} (h : s.track.control.EndsIn code (runs + 1)) :
    (s.run code).score = s.score ∧ (s.run code).track.control.HasLeft code runs := by
  obtain ⟨durations, hplays, hbreathes, hruns⟩ := h
  have hresumed : s.resumed.track.control.Plays code durations :=
    ⟨hplays.melody, hplays.noteWait, hplays.ended, hplays.hitLoop, hplays.hitEnd⟩
  have hwait := toNat_wait_resumed s
  rw [run_of_not_ended hplays.ended]
  by_cases hover : s.resumed.track.control.wait = 0
  · rw [hover, UInt32.toNat_zero] at hwait
    have hsum : durations.sum = runs := by omega
    rw [← hsum]
    exact play_melody hresumed hbreathes hover fun zeros hzeros => hbreathes zeros hzeros.isInfix
  · have hpos : s.resumed.track.control.wait.toNat ≠ 0 := fun hnat =>
      hover (UInt32.toNat_inj.1 hnat)
    rw [play_of_wait hover]
    refine ⟨rfl, ?_⟩
    rw [HasLeft, if_neg (by omega)]
    exact ⟨durations, hresumed, hbreathes, by omega⟩

end Stand

/-! ## Ticks -/

namespace Player

open Control (Breathes)

variable {p : Player} {runs : Nat} {seconds : Float}

/-- The only track is at a melody that ends in the last of `runs` runs, and the tempo is the usual
one. -/
structure Sings (p : Player) (runs : Nat) : Prop where
  tempo : p.score.tempo = 120
  track : ∃ c : Control, p.parts.map Part.timing = [(c, #[])] ∧ c.EndsIn p.code runs

/-- The only track has ended, and nothing but that was recorded of it. -/
def Sang (p : Player) (seconds : Float) : Prop :=
  ∃ c : Control, p.parts.map Part.timing = [(c, #[{ seconds, kind := .finish }])] ∧
    c.ended = true ∧ c.hitLoop = false ∧ c.hitEnd = false

theorem Sings.timesOf_eq (h : p.Sings runs) : timesOf p.parts 0 = [] := by
  obtain ⟨c, hparts, -⟩ := h.track
  rw [timesOf_eq_timing, hparts]
  rfl

theorem Sang.timesOf_after (h : p.Sang seconds) (actions : List Action) :
    timesOf (p.after actions).parts 0 = [{ seconds, kind := .finish }] := by
  obtain ⟨c, hparts, hended, hloop, hend⟩ := h
  obtain ⟨part, hpart, htiming⟩ := List.map_eq_singleton_iff.1 hparts
  obtain ⟨rfl, htimes⟩ := Prod.mk.inj htiming
  have hsettled : part.Settled := ⟨hloop, hend, 0, by simp [htimes, hended]⟩
  have hafter := continues_after (p := p) (by simpa [hpart] using hsettled) actions
  rw [hpart] at hafter
  obtain ⟨part', rest, hcontinues, -, hparts'⟩ := List.forall₂_cons_left_iff.1 hafter
  rw [timesOf, hparts', List.getElem?_cons_zero, Option.map_some, hcontinues.times_of_ended hended,
    htimes]
  rfl

theorem tempo_runRound (p : Player) :
    p.runRound.score.tempo = (runParts p.code p.seconds p.parts p.score p.mixer).2.1.tempo := by
  unfold runRound
  split
  next parts score mixer hrun =>
  rw [hrun]
  split <;> rfl

/-- With a round, a run less is left of the melody. -/
theorem Sings.runRound (h : p.Sings (runs + 1)) :
    if runs = 0 then p.runRound.Sang p.seconds else p.runRound.Sings runs := by
  obtain ⟨c, hparts, hends⟩ := h.track
  obtain ⟨part, hpart, htiming⟩ := List.map_eq_singleton_iff.1 hparts
  obtain ⟨rfl, htimes⟩ := Prod.mk.inj htiming
  obtain ⟨hscore, hleft⟩ := Stand.run_melody (s := ⟨part.track, p.score, p.mixer⟩) hends
  have htempo := tempo_runRound p
  have hround := timing_runRound p
  rw [hpart] at htempo hround
  have hsame : p.runRound.score.tempo = 120 := by
    rw [htempo, ← h.tempo]
    exact congrArg Score.tempo hscore
  let after := part.ran p.code p.seconds p.score p.mixer
  have hafter : p.runRound.parts.map Part.timing = [after.timing] := hround
  split
  · next hover =>
    rw [Control.HasLeft, if_pos hover] at hleft
    have htimes' : after.times = #[{ seconds := p.seconds, kind := .finish }] := by
      simp [after, Part.ran, recordTimes, hleft.hitLoop, hleft.hitEnd, htimes]
    refine ⟨after.track.control, ?_, hleft.ended, rfl, rfl⟩
    rw [hafter, Part.timing, htimes']
  · next hmore =>
    rw [Control.HasLeft, if_neg hmore] at hleft
    obtain ⟨durations, hplays, hbreathes, hruns⟩ := hleft
    have htimes' : after.times = #[] := by
      simp [after, Part.ran, recordTimes, hplays.hitLoop, hplays.hitEnd, htimes]
    have hplays' : after.track.control.Plays p.code durations :=
      ⟨hplays.melody, hplays.noteWait, hplays.ended, rfl, rfl⟩
    refine ⟨hsame, after.track.control, ?_, durations, ?_, hbreathes, hruns⟩
    · rw [hafter, Part.timing, htimes']
    · rwa [Control.Invariant.code_runRound]

theorem Sings.tick_idle (h : p.Sings runs) (hcount : p.tempoCount ≤ tempoThreshold) :
    p.tick.Sings runs ∧ p.tick.tempoCount = p.tempoCount + 120 := by
  have hdue : roundsDue p.tempoCount = 0 := by
    unfold roundsDue tempoThreshold at *
    omega
  have htick : p.tick = { p with
      tempoCount := p.tempoCount + 120, seconds := p.seconds + secondsPerTick } := by
    simp [tick, hdue, Nat.repeat, h.tempo]
  rw [htick]
  exact ⟨⟨h.tempo, h.track⟩, rfl⟩

theorem tick_of_round (hcount : p.tempoCount = 360) : ∃ tempoCount seconds,
    p.tick = { p.counted.runRound with tempoCount, seconds } := by
  rw [tick_eq, hcount]
  exact ⟨_, _, rfl⟩

theorem Sings.tick_last (h : p.Sings 1) (hcount : p.tempoCount = 360) : p.tick.Sang p.seconds := by
  have hcounted : p.counted.Sings 1 := ⟨h.tempo, h.track⟩
  obtain ⟨tempoCount, seconds, htick⟩ := tick_of_round hcount
  rw [htick]
  exact hcounted.runRound

theorem Sings.tick_run (h : p.Sings (runs + 2)) (hcount : p.tempoCount = 360) :
    p.tick.Sings (runs + 1) ∧ p.tick.tempoCount = 240 := by
  have hcounted : p.counted.Sings (runs + 2) := ⟨h.tempo, h.track⟩
  have hround : p.counted.runRound.Sings (runs + 1) := hcounted.runRound
  have hsings : p.tick.Sings (runs + 1) := by
    obtain ⟨tempoCount, seconds, htick⟩ := tick_of_round hcount
    rw [htick]
    exact ⟨hround.tempo, hround.track⟩
  refine ⟨hsings, ?_⟩
  rw [tempoCount_tick, hsings.tempo, hcount]
  rfl

theorem Sings.timesOf_after (h : p.Sings (runs + 1)) (hcount : p.tempoCount = 360) (n : Nat) :
    timesOf (p.after (List.replicate n .tick)).parts 0 =
      if n ≤ 2 * runs then []
      else [{ seconds := (p.after (List.replicate (2 * runs) .tick)).seconds
              kind := .finish }] := by
  -- Each run but the last takes two ticks, of which the first has the round.
  induction runs generalizing p n with
  | zero =>
    cases n with
    | zero => exact h.timesOf_eq
    | succ n => exact (h.tick_last hcount).timesOf_after (List.replicate n .tick)
  | succ runs ih =>
    obtain ⟨hfirst, hcount'⟩ := h.tick_run hcount
    obtain ⟨hsecond, hcount''⟩ := hfirst.tick_idle (by rw [hcount']; rfl)
    match n with
    | 0 => exact h.timesOf_eq
    | 1 => exact hfirst.timesOf_eq
    | n + 2 =>
      have hrest := ih hsecond (by rw [hcount'', hcount']) n
      exact hrest.trans (if_congr (by omega) rfl rfl)

/-- Three ticks pass before the first run. -/
theorem Sings.timesOf_from_start (h : p.Sings (runs + 1)) (hcount : p.tempoCount = 0) (n : Nat) :
    timesOf (p.after (List.replicate n .tick)).parts 0 =
      if n ≤ 2 * runs + 3 then []
      else [{ seconds := (p.after (List.replicate (2 * runs + 3) .tick)).seconds
              kind := .finish }] := by
  have hthreshold : tempoThreshold = 240 := rfl
  obtain ⟨hone, hcount1⟩ := h.tick_idle (by omega)
  obtain ⟨htwo, hcount2⟩ := hone.tick_idle (by omega)
  obtain ⟨hthree, hcount3⟩ := htwo.tick_idle (by omega)
  match n with
  | 0 => exact h.timesOf_eq
  | 1 => exact hone.timesOf_eq
  | 2 => exact htwo.timesOf_eq
  | n + 3 =>
    have hrest := hthree.timesOf_after (by omega) n
    exact hrest.trans (if_congr (by omega) rfl rfl)

/-! ## From the start -/

theorem openedTracks_of_melody {durations : List Nat} (h : Melody code 0 durations) :
    openedTracks code = ([], 0) := by
  refine if_neg ?_
  cases h with
  | finish hop | rest hop =>
    rw [hop]
    decide
  | note hop hkey =>
    rw [hop, Option.map_some, Opcode.ofByte_of_lt hkey]
    simp

theorem sings_opened {durations : List Nat} (h : Melody code 0 durations)
    (hbreathes : Breathes durations) (setup : Setup) :
    (opened code setup).Sings (durations.sum + 1) := by
  refine ⟨rfl, { position := 0 }, ?_, durations, ⟨h, rfl, rfl, rfl, rfl⟩, hbreathes, ?_⟩
  · rw [timing_opened, start, openedTracks_of_melody h]
    rfl
  · rw [Nat.add_comm]
    rfl

/-- The runs of a track execute the commands that lead it to where it is. They account for all the
tempo there was but what is on the counter, and that is no more than the threshold and the last
tempo. So a melody, in which no run has to yield, ends when twice as many ticks as its durations add
up to and three more have passed, and nothing else is recorded of it. -/
theorem beats_conserved (code : Bytes) (setup : Setup) :
    let p := opened code setup
    let q (n : Nat) := p.after (List.replicate n .tick)
    (∀ n track, executed track p (List.replicate n .tick)
        = (runsOf track p (List.replicate n .tick)).flatMap (Stand.executed code) ∧
      Went code track p.parts (executed track p (List.replicate n .tick)) (q n).parts) ∧
    (∀ n, ∃ count,
      (∀ track < p.parts.length, (runsOf track p (List.replicate n .tick)).length = count) ∧
      tempoThreshold * count + (q n).tempoCount
        = ((List.range n).map fun k => (q (k + 1)).score.tempo.toNat).sum ∧
      (0 < n → (q n).score.tempo.toNat ≤ (q n).tempoCount ∧
        (q n).tempoCount - (q n).score.tempo.toNat ≤ tempoThreshold)) ∧
    ∀ durations, Melody code 0 durations →
      (∀ zeros, List.replicate zeros 0 <:+: durations → zeros ≤ 4095) →
      p.parts.length = 1 ∧ ∀ n, timesOf (q n).parts 0 =
        if n ≤ 2 * durations.sum + 3 then []
        else [{ seconds := (q (2 * durations.sum + 3)).seconds, kind := .finish }] := by
  intro p q
  refine ⟨fun n track => ?_, fun n => ?_, ?_⟩
  · exact ⟨executed_eq_flatMap track p _, went_after p _ track⟩
  · have haccounted (track : Nat) (h : track < p.parts.length) :
        tempoThreshold * (runsOf track p (List.replicate n .tick)).length + (q n).tempoCount
          = p.temposSum n :=
      (tempo_accounted h n).trans (Nat.zero_add _)
    have hfirst := haccounted 0 (Nat.pos_of_ne_zero (length_opened code setup))
    refine ⟨(runsOf 0 p (List.replicate n .tick)).length, fun track htrack => ?_, hfirst, ?_⟩
    · have hsame := haccounted track htrack
      exact Nat.eq_of_mul_eq_mul_left (by decide : 0 < tempoThreshold) (by omega)
    · intro hn
      obtain ⟨n, rfl⟩ := Nat.exists_eq_succ_of_ne_zero hn.ne'
      have hlast : q (n + 1) = (q n).tick := by
        simp only [q, after, List.replicate_succ', List.foldl_append]
        rfl
      rw [Nat.succ_eq_add_one, hlast]
      exact tempoCount_tick_bounds (q n)
  · intro durations hmelody hzeros
    have hsings := sings_opened hmelody (fun zeros h => Nat.lt_succ_of_le (hzeros zeros h)) setup
    obtain ⟨c, hparts, -⟩ := hsings.track
    refine ⟨?_, fun n => hsings.timesOf_from_start rfl n⟩
    have hlength := congrArg List.length hparts
    rwa [List.length_map] at hlength

/-- A note of three runs and a rest of none, which are over in the tenth tick. -/
theorem beats_conserved_of_note_and_rest :
    let code : Bytes := #[0x3C, 100, 3, 0x80, 0, 0xFF]
    let p := opened code .silent
    let q (n : Nat) := p.after (List.replicate n .tick)
    Melody code 0 [3, 0] ∧ timesOf (q 9).parts 0 = [] ∧
    timesOf (q 10).parts 0 = [{ seconds := (q 9).seconds, kind := .finish }] ∧
    tempoThreshold * (runsOf 0 p (List.replicate 10 .tick)).length + (q 10).tempoCount
      = ((List.range 10).map fun k => (q (k + 1)).score.tempo.toNat).sum ∧
    (q 10).tempoCount - (q 10).score.tempo.toNat ≤ tempoThreshold := by
  intro code p q
  have hnote : readNumber code 2 = .ok (3, 3) := by cbv
  have hrest : readNumber code 4 = .ok (0, 5) := by cbv
  have hvelocity : code[1]? = some 100 := by decide
  have hmelody : Melody code 0 [3, 0] :=
    .note (by decide) (by decide : (0x3C : UInt8) < 0x80) hvelocity hnote
      (.rest (by decide) hrest (.finish (by decide)))
  obtain ⟨-, haccounted, hmelodies⟩ := beats_conserved code .silent
  obtain ⟨hone, htimes⟩ := hmelodies [3, 0] hmelody fun zeros h => by
    have hlength := h.length_le
    rw [List.length_replicate] at hlength
    exact hlength.trans (by decide)
  obtain ⟨count, hruns, hsum, hcounter⟩ := haccounted 10
  refine ⟨hmelody, htimes 9, htimes 10, ?_, (hcounter (by decide)).2⟩
  rw [hruns 0 (by rw [hone]; decide)]
  exact hsum

end Player

end SoundArchive
