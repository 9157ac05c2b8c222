import SoundArchive.Playback.Measure
import SoundArchive.Proofs.Playback.Timing

/-! # When a track is taken to have looped -/

namespace SoundArchive

/-! ## Jumps and endless loops -/

/-- Where the opcode of a command at `p` stands, behind the prefixes in front of it. -/
def Command.opcodeOffset : Command → (p : Nat) → Nat
  | .plain _, p => p
  | .random .., p | .fromVariable .., p => p + 1
  | .conditional command, p => command.opcodeOffset (p + 1)

namespace Control

/-- The innermost frame is a loop that goes on for ever. -/
def isEndless (c : Control) : Bool :=
  match c.stack with
  | .loop passes _ :: _ => passes = 0
  | _ => false

theorem hitLoop_loopEnd (c : Control) :
    c.loopEnd.hitLoop = true ↔ c.hitLoop = true ∨ c.isEndless = true := by
  unfold loopEnd
  split
  · next passes back rest hstack =>
    have hendless : c.isEndless = decide (passes = 0) := by simp only [isEndless, hstack]
    rw [hendless]
    by_cases hzero : passes = 0
    · simp [hzero]
    · by_cases hone : passes = 1 <;> simp [hzero, hone]
  · next hstack =>
    have hendless : c.isEndless = false := by
      unfold isEndless
      split
      · next passes back rest hloop => exact absurd hloop (hstack passes back rest)
      · rfl
    simp [hendless]

/-- A jump is marked wherever it leads, and so is the end of an endless loop. -/
theorem hitLoop_perform (c : Control) (s : Score) (i : Instruction) :
    (c.perform s i).1.hitLoop = true ↔
      c.hitLoop = true ∨ i.opcode = .jump ∨ (i.opcode = .loopEnd ∧ c.isEndless = true) := by
  obtain ⟨op, first, second⟩ := i
  cases op
  case jump => simp [perform]
  case loopEnd => simp [perform, hitLoop_loopEnd]
  case call =>
    simp only [perform, call]
    split <;> simp
  case ret =>
    simp only [perform, ret]
    split <;> simp
  case loopStart =>
    simp only [perform, loopStart]
    split <;> simp
  case note | compare =>
    simp only [perform]
    split <;> simp
  all_goals simp [perform, finish]

end Control

namespace Stand

variable {code : Bytes} {s : Stand}

/-- The instruction that is executed next, and where its opcode stands. -/
def next? (code : Bytes) (s : Stand) : Option (Nat × Instruction) :=
  match Command.read code s.track.control.position with
  | .error _ => none
  | .ok (command, _) =>
    (command.resolve s.track.control.condition s.score).1.map fun i =>
      (command.opcodeOffset s.track.control.position, i)

/-- What comes next is a jump to an offset that is not behind its opcode, or the end of an endless
loop. -/
def GoesBack (code : Bytes) (s : Stand) : Prop :=
  ∃ e ∈ s.next? code, (e.2.opcode = .jump ∧ Control.offsetOf e.2.first ≤ e.1) ∨
    (e.2.opcode = .loopEnd ∧ s.track.control.isEndless = true)

/-- What comes next is a jump to an offset behind its opcode. -/
def JumpsForward (code : Bytes) (s : Stand) : Prop :=
  ∃ e ∈ s.next? code, e.2.opcode = .jump ∧ e.1 < Control.offsetOf e.2.first

instance : DecidablePred (GoesBack code) := fun s =>
  inferInstanceAs (Decidable (∃ e ∈ s.next? code, _))

instance : DecidablePred (JumpsForward code) := fun s =>
  inferInstanceAs (Decidable (∃ e ∈ s.next? code, _))

/-- The next command is one that marks the track. -/
def Marks (code : Bytes) (s : Stand) : Prop := s.GoesBack code ∨ s.JumpsForward code

theorem marks_of_next?_eq_none (h : s.next? code = none) : ¬ s.Marks code := by
  simp [Marks, GoesBack, JumpsForward, h]

theorem marks_iff_of_next?_eq_some {p : Nat} {i : Instruction} (h : s.next? code = some (p, i)) :
    s.Marks code ↔
      i.opcode = .jump ∨ (i.opcode = .loopEnd ∧ s.track.control.isEndless = true) := by
  have hsides := Nat.lt_or_ge p (Control.offsetOf i.first)
  simp only [Marks, GoesBack, JumpsForward, h, Option.mem_some_iff, exists_eq_left']
  tauto

/-! ## Marks -/

theorem hitLoop_step (code : Bytes) (s : Stand) :
    (s.step code).track.control.hitLoop = true ↔
      s.track.control.hitLoop = true ∨ s.Marks code := by
  rw [step_control, Control.step]
  cases hread : Command.read code s.track.control.position with
  | error e =>
    have hnone : s.next? code = none := by simp only [next?, hread]
    simp [marks_of_next?_eq_none hnone, Control.finish]
  | ok r =>
    obtain ⟨command, behind⟩ := r
    rcases hres : command.resolve s.track.control.condition s.score with ⟨_ | i, score⟩
    · have hnone : s.next? code = none := by simp only [next?, hread, hres, Option.map_none]
      simp [marks_of_next?_eq_none hnone, hres]
    · have hsome : s.next? code = some (command.opcodeOffset s.track.control.position, i) := by
        simp only [next?, hread, hres, Option.map_some]
      rw [marks_iff_of_next?_eq_some hsome]
      simp only [hres]
      exact Control.hitLoop_perform { s.track.control with position := behind } score i

theorem hitLoop_play (code : Bytes) (limit : Nat) (s : Stand) :
    (s.play code limit).track.control.hitLoop = true ↔
      s.track.control.hitLoop = true ∨ ∃ t ∈ s.played code limit, t.Marks code := by
  induction limit generalizing s with
  | zero => simp [play, played]
  | succ limit ih =>
    unfold play played
    split
    · simp
    · rw [ih, hitLoop_step, List.exists_mem_cons_iff, or_assoc]

/-- A run marks the track if one of its commands does. -/
theorem hitLoop_run (code : Bytes) (s : Stand) :
    (s.run code).track.control.hitLoop = true ↔
      s.track.control.hitLoop = true ∨ ∃ t ∈ s.executed code, t.Marks code := by
  cases hended : s.track.control.ended with
  | true =>
    rw [run_of_ended hended]
    simp [executed, hended]
  | false =>
    rw [run_of_not_ended hended, hitLoop_play]
    simp [executed, hended, resumed]

end Stand

/-! ## Times -/

namespace Player

/-- The times that are recorded of a track, if there is one. -/
def timesOf (parts : List Part) (track : Nat) : List Length :=
  (parts[track]?.map (·.times.toList)).getD []

/-- No track is marked, as between rounds. -/
def Unmarked (parts : List Part) : Prop :=
  ∀ part ∈ parts, part.track.control.hitLoop = false

theorem timesOf_eq_timing (parts : List Part) (track : Nat) :
    timesOf parts track = ((parts.map Part.timing)[track]?.map (·.2.toList)).getD [] := by
  rw [timesOf, List.getElem?_map, Option.map_map]
  rfl

theorem unmarked_iff_timing (parts : List Part) :
    Unmarked parts ↔ ∀ timing ∈ parts.map Part.timing, timing.1.hitLoop = false := by
  rw [List.forall_mem_map]
  rfl

/-- A loop is among the times that are recorded between the one and the other, or is not, as
`looped` says. -/
def Recorded (looped : Prop) (before after : List Length) : Prop :=
  ∃ added, after = before ++ added ∧ (LengthKind.loop ∈ added.map Length.kind ↔ looped)

namespace Recorded

variable {a b c : List Length} {P Q : Prop}

theorem refl (times : List Length) : Recorded False times times :=
  ⟨[], (List.append_nil times).symm, by simp⟩

theorem trans (h : Recorded P a b) (h' : Recorded Q b c) : Recorded (P ∨ Q) a c := by
  obtain ⟨first, rfl, hfirst⟩ := h
  obtain ⟨second, rfl, hsecond⟩ := h'
  refine ⟨first ++ second, List.append_assoc .., ?_⟩
  rw [List.map_append, List.mem_append, hfirst, hsecond]

theorem congr (h : Recorded P a b) (hiff : P ↔ Q) : Recorded Q a b := propext hiff ▸ h

end Recorded

theorem recorded_recordTimes (seconds : Float) (times : Array Length) (c : Control) :
    Recorded (c.hitLoop = true) times.toList (recordTimes seconds times c).toList := by
  unfold recordTimes
  cases c.hitLoop <;> cases c.hitEnd
  · exact ⟨[], by simp, by simp⟩
  · exact ⟨[{ seconds, kind := .finish }], by simp, by simp⟩
  · exact ⟨[{ seconds, kind := .loop }], by simp, by simp⟩
  · exact ⟨[{ seconds, kind := .loop }, { seconds, kind := .finish }], by simp, by simp⟩

/-! ## Rounds -/

theorem unmarked_runParts (code : Bytes) (seconds : Float) (parts : List Part) (score : Score)
    (mixer : Mixer) : Unmarked (runParts code seconds parts score mixer).1 := by
  induction parts generalizing score mixer with
  | nil => exact fun part hpart => absurd hpart List.not_mem_nil
  | cons part rest ih => exact List.forall_mem_cons.2 ⟨rfl, ih _ _⟩

theorem recorded_runParts {code : Bytes} {parts : List Part} (h : Unmarked parts)
    (seconds : Float) (score : Score) (mixer : Mixer) (track : Nat) :
    Recorded (∃ t ∈ ((executedByParts code parts score mixer)[track]?).getD [], t.Marks code)
      (timesOf parts track) (timesOf (runParts code seconds parts score mixer).1 track) := by
  induction parts generalizing track score mixer with
  | nil => exact (Recorded.refl _).congr (by simp [executedByParts])
  | cons part rest ih =>
    obtain ⟨hpart, hrest⟩ := List.forall_mem_cons.1 h
    cases track with
    | zero =>
      have hrun := Stand.hitLoop_run code ⟨part.track, score, mixer⟩
      have htimes := recorded_recordTimes seconds part.times
        (Stand.run code ⟨part.track, score, mixer⟩).track.control
      exact htimes.congr (by rw [hrun]; simp [executedByParts, hpart])
    | succ track => exact ih hrest _ _ track

theorem length_runParts (code : Bytes) (seconds : Float) (parts : List Part) (score : Score)
    (mixer : Mixer) : (runParts code seconds parts score mixer).1.length = parts.length := by
  induction parts generalizing score mixer with
  | nil => rfl
  | cons part rest ih => exact congrArg Nat.succ (ih _ _)

variable {p : Player}

theorem timing_runRound (p : Player) :
    p.runRound.parts.map Part.timing
      = (runParts p.code p.seconds p.parts p.score p.mixer).1.map Part.timing := by
  unfold runRound
  split
  next parts score mixer hrun =>
  rw [hrun]
  split
  · exact timing_mapVoices markVolume parts
  · rfl

theorem unmarked_runRound (p : Player) : Unmarked p.runRound.parts := by
  rw [unmarked_iff_timing, timing_runRound, ← unmarked_iff_timing]
  exact unmarked_runParts p.code p.seconds p.parts p.score p.mixer

theorem recorded_runRound (h : Unmarked p.parts) (track : Nat) :
    Recorded (∃ t ∈ p.executedInRound track, t.Marks p.code) (timesOf p.parts track)
      (timesOf p.runRound.parts track) := by
  rw [timesOf_eq_timing p.runRound.parts, timing_runRound, ← timesOf_eq_timing]
  exact recorded_runParts h ..

theorem unmarked_rounds (h : Unmarked p.parts) (rounds : Nat) :
    Unmarked (rounds.repeat runRound p).parts := by
  cases rounds with
  | zero => exact h
  | succ rounds => exact unmarked_runRound _

theorem recorded_rounds (h : Unmarked p.parts) (rounds track : Nat) :
    Recorded
      (∃ t ∈ (List.range rounds).flatMap fun n => (n.repeat runRound p).executedInRound track,
        t.Marks p.code)
      (timesOf p.parts track) (timesOf (rounds.repeat runRound p).parts track) := by
  induction rounds with
  | zero => exact (Recorded.refl _).congr (by simp)
  | succ rounds ih =>
    have hround := recorded_runRound (unmarked_rounds h rounds) track
    rw [Control.Invariant.code_rounds] at hround
    refine (ih.trans hround).congr ?_
    simp only [List.range_succ, List.flatMap_append, List.flatMap_singleton, List.mem_append,
      or_and_right, exists_or]

/-! ## Runs -/

theorem unmarked_act (h : Unmarked p.parts) (action : Action) : Unmarked (p.act action).parts := by
  by_cases htick : action = .tick
  · subst htick
    exact unmarked_rounds (p := p.counted) h _
  · rw [unmarked_iff_timing, (sameTiming_act htick p).parts, ← unmarked_iff_timing]
    exact h

theorem recorded_tick (h : Unmarked p.parts) (track : Nat) :
    Recorded (∃ t ∈ p.executedInTick track, t.Marks p.code) (timesOf p.parts track)
      (timesOf p.tick.parts track) :=
  recorded_rounds (p := p.counted) h _ track

theorem timesOf_act {action : Action} (h : action ≠ .tick) (p : Player) (track : Nat) :
    timesOf (p.act action).parts track = timesOf p.parts track := by
  rw [timesOf_eq_timing, (sameTiming_act h p).parts, ← timesOf_eq_timing]

theorem executed_of_ne_tick {action : Action} (h : action ≠ .tick) (track : Nat) (p : Player)
    (rest : List Action) :
    executed track p (action :: rest) = executed track (p.act action) rest := by
  cases action with
  | tick => exact absurd rfl h
  | updateTracks | updateChannels | mix => rfl

theorem recorded_after (h : Unmarked p.parts) (actions : List Action) (track : Nat) :
    Recorded (∃ t ∈ executed track p actions, t.Marks p.code) (timesOf p.parts track)
      (timesOf (p.after actions).parts track) := by
  induction actions generalizing p with
  | nil => exact (Recorded.refl _).congr (by simp [executed])
  | cons action rest ih =>
    have hrest := ih (unmarked_act h action)
    rw [Control.Invariant.code_act] at hrest
    by_cases htick : action = .tick
    · subst htick
      refine ((recorded_tick h track).trans hrest).congr ?_
      simp only [executed, List.mem_append, or_and_right, exists_or]
      rfl
    · rw [timesOf_act htick] at hrest
      rw [executed_of_ne_tick htick]
      exact hrest

theorem unmarked_after (h : Unmarked p.parts) (actions : List Action) :
    Unmarked (p.after actions).parts := by
  induction actions generalizing p with
  | nil => exact h
  | cons action rest ih => exact ih (unmarked_act h action)

theorem length_runRound (p : Player) : p.runRound.parts.length = p.parts.length := by
  have h := congrArg List.length (timing_runRound p)
  rwa [List.length_map, List.length_map, length_runParts] at h

theorem length_rounds (p : Player) (rounds : Nat) :
    (rounds.repeat runRound p).parts.length = p.parts.length := by
  induction rounds with
  | zero => rfl
  | succ rounds ih => exact (length_runRound _).trans ih

theorem length_act (p : Player) (action : Action) :
    (p.act action).parts.length = p.parts.length := by
  cases action with
  | tick => exact length_rounds p.counted _
  | updateTracks => exact List.length_map ..
  | updateChannels | mix => rfl

theorem length_after (p : Player) (actions : List Action) :
    (p.after actions).parts.length = p.parts.length := by
  induction actions generalizing p with
  | nil => rfl
  | cons action rest ih => exact (ih _).trans (length_act p action)

/-! ## Classification -/

namespace Tally

theorem looped_note (t : Tally) (time : Length) : (t.note time).looped = t.looped := by
  unfold note
  split <;> rfl

/-- A track that has recorded no loop is not counted as looped. -/
theorem looped_add (loops : Nat) (t : Tally) {times : Array Length}
    (h : LengthKind.loop ∉ times.toList.map Length.kind) :
    (t.add loops times).looped = t.looped := by
  unfold add
  split
  · rfl
  · next last hlast =>
    have hmem : last ∈ times.toList := (Array.mem_of_back? hlast).val
    split
    · exact looped_note ..
    · next hkind => exact absurd (List.mem_map.2 ⟨last, hmem, hkind⟩) h

end Tally

theorem looped_tally {p : Player} (loops : Nat)
    (h : ∀ part ∈ p.parts, LengthKind.loop ∉ part.times.toList.map Length.kind) :
    (p.tally loops).looped = 0 := by
  have hfold (parts : List Part) (t : Tally)
      (h : ∀ part ∈ parts, LengthKind.loop ∉ part.times.toList.map Length.kind) :
      (parts.foldl (fun t part => t.add loops part.times) t).looped = t.looped := by
    induction parts generalizing t with
    | nil => rfl
    | cons part rest ih =>
      obtain ⟨hpart, hrest⟩ := List.forall_mem_cons.1 h
      exact (ih _ hrest).trans (Tally.looped_add loops t hpart)
  exact hfold p.parts {} h

/-- Where no track has looped, there is no length but that of tracks that ended. -/
theorem kind_classify {p : Player} {loops : Nat} {length : Length} (hparts : p.parts.length ≠ 0)
    (hlooped : (p.tally loops).looped = 0) (h : p.classify loops = some length) :
    length.kind = .finish := by
  simp only [classify, hlooped, Nat.zero_add] at h
  split at h
  · next hnone => exact absurd hnone.symm hparts
  · split at h
    · cases h
      rfl
    · cases h

theorem mem_timesOf {parts : List Part} {part : Part} (h : part ∈ parts) :
    ∃ track, timesOf parts track = part.times.toList := by
  obtain ⟨track, htrack⟩ := List.getElem?_of_mem h
  exact ⟨track, by rw [timesOf, htrack]; rfl⟩

/-! ## Loops of a sequence -/

theorem timing_opened (code : Bytes) (setup : Setup) :
    (opened code setup).parts.map Part.timing = (start code).parts.map Part.timing :=
  timing_mapVoices (fun v => { v with priority := Voice.basePriority setup.priority }) _

theorem fresh_start {code : Bytes} {part : Part} (h : part ∈ (start code).parts) :
    part.track.control.hitLoop = false ∧ part.times = #[] := by
  obtain ⟨⟨first, i⟩, -, rfl⟩ := List.mem_map.1 h
  exact ⟨rfl, rfl⟩

theorem unmarked_opened (code : Bytes) (setup : Setup) : Unmarked (opened code setup).parts := by
  rw [unmarked_iff_timing, timing_opened, ← unmarked_iff_timing]
  exact fun part hpart => (fresh_start hpart).1

theorem timesOf_opened (code : Bytes) (setup : Setup) (track : Nat) :
    timesOf (opened code setup).parts track = [] := by
  rw [timesOf_eq_timing, timing_opened, ← timesOf_eq_timing, timesOf]
  cases hpart : (start code).parts[track]? with
  | none => rfl
  | some part => simp [(fresh_start (List.mem_of_getElem? hpart)).2]

theorem length_opened (code : Bytes) (setup : Setup) : (opened code setup).parts.length ≠ 0 := by
  have h := congrArg List.length (timing_opened code setup)
  rw [List.length_map, List.length_map] at h
  rw [h]
  simp [start]

/-- In the next tick, the track executes a command with which it goes back. -/
def GoesBackInTick (p : Player) (track : Nat) : Prop :=
  ∃ s ∈ p.executedInTick track, s.GoesBack p.code

/-- In the next tick, the track executes a jump to an offset behind it. -/
def JumpsForwardInTick (p : Player) (track : Nat) : Prop :=
  ∃ s ∈ p.executedInTick track, s.JumpsForward p.code

theorem marked_in_tick_iff (p : Player) (track : Nat) :
    (∃ s ∈ p.executedInTick track, s.Marks p.code) ↔
      p.GoesBackInTick track ∨ p.JumpsForwardInTick track := by
  unfold GoesBackInTick JumpsForwardInTick Stand.Marks
  rw [← exists_or]
  simp only [and_or_left]

/-- A sequence is classified as looping only if some track was marked. -/
theorem marked_of_classify {code : Bytes} {setup : Setup} {actions : List Action} {loops : Nat}
    {length : Length} (h : ((opened code setup).after actions).classify loops = some length)
    (hkind : length.kind = .loop) :
    ∃ track, ∃ s ∈ executed track (opened code setup) actions, s.Marks code := by
  by_contra hnone
  have hfinish : length.kind = .finish := by
    apply kind_classify _ (looped_tally loops _) h
    · rw [length_after]
      exact length_opened code setup
    · intro part hpart hloop
      obtain ⟨track, htrack⟩ := mem_timesOf hpart
      obtain ⟨added, htimes, hmarks⟩ := recorded_after (unmarked_opened code setup) actions track
      rw [timesOf_opened, List.nil_append] at htimes
      rw [← htrack, htimes] at hloop
      exact hnone ⟨track, hmarks.1 hloop⟩
  rw [hkind] at hfinish
  cases hfinish

/-- In a tick, a loop is recorded for a track exactly if the track goes back or jumps forward. So
the time tells that it went back unless it only jumped forward. A sequence that is classified as
looping has a track that did one or the other. -/
theorem loopTime_iff_branches (code : Bytes) (setup : Setup) (actions : List Action) :
    let p := (opened code setup).after actions
    (∀ track, ∃ added, timesOf p.tick.parts track = timesOf p.parts track ++ added ∧
      (LengthKind.loop ∈ added.map Length.kind ↔
        p.GoesBackInTick track ∨ p.JumpsForwardInTick track) ∧
      ((LengthKind.loop ∈ added.map Length.kind → p.GoesBackInTick track) ↔
        (p.JumpsForwardInTick track → p.GoesBackInTick track))) ∧
    ∀ loops length, p.classify loops = some length → length.kind = .loop →
      ∃ track, ∃ s ∈ executed track (opened code setup) actions,
        s.GoesBack code ∨ s.JumpsForward code := by
  intro p
  constructor
  · intro track
    have hunmarked := unmarked_after (unmarked_opened code setup) actions
    obtain ⟨added, htimes, hloop⟩ := recorded_tick hunmarked track
    have hbranch := hloop.trans (marked_in_tick_iff p track)
    refine ⟨added, htimes, hbranch, ?_⟩
    rw [hbranch]
    constructor
    · intro h hforward
      exact h (.inr hforward)
    · rintro h (hback | hforward)
      · exact hback
      · exact h hforward
  · intro loops length hlength hkind
    exact marked_of_classify hlength hkind

/-- A rest of two rounds and a jump back to it, which is executed in the eighth tick. -/
theorem loopTime_of_backward_jump :
    let p := (opened #[0x80, 2, 0x94, 0, 0, 0] .silent).after (List.replicate 7 .tick)
    (∃ added, timesOf p.tick.parts 0 = timesOf p.parts 0 ++ added ∧
      LengthKind.loop ∈ added.map Length.kind) ∧
    ∃ length, p.tick.classify 1 = some length ∧ length.kind = .loop ∧
      ∃ track, ∃ s ∈ executed track (opened #[0x80, 2, 0x94, 0, 0, 0] .silent)
        (List.replicate 8 .tick), s.GoesBack #[0x80, 2, 0x94, 0, 0, 0] ∨
          s.JumpsForward #[0x80, 2, 0x94, 0, 0, 0] := by
  intro p
  obtain ⟨added, htimes, hbranch, -⟩ :=
    (loopTime_iff_branches #[0x80, 2, 0x94, 0, 0, 0] .silent (List.replicate 7 .tick)).1 0
  have hback : p.GoesBackInTick 0 := by
    unfold GoesBackInTick
    decide +kernel
  have hkinds : p.tick.parts.map (fun part => part.times.toList.map Length.kind) = [[.loop]] := by
    decide +kernel
  obtain ⟨part, hparts, hpart⟩ := List.map_eq_singleton_iff.1 hkinds
  obtain ⟨time, htime, hkind⟩ := List.map_eq_singleton_iff.1 hpart
  have hlast : part.times = #[time] := Array.toList_inj.1 htime
  have hlooped : (p.tick.tally 1).looped = 1 := by
    simp [tally, hparts, Tally.add, hlast, hkind, Tally.looped_note]
  have hlength : ∃ seconds, p.tick.classify 1 = some { seconds, kind := .loop } := by
    simp [classify, hlooped, hparts]
  obtain ⟨seconds, hlength⟩ := hlength
  have hclassified := (loopTime_iff_branches #[0x80, 2, 0x94, 0, 0, 0] .silent
    (List.replicate 8 .tick)).2 1 _ hlength rfl
  exact ⟨⟨added, htimes, hbranch.2 (.inl hback)⟩, _, hlength, rfl, hclassified⟩

/-- A jump forward to a rest, by which nothing is repeated. -/
theorem loopTime_of_forward_jump :
    ¬ ∀ (code : Bytes) (setup : Setup) (actions : List Action) (track : Nat) (added : List Length),
      let p := (opened code setup).after actions
      timesOf p.tick.parts track = timesOf p.parts track ++ added →
        LengthKind.loop ∈ added.map Length.kind → p.GoesBackInTick track := by
  intro h
  let p := (opened #[0x94, 4, 0, 0, 0x80, 0x30, 0xFF] .silent).after (List.replicate 3 .tick)
  have htimes : timesOf p.parts 0 = [] := rfl
  have hloop : LengthKind.loop ∈ (timesOf p.tick.parts 0).map Length.kind := by decide +kernel
  have hback : ¬ p.GoesBackInTick 0 := by
    unfold GoesBackInTick
    decide +kernel
  refine hback (h _ .silent _ 0 (timesOf p.tick.parts 0) ?_ hloop)
  exact (congrArg (· ++ timesOf p.tick.parts 0) htimes).symm

end Player

end SoundArchive
