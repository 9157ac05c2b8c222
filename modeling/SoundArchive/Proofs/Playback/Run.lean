import SoundArchive.Playback.Player

/-! # Runs of a player, the commands executed in them, and what they leave true of a track -/

namespace SoundArchive

/-! ## Runs -/

/-- What a player is opened with. The random numbers may come from anywhere. -/
structure Setup where
  priority : UInt8
  volume : UInt8
  random : Randomness
  instruments : Option Instruments

/-- No notes, and the usual seed. -/
def Setup.silent : Setup :=
  { priority := 0, volume := 127, random := .ofSeed Player.defaultSeed, instruments := none }

namespace Player

def opened (code : Bytes) (s : Setup) : Player :=
  let p := ((start code).withVolume s.volume).withPriority s.priority
  { p with
    score := { p.score with random := s.random }
    mixer := { p.mixer with instruments := s.instruments } }

inductive Action where
  | tick
  | updateTracks
  | updateChannels
  | mix
deriving DecidableEq

def act (p : Player) : Action → Player
  | .tick => p.tick
  | .updateTracks => p.updateTracks
  | .updateChannels => p.updateChannels
  | .mix => p.mix.1

def after (p : Player) (actions : List Action) : Player := actions.foldl act p

end Player

/-! ## Executed commands -/

namespace Control

variable {code : Bytes} {c : Control} {command : Command} {behind : Nat} {s s' : Score}
  {i : Instruction}

theorem step_of_skipped (hread : Command.read code c.position = .ok (command, behind))
    (hres : command.resolve c.condition s = (none, s')) :
    (c.step code s).1 = { c with position := behind } := by
  simp only [step, hread, hres]

theorem step_of_performed (hread : Command.read code c.position = .ok (command, behind))
    (hres : command.resolve c.condition s = (some i, s')) :
    (c.step code s).1 = (({ c with position := behind } : Control).perform s' i).1 := by
  simp only [step, hread, hres]

theorem step_of_cutOff {e : EndOfData} (hread : Command.read code c.position = .error e) :
    (c.step code s).1 = ({ c with position := e.position } : Control).finish := by
  simp only [step, hread]

end Control

namespace Stand

/-- The stand in which a run begins to execute commands. -/
def resumed (s : Stand) : Stand :=
  { s with track := {
      control := { s.track.control with
        wait := s.track.control.wait - (if s.track.control.wait = 0 then 0 else 1) }
      voice := { s.track.voice with
        updates := { s.track.voice.updates with length := true } } } }

theorem run_of_ended {code : Bytes} {s : Stand} (h : s.track.control.ended = true) :
    (s.run code).track.control = s.track.control := by
  simp [run, h]

theorem run_of_not_ended {code : Bytes} {s : Stand} (h : s.track.control.ended = false) :
    s.run code = play code Track.commandLimit s.resumed := by
  simp [run, h, resumed]

/-- The stands in which `play` executes a command. -/
def played (code : Bytes) : (limit : Nat) → Stand → List Stand
  | 0, _ => []
  | limit + 1, s =>
    if s.track.control.wait ≠ 0 ∨ s.track.control.ended then []
    else s :: played code limit (s.step code)

/-- The stands in which a run executes a command. -/
def executed (code : Bytes) (s : Stand) : List Stand :=
  if s.track.control.ended then [] else played code Track.commandLimit s.resumed

theorem step_control (code : Bytes) (s : Stand) :
    (s.step code).track.control = (s.track.control.step code s.score).1 := by
  unfold step
  rcases h : s.track.control.step code s.score with ⟨control, score, done⟩
  cases done <;> simp only [h]

end Stand

namespace Player

/-- The stands in which the parts execute a command in one round. -/
def executedByParts (code : Bytes) : List Part → Score → Mixer → List (List Stand)
  | [], _, _ => []
  | part :: rest, score, mixer =>
    let s : Stand := { track := part.track, score, mixer }
    let { score, mixer, .. } := s.run code
    s.executed code :: executedByParts code rest score mixer

def executedInRound (p : Player) (track : Nat) : List Stand :=
  ((executedByParts p.code p.parts p.score p.mixer)[track]?).getD []

/-- The player of a tick before its first round. -/
def counted (p : Player) : Player :=
  { p with tempoCount := p.tempoCount - roundsDue p.tempoCount * tempoThreshold }

def executedInTick (p : Player) (track : Nat) : List Stand :=
  (List.range (roundsDue p.tempoCount)).flatMap fun n =>
    (n.repeat runRound p.counted).executedInRound track

/-- The stands in which a track executes a command in the course of some actions. -/
def executed (track : Nat) : Player → List Action → List Stand
  | _, [] => []
  | p, .tick :: rest => p.executedInTick track ++ executed track p.tick rest
  | p, action :: rest => executed track (p.act action) rest

end Player

/-! ## Invariants of a track -/

/-- A property of the control of a track that every `Fair` command keeps, and the rest of a run
too. -/
structure Control.Invariant (code : Bytes) (Fair : Stand → Prop) (Inv : Control → Prop) :
    Prop where
  step : ∀ s : Stand, Fair s → s.track.control.ended = false → Inv s.track.control →
    Inv (s.track.control.step code s.score).1
  waited : ∀ c wait, Inv c → Inv { c with wait }
  recorded : ∀ c, Inv c → Inv { c with hitLoop := false, hitEnd := false }

namespace Control.Invariant

variable {code : Bytes} {Fair : Stand → Prop} {Inv : Control → Prop}

theorem play (h : Control.Invariant code Fair Inv) {limit : Nat} {s : Stand}
    (hs : Inv s.track.control) (hfair : ∀ t ∈ s.played code limit, Fair t) :
    Inv (s.play code limit).track.control := by
  induction limit generalizing s with
  | zero => exact hs
  | succ limit ih =>
    unfold Stand.play
    unfold Stand.played at hfair
    split
    · exact hs
    · next hgo =>
      rw [if_neg hgo] at hfair
      have hended : s.track.control.ended = false := by simpa using (not_or.1 hgo).2
      apply ih
      · rw [Stand.step_control]
        exact h.step s (hfair s List.mem_cons_self) hended hs
      · exact fun t ht => hfair t (List.mem_cons_of_mem _ ht)

theorem run (h : Control.Invariant code Fair Inv) {s : Stand} (hs : Inv s.track.control)
    (hfair : ∀ t ∈ s.executed code, Fair t) : Inv (s.run code).track.control := by
  unfold Stand.executed at hfair
  cases hended : s.track.control.ended with
  | true =>
    rw [Stand.run_of_ended hended]
    exact hs
  | false =>
    rw [Stand.run_of_not_ended hended]
    rw [hended] at hfair
    exact h.play (h.waited _ _ hs) hfair

/-- The property for the track in slot `track`. -/
def Holds (Inv : Control → Prop) (track : Nat) (parts : List Part) : Prop :=
  ∀ part, parts[track]? = some part → Inv part.track.control

theorem runParts (h : Control.Invariant code Fair Inv) {seconds : Float} {parts : List Part}
    {score : Score} {mixer : Mixer} {track : Nat} (hs : Holds Inv track parts)
    (hfair : ∀ t ∈ ((Player.executedByParts code parts score mixer)[track]?).getD [], Fair t) :
    Holds Inv track (Player.runParts code seconds parts score mixer).1 := by
  induction parts generalizing track score mixer with
  | nil => exact hs
  | cons part rest ih =>
    cases track with
    | zero =>
      intro part' hpart'
      cases hpart'
      exact h.recorded _ (h.run (hs part rfl) hfair)
    | succ track =>
      intro part' hpart'
      exact ih (fun q hq => hs q hq) hfair part' hpart'

theorem holds_mapVoices {track : Nat} {parts : List Part} {f : Voice → Voice}
    (hs : Holds Inv track parts) : Holds Inv track (Player.mapVoices f parts) := by
  intro part hpart
  rw [Player.mapVoices, List.getElem?_map] at hpart
  cases hq : parts[track]? with
  | none =>
    rw [hq] at hpart
    cases hpart
  | some q =>
    rw [hq] at hpart
    cases hpart
    exact hs q hq

theorem runRound (h : Control.Invariant code Fair Inv) {p : Player} (hcode : p.code = code)
    {track : Nat} (hs : Holds Inv track p.parts)
    (hfair : ∀ t ∈ p.executedInRound track, Fair t) : Holds Inv track p.runRound.parts := by
  subst hcode
  have hparts : Holds Inv track
      (Player.runParts p.code p.seconds p.parts p.score p.mixer).1 := h.runParts hs hfair
  unfold Player.runRound
  split
  next parts score mixer hrun =>
  rw [hrun] at hparts
  split
  · exact holds_mapVoices hparts
  · exact hparts

theorem code_runRound (p : Player) : p.runRound.code = p.code := by
  unfold Player.runRound
  split
  split <;> rfl

theorem code_rounds (p : Player) (rounds : Nat) :
    (rounds.repeat Player.runRound p).code = p.code := by
  induction rounds with
  | zero => rfl
  | succ rounds ih => exact (code_runRound _).trans ih

theorem rounds (h : Control.Invariant code Fair Inv) {p : Player} (hcode : p.code = code)
    {track rounds : Nat} (hs : Holds Inv track p.parts)
    (hfair : ∀ n < rounds, ∀ t ∈ (n.repeat Player.runRound p).executedInRound track, Fair t) :
    Holds Inv track (rounds.repeat Player.runRound p).parts := by
  induction rounds with
  | zero => exact hs
  | succ rounds ih =>
    have hprev := ih fun n hn => hfair n (Nat.lt_succ_of_lt hn)
    exact h.runRound ((code_rounds p rounds).trans hcode) hprev (hfair rounds (Nat.lt_succ_self _))

theorem tick (h : Control.Invariant code Fair Inv) {p : Player} (hcode : p.code = code)
    {track : Nat} (hs : Holds Inv track p.parts)
    (hfair : ∀ t ∈ p.executedInTick track, Fair t) : Holds Inv track p.tick.parts := by
  refine h.rounds (p := p.counted) hcode hs ?_
  intro n hn t ht
  exact hfair t (List.mem_flatMap.2 ⟨n, List.mem_range.2 hn, ht⟩)

theorem code_act (p : Player) (action : Player.Action) : (p.act action).code = p.code := by
  cases action with
  | tick => exact code_rounds p.counted _
  | updateTracks => rfl
  | updateChannels => rfl
  | mix => rfl

/-- What every fair command keeps is true of a track after any actions. -/
theorem after (h : Control.Invariant code Fair Inv) {p : Player} (hcode : p.code = code)
    {track : Nat} {actions : List Player.Action} (hs : Holds Inv track p.parts)
    (hfair : ∀ t ∈ p.executed track actions, Fair t) :
    Holds Inv track (p.after actions).parts := by
  induction actions generalizing p with
  | nil => exact hs
  | cons action rest ih =>
    have hnext : (p.act action).code = code := (code_act p action).trans hcode
    cases action with
    | tick =>
      have htick := h.tick hcode hs fun t ht => hfair t (List.mem_append_left _ ht)
      exact ih hnext htick fun t ht => hfair t (List.mem_append_right _ ht)
    | updateTracks =>
      exact ih hnext (holds_mapVoices (f := fun v => { v with updates := {} }) hs) hfair
    | updateChannels => exact ih hnext hs hfair
    | mix => exact ih hnext hs hfair

end Control.Invariant

end SoundArchive
