import SoundArchive.Proofs.Playback.Run

/-!
# Courses of a track

The commands that a track executes follow each other, whatever other tracks do to the variables
and the channels in between, and however many runs it takes.
-/

namespace SoundArchive

namespace Control

/-- Where a track is, in which frames, and whether it has ended. -/
structure Spot where
  position : Nat
  stack : List Frame
  ended : Bool := false
deriving DecidableEq

def spot (c : Control) : Spot := ⟨c.position, c.stack, c.ended⟩

end Control

open Control (Spot)

namespace Stand

def spot (s : Stand) : Spot := s.track.control.spot

/-- A stand with nothing else to tell. -/
def atSpot (a : Spot) : Stand where
  track :=
    { control := { position := a.position, stack := a.stack, ended := a.ended }
      voice := .start 0 0 }
  score := { random := .ofSeed Player.defaultSeed }
  mixer := {}

@[simp]
theorem spot_atSpot (a : Spot) : (atSpot a).spot = a := rfl

end Stand

/-- Each stand is where the command of the one in front of it leads. What a track executes is the
beginning of a course (`Player.executed_course`). -/
def Course (code : Bytes) (x : Nat → Stand) : Prop :=
  ∀ i, (x (i + 1)).spot = ((x i).step code).spot

/-- Commands executed one after the other, from `a` to `b`. -/
inductive Stretch (code : Bytes) : Spot → List Stand → Spot → Prop where
  | nil (a : Spot) : Stretch code a [] a
  | cons (s : Stand) {l : List Stand} {b : Spot} (h : Stretch code (s.step code).spot l b) :
    Stretch code s.spot (s :: l) b

variable {code : Bytes} {a b c : Spot} {l l' : List Stand}

namespace Stretch

theorem append (h : Stretch code a l b) (h' : Stretch code b l' c) :
    Stretch code a (l ++ l') c := by
  induction h with
  | nil => exact h'
  | cons s _ ih => exact .cons s (ih h')

/-- Goes through `l` and on from `s`, with no other track in between. -/
def goOn (code : Bytes) (s : Stand) : List Stand → Nat → Stand
  | [], i => i.repeat (Stand.step code) s
  | t :: _, 0 => t
  | _ :: l, i + 1 => goOn code s l i

theorem course_goOn (h : Stretch code a l b) {s : Stand} (hs : s.spot = b) :
    Course code (goOn code s l) ∧ (goOn code s l 0).spot = a := by
  induction h with
  | nil a => exact ⟨fun i => rfl, hs⟩
  | cons t _ ih =>
    obtain ⟨hcourse, hfirst⟩ := ih hs
    refine ⟨fun i => ?_, rfl⟩
    cases i with
    | zero => exact hfirst
    | succ i => exact hcourse i

theorem goOn_of_getElem? {s t : Stand} {i : Nat} (h : l[i]? = some t) : goOn code s l i = t := by
  induction l generalizing i with
  | nil => simp at h
  | cons u l ih =>
    cases i with
    | zero => exact Option.some.inj h
    | succ i => exact ih h

/-- What is executed in a row is the beginning of a course. -/
theorem exists_course (h : Stretch code a l b) :
    ∃ x, Course code x ∧ ∀ i t, l[i]? = some t → x i = t :=
  ⟨goOn code (.atSpot b) l, (h.course_goOn (Stand.spot_atSpot b)).1,
    fun _ _ => goOn_of_getElem?⟩

end Stretch

/-! ## What a track executes is a course -/

namespace Stand

theorem stretch_played (code : Bytes) (limit : Nat) (s : Stand) :
    Stretch code s.spot (s.played code limit) (s.play code limit).spot := by
  induction limit generalizing s with
  | zero => exact .nil _
  | succ limit ih =>
    unfold played play
    split
    · exact .nil _
    · exact .cons s (ih (s.step code))

theorem stretch_executed (code : Bytes) (s : Stand) :
    Stretch code s.spot (s.executed code) (s.run code).spot := by
  unfold executed
  cases hended : s.track.control.ended with
  | true =>
    unfold spot
    rw [run_of_ended hended]
    exact .nil _
  | false =>
    rw [run_of_not_ended hended]
    exact stretch_played code Track.commandLimit s.resumed

end Stand

namespace Player

def spotOf? (parts : List Part) (track : Nat) : Option Spot :=
  parts[track]?.map (·.track.control.spot)

/-- A track of this number goes from where it was through `l` to where it is. -/
def Went (code : Bytes) (track : Nat) (before : List Part) (l : List Stand) (after : List Part) :
    Prop :=
  ∀ a, spotOf? before track = some a → ∃ b, spotOf? after track = some b ∧ Stretch code a l b

variable {track : Nat} {p : Player} {before between after : List Part}

theorem Went.refl (code : Bytes) (track : Nat) (parts : List Part) :
    Went code track parts [] parts := fun a ha => ⟨a, ha, .nil a⟩

theorem Went.trans (h : Went code track before l between) (h' : Went code track between l' after) :
    Went code track before (l ++ l') after := by
  intro a ha
  obtain ⟨b, hb, hab⟩ := h a ha
  obtain ⟨c, hc, hbc⟩ := h' b hb
  exact ⟨c, hc, hab.append hbc⟩

theorem spotOf?_mapVoices (f : Voice → Voice) (parts : List Part) :
    spotOf? (mapVoices f parts) track = spotOf? parts track := by
  unfold spotOf? mapVoices
  rw [List.getElem?_map, Option.map_map]
  rfl

theorem went_runParts (code : Bytes) (seconds : Float) (parts : List Part) (score : Score)
    (mixer : Mixer) (track : Nat) :
    Went code track parts (((executedByParts code parts score mixer)[track]?).getD [])
      (runParts code seconds parts score mixer).1 := by
  induction parts generalizing score mixer track with
  | nil => exact Went.refl _ _ _
  | cons part rest ih =>
    cases track with
    | zero =>
      rintro a ⟨⟩
      exact ⟨_, rfl, Stand.stretch_executed code ⟨part.track, score, mixer⟩⟩
    | succ track => exact ih _ _ track

theorem went_runRound (p : Player) (track : Nat) :
    Went p.code track p.parts (p.executedInRound track) p.runRound.parts := by
  have hparts := went_runParts p.code p.seconds p.parts p.score p.mixer track
  unfold runRound
  split
  next parts score mixer hrun =>
  rw [hrun] at hparts
  split
  · intro a ha
    rw [spotOf?_mapVoices]
    exact hparts a ha
  · exact hparts

theorem went_rounds (p : Player) (track rounds : Nat) :
    Went p.code track p.parts
      ((List.range rounds).flatMap fun n => (n.repeat runRound p).executedInRound track)
      (rounds.repeat runRound p).parts := by
  induction rounds with
  | zero => exact Went.refl _ _ _
  | succ rounds ih =>
    rw [List.range_succ, List.flatMap_append, List.flatMap_singleton]
    have hround := went_runRound (rounds.repeat runRound p) track
    rw [Control.Invariant.code_rounds] at hround
    exact ih.trans hround

theorem went_tick (p : Player) (track : Nat) :
    Went p.code track p.parts (p.executedInTick track) p.tick.parts :=
  went_rounds p.counted track (roundsDue p.tempoCount)

theorem went_after (p : Player) (actions : List Action) (track : Nat) :
    Went p.code track p.parts (executed track p actions) (p.after actions).parts := by
  induction actions generalizing p with
  | nil => exact Went.refl _ _ _
  | cons action rest ih =>
    have hrest := ih (p.act action)
    rw [Control.Invariant.code_act] at hrest
    cases action with
    | tick => exact (went_tick p track).trans hrest
    | updateTracks =>
      intro a ha
      exact hrest a ((spotOf?_mapVoices (fun v => { v with updates := {} }) p.parts).trans ha)
    | updateChannels | mix => exact hrest

/-- The stands in which a track executes its commands, whatever is done to the player, are the
beginning of a course. -/
theorem executed_course (p : Player) (actions : List Action) (h : track < p.parts.length) :
    ∃ x, Course p.code x ∧ ∀ i s, (executed track p actions)[i]? = some s → x i = s := by
  have ha : spotOf? p.parts track = some p.parts[track].track.control.spot := by
    rw [spotOf?, List.getElem?_eq_getElem h, Option.map_some]
  obtain ⟨b, -, hstretch⟩ := went_after p actions track _ ha
  exact hstretch.exists_course

end Player

end SoundArchive
