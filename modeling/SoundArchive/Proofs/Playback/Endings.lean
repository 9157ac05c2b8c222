import SoundArchive.Proofs.Playback.Looping
import SoundArchive.Proofs.Traversal

/-! # A track that has ended stays as it is, and the last of its times says so -/

namespace SoundArchive

/-! ## Marks of an end -/

/-- No instruction ends a track without marking the end, or marks one without ending the track. -/
theorem Control.hitEnd_perform {c : Control} (h : c.hitEnd = c.ended) (s : Score)
    (i : Instruction) : (c.perform s i).1.hitEnd = (c.perform s i).1.ended := by
  obtain ⟨op, first, second⟩ := i
  cases op
  case finish => rfl
  case call =>
    simp only [perform, call]
    split <;> exact h
  case ret =>
    simp only [perform, ret]
    split <;> exact h
  case loopStart =>
    simp only [perform, loopStart]
    split <;> exact h
  case loopEnd =>
    simp only [perform, loopEnd]
    split
    · split
      · exact h
      · split <;> exact h
    · exact h
  case note | compare =>
    simp only [perform]
    split <;> exact h
  all_goals exact h

/-- Taking marks away that are not there changes nothing. -/
theorem Control.unmarked_eq {c : Control} (hloop : c.hitLoop = false) (hend : c.hitEnd = false) :
    { c with hitLoop := false, hitEnd := false } = c := by
  cases c
  subst hloop hend
  rfl

namespace Stand

variable {code : Bytes} {s : Stand}

theorem hitEnd_step (h : s.track.control.hitEnd = s.track.control.ended) :
    (s.step code).track.control.hitEnd = (s.step code).track.control.ended := by
  rw [step_control, Control.step]
  cases Command.read code s.track.control.position with
  | error e => rfl
  | ok r =>
    obtain ⟨command, behind⟩ := r
    rcases hres : command.resolve s.track.control.condition s.score with ⟨_ | i, score⟩
    · simpa only [hres] using h
    · simp only [hres]
      exact Control.hitEnd_perform (c := { s.track.control with position := behind }) h score i

theorem hitEnd_play (limit : Nat) (h : s.track.control.hitEnd = s.track.control.ended) :
    (s.play code limit).track.control.hitEnd = (s.play code limit).track.control.ended := by
  induction limit generalizing s with
  | zero => exact h
  | succ limit ih =>
    unfold play
    split
    · exact h
    · exact ih (hitEnd_step h)

/-- In the run in which it ends, a track is marked. -/
theorem hitEnd_run (hended : s.track.control.ended = false)
    (hmark : s.track.control.hitEnd = false) :
    (s.run code).track.control.hitEnd = (s.run code).track.control.ended := by
  rw [run_of_not_ended hended]
  exact hitEnd_play _ (hmark.trans hended.symm)

end Stand

/-! ## What every run keeps of a part -/

namespace Part

/-- The part after its run in a round, with what it hit recorded. -/
def ran (code : Bytes) (seconds : Float) (score : Score) (mixer : Mixer) (part : Part) : Part :=
  let track := (Stand.run code { track := part.track, score, mixer }).track
  { track := { track with control := { track.control with hitLoop := false, hitEnd := false } }
    times := Player.recordTimes seconds part.times track.control }

def withUpdates (part : Part) (updates : Updates) : Part :=
  { part with track := { part.track with voice := { part.track.voice with updates } } }

/-- A relation between a part and what becomes of it: a run gives it, whatever else plays, and so
does a change of the updates. -/
structure Kept (code : Bytes) (R : Part → Part → Prop) : Prop where
  refl : ∀ part, R part part
  trans : ∀ {a b c}, R a b → R b c → R a c
  ran : ∀ part seconds score mixer, R part (part.ran code seconds score mixer)
  updated : ∀ part updates, R part (part.withUpdates updates)

end Part

namespace Part.Kept

variable {code : Bytes} {R : Part → Part → Prop} {p : Player}

theorem runParts (h : Kept code R) (seconds : Float) (parts : List Part) (score : Score)
    (mixer : Mixer) :
    List.Forall₂ R parts (Player.runParts code seconds parts score mixer).1 := by
  induction parts generalizing score mixer with
  | nil => exact .nil
  | cons part rest ih => exact .cons (h.ran part seconds score mixer) (ih _ _)

theorem mapVoices (h : Kept code R) (f : Voice → Updates) (parts : List Part) :
    List.Forall₂ R parts (Player.mapVoices (fun v => { v with updates := f v }) parts) := by
  rw [Player.mapVoices, List.forall₂_map_right_iff, List.forall₂_same]
  exact fun part _ => h.updated part (f part.track.voice)

theorem forall₂_trans (h : Kept code R) {a b c : List Part} (hab : List.Forall₂ R a b)
    (hbc : List.Forall₂ R b c) : List.Forall₂ R a c := by
  induction hab generalizing c with
  | nil => exact hbc
  | cons hx _ ih =>
    cases hbc with
    | cons hy hrest => exact .cons (h.trans hx hy) (ih hrest)

theorem runRound (h : Kept p.code R) : List.Forall₂ R p.parts p.runRound.parts := by
  have hparts := h.runParts p.seconds p.parts p.score p.mixer
  unfold Player.runRound
  split
  next parts score mixer hrun =>
  rw [hrun] at hparts
  split
  · exact h.forall₂_trans hparts (h.mapVoices (fun v => { v.updates with volume := true }) parts)
  · exact hparts

theorem rounds (h : Kept p.code R) (rounds : Nat) :
    List.Forall₂ R p.parts (rounds.repeat Player.runRound p).parts := by
  induction rounds with
  | zero => exact List.forall₂_same.2 fun part _ => h.refl part
  | succ rounds ih =>
    refine h.forall₂_trans ih (runRound ?_)
    rwa [Control.Invariant.code_rounds]

theorem act (h : Kept p.code R) (action : Player.Action) :
    List.Forall₂ R p.parts (p.act action).parts := by
  cases action with
  | tick => exact rounds (p := p.counted) h _
  | updateTracks => exact h.mapVoices (fun _ => {}) p.parts
  | updateChannels | mix => exact List.forall₂_same.2 fun part _ => h.refl part

theorem after (h : Kept p.code R) (actions : List Player.Action) :
    List.Forall₂ R p.parts (p.after actions).parts := by
  induction actions generalizing p with
  | nil => exact List.forall₂_same.2 fun part _ => h.refl part
  | cons action rest ih =>
    have hrest := ih (p := p.act action) (by rwa [Control.Invariant.code_act])
    exact h.forall₂_trans (h.act action) hrest

end Part.Kept

/-! ## Times -/

namespace Part

/-- The times are some loops, with an end behind them if the track has ended. -/
def WellTimed (part : Part) : Prop :=
  ∃ loops, part.times.toList.map Length.kind =
    List.replicate loops .loop ++ if part.track.control.ended then [.finish] else []

/-- Between rounds all that the track hit was recorded. -/
structure Settled (part : Part) : Prop where
  hitLoop : part.track.control.hitLoop = false
  hitEnd : part.track.control.hitEnd = false
  times : part.WellTimed

/-- What becomes of a part that is settled. -/
structure Continues (part part' : Part) : Prop where
  settled : part'.Settled
  times : part.times.toList <+: part'.times.toList
  /-- Once the track has ended, only its updates change. -/
  ended : part.track.control.ended = true → part'.withUpdates {} = part.withUpdates {}

variable {part : Part}

theorem ran_of_ended (h : part.Settled) (hended : part.track.control.ended = true)
    (code : Bytes) (seconds : Float) (score : Score) (mixer : Mixer) :
    part.ran code seconds score mixer
      = part.withUpdates { part.track.voice.updates with length := true } := by
  have hrun : (Stand.run code { track := part.track, score, mixer }).track
      = (part.withUpdates { part.track.voice.updates with length := true }).track := by
    simp only [Stand.run, hended, if_true]
    rfl
  have hcontrol := Control.unmarked_eq h.hitLoop h.hitEnd
  simp only [ran, hrun]
  simp only [withUpdates, Player.recordTimes, h.hitLoop, h.hitEnd, Bool.false_eq_true, if_false]
  exact congrArg (fun control => { part with track := { part.track with
    control, voice := { part.track.voice with
      updates := { part.track.voice.updates with length := true } } } }) hcontrol

theorem kind_recordTimes (seconds : Float) (times : Array Length) (c : Control) :
    (Player.recordTimes seconds times c).toList.map Length.kind =
      times.toList.map Length.kind ++ List.replicate c.hitLoop.toNat .loop
        ++ if c.hitEnd then [.finish] else [] := by
  unfold Player.recordTimes
  cases c.hitLoop <;> cases c.hitEnd <;> simp

theorem wellTimed_ran (h : part.Settled) (hended : part.track.control.ended = false)
    (code : Bytes) (seconds : Float) (score : Score) (mixer : Mixer) :
    (part.ran code seconds score mixer).WellTimed := by
  obtain ⟨loops, htimes⟩ := h.times
  simp only [hended, Bool.false_eq_true, if_false, List.append_nil] at htimes
  let stand : Stand := { track := part.track, score, mixer }
  have hrun : (Stand.run code stand).track.control.hitEnd = (stand.run code).track.control.ended :=
    Stand.hitEnd_run hended h.hitEnd
  refine ⟨loops + (stand.run code).track.control.hitLoop.toNat, ?_⟩
  simp only [ran, kind_recordTimes, htimes, stand, hrun, ← List.replicate_add]
  rfl

theorem Settled.continues_ran (h : part.Settled) (code : Bytes) (seconds : Float) (score : Score)
    (mixer : Mixer) : part.Continues (part.ran code seconds score mixer) := by
  cases hended : part.track.control.ended with
  | true =>
    rw [ran_of_ended h hended]
    exact ⟨⟨h.hitLoop, h.hitEnd, h.times⟩, List.prefix_refl _, fun _ => rfl⟩
  | false =>
    obtain ⟨added, hadded, -⟩ := Player.recorded_recordTimes seconds part.times
      (Stand.run code { track := part.track, score, mixer }).track.control
    refine ⟨⟨rfl, rfl, wellTimed_ran h hended code seconds score mixer⟩, ⟨added, hadded.symm⟩, ?_⟩
    intro htrue
    rw [hended] at htrue
    cases htrue

theorem Continues.times_of_ended {part' : Part} (h : part.Continues part')
    (hended : part.track.control.ended = true) : part'.times = part.times := by
  have hsame := congrArg Part.times (h.ended hended)
  exact hsame

theorem Continues.trans {a b c : Part} (h : a.Continues b) (h' : b.Continues c) :
    a.Continues c where
  settled := h'.settled
  times := h.times.trans h'.times
  ended hended := by
    have hsame := h.ended hended
    have hb : b.track.control.ended = true :=
      (congrArg (·.track.control.ended) hsame).trans hended
    exact (h'.ended hb).trans hsame

theorem kept_continues (code : Bytes) :
    Kept code fun part part' => part.Settled → part.Continues part' where
  refl _ h := ⟨h, List.prefix_refl _, fun _ => rfl⟩
  trans hab hbc h := (hab h).trans (hbc (hab h).settled)
  ran _ seconds score mixer h := h.continues_ran code seconds score mixer
  updated _ _ h := ⟨⟨h.hitLoop, h.hitEnd, h.times⟩, List.prefix_refl _, fun _ => rfl⟩

end Part

namespace Player

theorem settled_opened (code : Bytes) (setup : Setup) :
    ∀ part ∈ (opened code setup).parts, part.Settled := by
  intro part hpart
  obtain ⟨started, hstarted, rfl⟩ := List.mem_map.1 hpart
  obtain ⟨⟨first, i⟩, -, rfl⟩ := List.mem_map.1 hstarted
  exact ⟨rfl, rfl, 0, rfl⟩

theorem continues_after {p : Player} (h : ∀ part ∈ p.parts, part.Settled)
    (actions : List Action) : List.Forall₂ Part.Continues p.parts (p.after actions).parts := by
  have hkept := (Part.kept_continues p.code).after actions
  exact ((List.forall₂_and_left _ _).2 ⟨h, hkept⟩).imp fun _ _ ⟨hsettled, hpart⟩ => hpart hsettled

end Player

/-! ## Classification -/

namespace Part

/-- The track has ended, or gone back `loops` times. -/
def Counts (loops : Nat) (part : Part) : Prop :=
  ∃ last, part.times.back? = some last ∧ (last.kind = .finish ∨ loops ≤ part.times.size)

instance (loops : Nat) : DecidablePred (Counts loops) := fun part =>
  decidable_of_iff (∃ last ∈ part.times.back?, last.kind = .finish ∨ loops ≤ part.times.size)
    Iff.rfl

/-- A track that counts goes on to count: its end stays its last time, and its loops get no
fewer. -/
theorem Continues.counts {part part' : Part} {loops : Nat} (h : part.Continues part')
    (hsettled : part.Settled) (hcounts : part.Counts loops) : part'.Counts loops := by
  obtain ⟨last, hlast, hkind⟩ := hcounts
  cases hended : part.track.control.ended with
  | true =>
    have htimes : part'.times = part.times := h.times_of_ended hended
    exact ⟨last, htimes ▸ hlast, htimes ▸ hkind⟩
  | false =>
    obtain ⟨n, hloops⟩ := hsettled.times
    simp only [hended, Bool.false_eq_true, if_false, List.append_nil] at hloops
    have hloop : last.kind = .loop := by
      refine List.eq_of_mem_replicate (hloops ▸ List.mem_map_of_mem ?_)
      exact (Array.mem_of_back? hlast).val
    have hsize : loops ≤ part.times.size := hkind.resolve_left (by simp [hloop])
    have hle : part.times.size ≤ part'.times.size := h.times.length_le
    have hpos : 0 < part.times.size := by
      rw [Array.back?_eq_getElem?] at hlast
      have := (Array.getElem?_eq_some_iff.1 hlast).1
      omega
    have hback : part'.times.back? = some part'.times[part'.times.size - 1] := by
      rw [Array.back?_eq_getElem?, Array.getElem?_eq_getElem]
    exact ⟨_, hback, .inr (by omega)⟩

end Part

namespace Player

theorem Tally.ended_note (t : Tally) (time : Length) : (t.note time).ended = t.ended := by
  unfold note
  split <;> rfl

theorem Tally.counted_add (loops : Nat) (t : Tally) (part : Part) :
    (t.add loops part.times).looped + (t.add loops part.times).ended =
      t.looped + t.ended + if part.Counts loops then 1 else 0 := by
  unfold add
  cases hlast : part.times.back? with
  | none => simp [Part.Counts, hlast]
  | some last =>
    have hcounts : part.Counts loops ↔ last.kind = .finish ∨ loops ≤ part.times.size := by
      simp [Part.Counts, hlast]
    cases hkind : last.kind with
    | finish => simp [hkind, hcounts, looped_note, ended_note, Nat.add_assoc]
    | loop =>
      by_cases hsize : loops ≤ part.times.size
      · simp [hkind, hcounts, hsize, looped_note, ended_note, Nat.add_right_comm]
      · simp [hkind, hcounts, hsize]

theorem counted_tally (p : Player) (loops : Nat) :
    (p.tally loops).looped + (p.tally loops).ended
      = p.parts.countP fun part => part.Counts loops := by
  have hfold (parts : List Part) (t : Tally) :
      let total := parts.foldl (fun t part => t.add loops part.times) t
      total.looped + total.ended
        = t.looped + t.ended + parts.countP fun part => part.Counts loops := by
    induction parts generalizing t with
    | nil => rfl
    | cons part rest ih =>
      simp only [List.foldl_cons, ih, Tally.counted_add, List.countP_cons, decide_eq_true_eq]
      omega
  exact (hfold p.parts {}).trans (Nat.zero_add _)

/-- There is a length exactly when every track counts. -/
theorem isSome_classify_iff (p : Player) (loops : Nat) :
    (p.classify loops).isSome = true ↔ ∀ part ∈ p.parts, part.Counts loops := by
  have hcounted := counted_tally p loops
  have hle := List.countP_le_length (p := fun part => decide (part.Counts loops)) (l := p.parts)
  have hall := List.countP_eq_length (p := fun part => decide (part.Counts loops)) (l := p.parts)
  simp only [decide_eq_true_eq] at hall
  rw [← hall, ← hcounted]
  simp only [classify]
  split
  · simp
    omega
  · split
    · simp
      omega
    · split <;> simp_all

theorem classify_congr {p q : Player} (h : p.parts.map Part.times = q.parts.map Part.times)
    (loops : Nat) : p.classify loops = q.classify loops := by
  have htally : p.tally loops = q.tally loops := by
    have := congrArg (List.foldl (Tally.add loops) {}) h
    rwa [List.foldl_map, List.foldl_map] at this
  have hlength := congrArg List.length h
  rw [List.length_map, List.length_map] at hlength
  simp only [classify, htally, hlength]

/-- The times of a track are loops, and an end behind them exactly if the track has ended, after
which it stays as it is but for its updates. So there goes on to be a length once there is one,
and it is the same for good once all tracks have ended. -/
theorem times_wellTimed_final (code : Bytes) (setup : Setup) (actions further : List Action) :
    let p := (opened code setup).after actions
    (∀ part ∈ p.parts, part.WellTimed) ∧
    List.Forall₂ (fun part part' => part.track.control.ended = true →
      part'.withUpdates {} = part.withUpdates {}) p.parts (p.after further).parts ∧
    ∀ loops, ((p.classify loops).isSome = true → ((p.after further).classify loops).isSome = true) ∧
      ((∀ part ∈ p.parts, part.track.control.ended = true) →
        (p.after further).classify loops = p.classify loops) := by
  intro p
  have hsettled : ∀ part ∈ p.parts, part.Settled := by
    intro part hpart
    have hopened := continues_after (settled_opened code setup) actions
    obtain ⟨_, -, hcontinues⟩ := exists_of_forall₂ hopened hpart
    exact hcontinues.settled
  have hfurther := continues_after hsettled further
  refine ⟨fun part hpart => (hsettled part hpart).times, hfurther.imp fun _ _ h => h.ended, ?_⟩
  intro loops
  constructor
  · intro hsome
    rw [isSome_classify_iff] at hsome ⊢
    intro part' hpart'
    obtain ⟨part, hpart, hcontinues⟩ := exists_of_forall₂ hfurther hpart'
    exact hcontinues.counts (hsettled part hpart) (hsome part hpart)
  · intro hended
    refine (classify_congr ?_ loops).symm
    have htimes := ((List.forall₂_and_left _ _).2 ⟨hended, hfurther⟩).imp
      fun _ _ ⟨hpart, hcontinues⟩ => (hcontinues.times_of_ended hpart).symm
    rw [← List.forall₂_eq_eq_eq, List.forall₂_map_left_iff, List.forall₂_map_right_iff]
    exact htimes

/-- A jump forward, a rest of one round and the end, which comes in the sixth tick. -/
theorem times_of_jump_and_end :
    let p := (opened #[0x94, 4, 0, 0, 0x80, 1, 0xFF] .silent).after (List.replicate 6 .tick)
    let q := p.after [.updateTracks, .tick, .tick]
    p.parts.map (fun part => part.times.toList.map Length.kind) = [[.loop, .finish]] ∧
    (∀ part ∈ p.parts, part.track.control.ended = true) ∧ (p.classify 2).isSome = true ∧
    (q.classify 2).isSome = true ∧ q.classify 2 = p.classify 2 := by
  intro p q
  have hended : ∀ part ∈ p.parts, part.track.control.ended = true := by decide +kernel
  have hsome : (p.classify 2).isSome = true := by decide +kernel
  obtain ⟨-, -, hfinal⟩ := times_wellTimed_final #[0x94, 4, 0, 0, 0x80, 1, 0xFF] .silent
    (List.replicate 6 .tick) [.updateTracks, .tick, .tick]
  exact ⟨by decide +kernel, hended, hsome, (hfinal 2).1 hsome, (hfinal 2).2 hended⟩

end Player

end SoundArchive
