import SoundArchive.Proofs.Playback.Run

/-!
# Channels stay at the places of their numbers

Whatever a player does, it does by calls of single channels. What each of these keeps of its channel
is kept in every run, and all of them keep the number.
-/

namespace SoundArchive

/-! ## Channels -/

/-- A relation between a channel and what becomes of it, whatever is done to it. -/
structure Channel.Kept (R : Channel → Channel → Prop) : Prop where
  refl : ∀ c, R c c
  trans : ∀ {a b c}, R a b → R b c → R a c
  claim : ∀ c, R c c.claim
  start : ∀ c source range v note baseVolume, R c (c.start source range v note baseVolume)
  retrigger : ∀ c v key velocity baseVolume, R c (c.retrigger v key velocity baseVolume)
  letGo : ∀ c, R c c.letGo
  follow : ∀ c v baseVolume, R c (c.follow v baseVolume)
  update : ∀ c, R c c.update
  mix : ∀ c, R c c.mix.1

namespace Channel

variable {c : Channel}

theorem id_followPortamento (v : Voice) : (c.followPortamento v).id = c.id := by
  unfold followPortamento
  split
  · rfl
  · simp only
    split <;> rfl

theorem id_countRun : c.countRun.id = c.id := by
  unfold countRun
  simp only [apply_ite Channel.id, letGo, ite_self]

theorem id_follow (v : Voice) (baseVolume : Int) : (c.follow v baseVolume).id = c.id := by
  unfold follow
  simp only [apply_ite Channel.id, followVolume, followPan, followTune, followModulation,
    id_countRun, ite_self]

theorem id_stepEnvelope : c.stepEnvelope.id = c.id := by
  unfold stepEnvelope
  cases c.stage <;> simp only [attackStep, kill, apply_ite Channel.id, ite_self]

theorem id_stepModulation : c.stepModulation.1.id = c.id := by
  unfold stepModulation
  simp only [apply_ite Prod.fst, apply_ite Channel.id, ite_self]

theorem id_update : c.update.id = c.id := by
  have hrefresh : c.update.id = c.stepEnvelope.id := by
    unfold update
    simp only [apply_ite Channel.id, refreshTimer, refreshVolume, refreshPan, ite_self,
      id_stepModulation]
  rw [hrefresh, id_stepEnvelope]

theorem id_mix : c.mix.1.id = c.id := by
  have hadvance (c : Channel) : c.advance.id = c.id := by
    unfold advance
    split
    · simp only [apply_ite Channel.id, kill, ite_self]
    · rfl
  exact hadvance _

theorem kept_id : Kept fun c d => d.id = c.id where
  refl _ := rfl
  trans h h' := h'.trans h
  claim _ := rfl
  start _ _ _ v _ _ := id_followPortamento v
  retrigger _ v _ _ _ := id_followPortamento v
  letGo _ := rfl
  follow _ v baseVolume := id_follow v baseVolume
  update _ := id_update
  mix _ := id_mix

end Channel

/-! ## The mixer -/

namespace Mixer

variable {m m' : Mixer} {c d : Fin channelCount}

theorem channel_setChannel_self (m : Mixer) (c : Fin channelCount) (channel : Channel) :
    (m.setChannel c channel).channel c = channel :=
  Vector.getElem_set_self c.isLt

theorem channel_setChannel_of_ne (m : Mixer) (channel : Channel) (h : d ≠ c) :
    (m.setChannel c channel).channel d = m.channel d :=
  Vector.getElem_set_ne c.isLt d.isLt fun heq => h (Fin.ext heq.symm)

theorem channel_mapChannels (m : Mixer) (f : Channel → Channel) (d : Fin channelCount) :
    (m.mapChannels f).channel d = f (m.channel d) :=
  Vector.getElem_map f d.isLt

theorem allocate?_eq_some {pool : Pool} {priority : UInt8}
    (h : m.allocate? pool priority = some (c, m')) : m' = m.setChannel c (m.channel c).claim := by
  unfold allocate? at h
  split at h
  · cases h
  · split at h
    · cases h
    · cases h
      rfl

end Mixer

/-- A note changes nothing at all, or it starts on a channel that it was allocated. -/
theorem Voice.noteOn_cases (v : Voice) (m : Mixer) (patch : UInt32) (note : Note) :
    v.noteOn m patch note = (v, m) ∨
      ∃ pool c m' source range, m.allocate? pool v.priority = some (c, m') ∧
        v.noteOn m patch note = ({ v with portamentoKey := note.key },
          m'.setChannel c ((m'.channel c).start source range v note m'.sequenceVolume)) := by
  unfold noteOn
  simp only
  split
  · exact .inl rfl
  · next played hstarted =>
    right
    simp only [Option.bind_eq_bind, Option.bind_eq_some_iff] at hstarted
    obtain ⟨_, -, _, -, range, -, ⟨pool, source⟩, -, ⟨c, m'⟩, hallocate, hplayed⟩ := hstarted
    exact ⟨pool, c, m', source, range, hallocate, by rw [← Option.some.inj hplayed]⟩

namespace Channel.Kept

variable {R : Channel → Channel → Prop} {m m' : Mixer} {code : Bytes} {d : Fin channelCount}

theorem setChannel (h : Kept R) {c : Fin channelCount} {channel : Channel}
    (hc : R (m.channel c) channel) : R (m.channel d) ((m.setChannel c channel).channel d) := by
  by_cases hd : d = c
  · subst hd
    rwa [Mixer.channel_setChannel_self]
  · rw [Mixer.channel_setChannel_of_ne _ _ hd]
    exact h.refl _

theorem noteOn (h : Kept R) (v : Voice) (m : Mixer) (patch : UInt32) (note : Note) :
    R (m.channel d) ((v.noteOn m patch note).2.channel d) := by
  rcases v.noteOn_cases m patch note with hnone | ⟨pool, c, m', source, range, hallocate, hon⟩
  · rw [hnone]
    exact h.refl _
  · rw [hon, Mixer.allocate?_eq_some hallocate]
    exact h.trans (h.setChannel (h.claim _)) (h.setChannel (h.start _ source range v note _))

theorem perform (h : Kept R) (v : Voice) (m : Mixer) (c : Control) (i : Instruction) :
    R (m.channel d) ((v.perform m c i).2.channel d) := by
  unfold Voice.perform
  cases i.opcode with
  | note key =>
    simp only [Voice.playNote, Voice.tieNote]
    split
    · exact h.refl _
    · split
      · split
        · exact h.setChannel (h.retrigger _ v _ _ _)
        · exact h.noteOn v m _ _
      · exact h.noteOn v m _ _
  | tie =>
    simp only [Voice.releaseNotes, Mixer.channel_mapChannels]
    split
    · exact h.letGo _
    · exact h.refl _
  | _ => exact h.refl _

theorem step (h : Kept R) (s : Stand) : R (s.mixer.channel d) ((s.step code).mixer.channel d) := by
  unfold Stand.step
  simp only
  split
  · exact h.refl _
  · exact h.perform s.track.voice s.mixer _ _

theorem play (h : Kept R) (limit : Nat) (s : Stand) :
    R (s.mixer.channel d) ((s.play code limit).mixer.channel d) := by
  induction limit generalizing s with
  | zero => exact h.refl _
  | succ limit ih =>
    unfold Stand.play
    split
    · exact h.refl _
    · exact h.trans (h.step s) (ih _)

theorem run (h : Kept R) (s : Stand) : R (s.mixer.channel d) ((s.run code).mixer.channel d) := by
  unfold Stand.run
  simp only
  split
  · exact h.refl _
  · exact h.play Track.commandLimit s.resumed

theorem runParts (h : Kept R) (seconds : Float) (parts : List Part) (score : Score)
    (mixer : Mixer) :
    R (mixer.channel d) ((Player.runParts code seconds parts score mixer).2.2.channel d) := by
  induction parts generalizing score mixer with
  | nil => exact h.refl _
  | cons part rest ih => exact h.trans (h.run ⟨part.track, score, mixer⟩) (ih _ _)

theorem runRound (h : Kept R) (p : Player) :
    R (p.mixer.channel d) (p.runRound.mixer.channel d) := by
  have hparts : R (p.mixer.channel d)
      ((Player.runParts p.code p.seconds p.parts p.score p.mixer).2.2.channel d) :=
    h.runParts p.seconds p.parts p.score p.mixer
  unfold Player.runRound
  split
  next parts score mixer hrun =>
  rw [hrun] at hparts
  split <;> exact hparts

theorem rounds (h : Kept R) (p : Player) (rounds : Nat) :
    R (p.mixer.channel d) ((rounds.repeat Player.runRound p).mixer.channel d) := by
  induction rounds with
  | zero => exact h.refl _
  | succ rounds ih => exact h.trans ih (h.runRound _)

theorem act (h : Kept R) (p : Player) (action : Player.Action) :
    R (p.mixer.channel d) ((p.act action).mixer.channel d) := by
  cases action with
  | tick => exact h.rounds p.counted _
  | updateTracks =>
    simp only [Player.act, Player.updateTracks, Mixer.channel_mapChannels, Player.followTrack]
    split
    · exact h.refl _
    · split
      · exact h.refl _
      · exact h.follow _ _ _
  | updateChannels =>
    simp only [Player.act, Player.updateChannels, Mixer.channel_mapChannels]
    exact h.update _
  | mix =>
    have hmixed : (p.act .mix).mixer.channel d = (Mixer.mixChannel (p.mixer.channel d)).1 :=
      (Vector.getElem_map _ d.isLt).trans (congrArg Prod.fst (Vector.getElem_map _ d.isLt))
    rw [hmixed, Mixer.mixChannel]
    split
    · exact h.mix _
    · exact h.refl _

/-- What is kept by everything that is done to a channel is kept in every run. -/
theorem after (h : Kept R) (p : Player) (actions : List Player.Action) :
    R (p.mixer.channel d) ((p.after actions).mixer.channel d) := by
  induction actions generalizing p with
  | nil => exact h.refl _
  | cons action rest ih => exact h.trans (h.act p action) (ih _)

end Channel.Kept

/-- In every run the channels are at the places of their numbers. -/
theorem Player.id_channel_after (code : Bytes) (s : Setup) (actions : List Action)
    (d : Fin channelCount) : (((opened code s).after actions).mixer.channel d).id = d := by
  rw [Channel.kept_id.after (opened code s) actions]
  exact congrArg Channel.id (Vector.getElem_ofFn d.isLt)

end SoundArchive
