import Mathlib.Data.List.Basic
import Mathlib.Data.Prod.Lex
import SoundArchive.Proofs.Playback.ChannelNumbers

/-!
# A note takes the least important channel

The channels of a pool are compared one by one, each with the best so far. What comes out is the
least by priority, then by volume, then by the order of the pool, and it is all that a note changes.
-/

namespace SoundArchive

theorem Pool.nodup_channels (pool : Pool) : pool.channels.Nodup := by
  cases pool <;> decide

namespace Mixer

variable {m : Mixer} {pool : Pool} {c d : Fin channelCount}

/-! ## The order of importance -/

/-- By what channels are compared: the priority, and the volume among those of one priority. -/
def rank (channels : Vector Channel channelCount) (id : Fin channelCount) : ℕ ×ₗ ℕ :=
  toLex ((channels.get id).priority.toNat, (channels.get id).volume.toNat)

theorem yieldsBefore_iff {channels : Vector Channel channelCount} :
    yieldsBefore (channels.get c) (channels.get d) ↔ rank channels c < rank channels d := by
  simp [yieldsBefore, rank, Prod.Lex.toLex_lt_toLex, UInt8.lt_iff_toNat_lt, UInt16.lt_iff_toNat_lt,
    UInt8.toNat_inj]

/-- The rank of a channel, and among those of one rank the place in the order of the pool. -/
def importance (m : Mixer) (pool : Pool) (id : Fin channelCount) : (ℕ ×ₗ ℕ) ×ₗ ℕ :=
  toLex (rank m.channels id, pool.channels.idxOf id)

/-- Every other channel of the pool is more important. -/
structure IsLeastImportant (m : Mixer) (pool : Pool) (c : Fin channelCount) : Prop where
  mem : c ∈ pool.channels
  least : ∀ d ∈ pool.channels, d ≠ c → m.importance pool c < m.importance pool d

/-! ## The comparison -/

/-- `c` is the first of the least among the channels of a list. -/
def IsFirstLeast (channels : Vector Channel channelCount) (ids : List (Fin channelCount))
    (c : Fin channelCount) : Prop :=
  ∃ front back, ids = front ++ c :: back ∧ (∀ d ∈ front, rank channels c < rank channels d) ∧
    ∀ d ∈ back, rank channels c ≤ rank channels d

/-- One comparison more. -/
theorem IsFirstLeast.concat {channels : Vector Channel channelCount}
    {ids : List (Fin channelCount)} (h : IsFirstLeast channels ids c) (d : Fin channelCount) :
    IsFirstLeast channels (ids ++ [d])
      (if yieldsBefore (channels.get d) (channels.get c) then d else c) := by
  obtain ⟨front, back, rfl, hfront, hback⟩ := h
  split
  · next hyields =>
    have hlt := yieldsBefore_iff.1 hyields
    refine ⟨front ++ c :: back, [], rfl, fun e he => ?_, fun e he => (List.not_mem_nil he).elim⟩
    rcases List.mem_append.1 he with he | he
    · exact hlt.trans (hfront e he)
    · rcases List.mem_cons.1 he with rfl | he
      · exact hlt
      · exact hlt.trans_le (hback e he)
  · next hstays =>
    have hle : rank channels c ≤ rank channels d := not_lt.1 fun h => hstays (yieldsBefore_iff.2 h)
    refine ⟨front, back ++ [d], by simp, hfront, fun e he => ?_⟩
    rcases List.mem_append.1 he with he | he
    · exact hback e he
    · rwa [List.mem_singleton.1 he]

theorem IsFirstLeast.foldl {channels : Vector Channel channelCount}
    {seen : List (Fin channelCount)} (h : IsFirstLeast channels seen c)
    (rest : List (Fin channelCount)) :
    IsFirstLeast channels (seen ++ rest) (rest.foldl (fun best id =>
      if yieldsBefore (channels.get id) (channels.get best) then id else best) c) := by
  induction rest generalizing seen c with
  | nil => simpa using h
  | cons d rest ih =>
    rw [List.append_cons]
    exact ih (h.concat d)

theorem leastImportant_eq_some {channels : Vector Channel channelCount}
    {ids : List (Fin channelCount)} (hids : ids ≠ []) :
    ∃ c, leastImportant channels ids = some c ∧ IsFirstLeast channels ids c := by
  obtain ⟨first, rest, rfl⟩ := List.exists_cons_of_ne_nil hids
  have hfirst : IsFirstLeast channels [first] first := ⟨[], [], rfl, by simp, by simp⟩
  exact ⟨_, rfl, hfirst.foldl rest⟩

/-- The first of the least of a pool comes before the others of its rank. -/
theorem IsFirstLeast.isLeastImportant (h : IsFirstLeast m.channels pool.channels c) :
    m.IsLeastImportant pool c := by
  obtain ⟨front, back, hids, hfront, hback⟩ := h
  have hnodup := pool.nodup_channels
  rw [hids, List.nodup_append] at hnodup
  obtain ⟨-, -, hapart⟩ := hnodup
  have hplace : pool.channels.idxOf c = front.length := by
    have hc : c ∉ front := fun hc => hapart c hc c List.mem_cons_self rfl
    rw [hids, List.idxOf_append_of_notMem hc, List.idxOf_cons_self, Nat.add_zero]
  refine ⟨hids ▸ List.mem_append_right _ List.mem_cons_self, fun d hd hne => ?_⟩
  -- Those in front have a higher rank. Those behind may have the same, and then the place counts.
  rw [importance, importance, Prod.Lex.toLex_lt_toLex]
  rw [hids] at hd
  rcases List.mem_append.1 hd with hd | hd
  · exact .inl (hfront d hd)
  · have hd : d ∈ back := (List.mem_cons.1 hd).resolve_left hne
    have hplace' : pool.channels.idxOf d = front.length + (back.idxOf d + 1) := by
      have hfree : d ∉ front := fun h => hapart d h d (List.mem_cons_of_mem c hd) rfl
      rw [hids, List.idxOf_append_of_notMem hfree, List.idxOf_cons_ne _ hne.symm]
    rcases (hback d hd).lt_or_eq with hlt | heq
    · exact .inl hlt
    · exact .inr ⟨heq, by simp only; omega⟩

/-! ## Allocation -/

/-- The least important channel of a pool is allocated, unless the note is less important. -/
theorem allocate?_eq (m : Mixer) (pool : Pool) (priority : UInt8) :
    ∃ c, m.IsLeastImportant pool c ∧ m.allocate? pool priority =
      if priority < (m.channel c).priority then none
      else some (c, m.setChannel c (m.channel c).claim) := by
  have hpool : pool.channels ≠ [] := by cases pool <;> decide
  obtain ⟨c, hc, hfirst⟩ : ∃ c, leastImportant m.channels pool.channels = some c ∧
      IsFirstLeast m.channels pool.channels c := leastImportant_eq_some hpool
  exact ⟨c, hfirst.isLeastImportant, by rw [allocate?, hc]⟩

end Mixer

/-- A note changes nothing, or the least important channel of a pool that is not more important
than the note. -/
theorem Voice.noteOn_least (v : Voice) (m : Mixer) (patch : UInt32) (note : Note) :
    v.noteOn m patch note = (v, m) ∨
      ∃ pool c, m.IsLeastImportant pool c ∧ (m.channel c).priority ≤ v.priority ∧
        ∀ d, d ≠ c → (v.noteOn m patch note).2.channel d = m.channel d := by
  rcases v.noteOn_cases m patch note with hnone | ⟨pool, c, m', source, range, hallocate, hon⟩
  · exact .inl hnone
  · obtain ⟨e, hleast, heq⟩ := m.allocate?_eq pool v.priority
    rw [heq] at hallocate
    split at hallocate
    · cases hallocate
    · next hpriority =>
      cases hallocate
      refine .inr ⟨pool, c, hleast, UInt8.not_lt.1 hpriority, fun d hd => ?_⟩
      rw [hon, Mixer.channel_setChannel_of_ne _ _ hd, Mixer.channel_setChannel_of_ne _ _ hd]

namespace Mixer

/-- From a pool the channel is allocated that is the least by priority, volume and place, unless
its priority is above that of the note. It loses the length of its note and its volume, and
nothing else changes. A note that is played changes nothing, or besides such a channel nothing.
In every run the channel is that of the number. -/
theorem allocate?_least :
    (∀ (m : Mixer) (pool : Pool) (priority : UInt8), ∃ c m', m.IsLeastImportant pool c ∧
      m.allocate? pool priority
        = (if priority < (m.channel c).priority then none else some (c, m')) ∧
      m'.channel c = { m.channel c with noteLength := -1, volume := 0 } ∧
      (∀ d, d ≠ c → m'.channel d = m.channel d) ∧ { m' with channels := m.channels } = m) ∧
    (∀ (v : Voice) (m : Mixer) (patch : UInt32) (note : Note),
      v.noteOn m patch note = (v, m) ∨
        ∃ pool c, m.IsLeastImportant pool c ∧ (m.channel c).priority ≤ v.priority ∧
          ∀ d, d ≠ c → (v.noteOn m patch note).2.channel d = m.channel d) ∧
    ∀ (code : Bytes) (s : Setup) (actions : List Player.Action) (c : Fin channelCount),
      (((Player.opened code s).after actions).mixer.channel c).id = c := by
  refine ⟨fun m pool priority => ?_, Voice.noteOn_least, Player.id_channel_after⟩
  obtain ⟨c, hleast, heq⟩ := m.allocate?_eq pool priority
  exact ⟨c, _, hleast, heq, channel_setChannel_self .., fun d => channel_setChannel_of_ne m _, rfl⟩

/-- Channel 9 has the lowest priority, and channel 6 the lowest volume. -/
theorem allocate?_least_of_quiet :
    let channel : Fin channelCount → Channel := fun i =>
      { id := i, priority := if i = 9 then 90 else 100, volume := if i = 6 then 10 else 50 }
    let m : Mixer := { channels := .ofFn channel }
    m.IsLeastImportant .pcm 9 ∧ (6 : Fin channelCount) ≠ 9 ∧
      (∃ m', m.allocate? .pcm 90 = some (9, m') ∧
        m'.channel 9 = { m.channel 9 with noteLength := -1, volume := 0 } ∧
        m'.channel 6 = m.channel 6) ∧
      m.allocate? .pcm 89 = none := by
  intro channel m
  have hleast : m.IsLeastImportant .pcm 9 := ⟨by decide, by decide +kernel⟩
  have hunique (c : Fin channelCount) (h : m.IsLeastImportant .pcm c) : c = 9 :=
    Decidable.byContradiction fun hne =>
      lt_asymm (h.least 9 hleast.mem (Ne.symm hne)) (hleast.least c h.mem hne)
  obtain ⟨c, m', hc, hallocate, hclaimed, hothers, -⟩ := allocate?_least.1 m .pcm 90
  obtain ⟨d, n', hd, hrefused, -⟩ := allocate?_least.1 m .pcm 89
  obtain rfl := hunique c hc
  obtain rfl := hunique d hd
  rw [if_neg (by decide +kernel)] at hallocate
  rw [if_pos (by decide +kernel)] at hrefused
  exact ⟨hleast, by decide, ⟨m', hallocate, hclaimed, hothers 6 (by decide)⟩, hrefused⟩

end Mixer

end SoundArchive
