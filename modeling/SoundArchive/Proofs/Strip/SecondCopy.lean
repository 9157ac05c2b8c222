import SoundArchive.Proofs.Merge.Appended
import SoundArchive.Proofs.Merge.Captured
import SoundArchive.Proofs.Strip.Content

/-!
# A second copy of an archive is stripped away

Every entry of a second copy has a leader in the first, and what was kept of the first copy alone
is kept again.
-/

namespace SoundArchive

open Slots

/-! ## Leaders in front of more slots -/

namespace Leaders

variable {α κ : Type} {equal equal' : α → α → Bool} {key : α → κ} {slots rest : Slots α}
  {m n : Nat} {x x' : α}

/-- An entry has the leader that an entry of the same key has without the slots behind. -/
theorem leader_append_eq (key key' : α → κ) (hequal : ∀ x y, equal x y = true ↔ key x = key y)
    (hequal' : ∀ x y, equal' x y = true ↔ key' x = key' y)
    (hkeys : ∀ x ∈ slots.live, key' x = key x) (hx : slots.entry? n = some x)
    (hx' : entry? (slots ++ rest) m = some x') (hsame : key' x' = key x) :
    (ofSlots equal' (slots ++ rest)).leader m = (ofSlots equal slots).leader n := by
  obtain ⟨y, hfirst, hkey⟩ := leader_spec hequal hx
  obtain ⟨y', hfirst', hkey'⟩ := leader_spec hequal' hx'
  have hfront : IsFirst key' slots ((ofSlots equal slots).leader n) y := by
    refine ⟨hfirst.1, fun k z hz hyz => hfirst.2 k z hz ?_⟩
    rw [← hkeys y (mem_live.2 ⟨_, hfirst.1⟩), ← hkeys z (mem_live.2 ⟨k, hz⟩), hyz]
  refine hfirst'.unique (hfront.append rest) ?_
  rw [hkey', hsame, ← hkey, hkeys y (mem_live.2 ⟨_, hfirst.1⟩)]

end Leaders

namespace Archive

open Leaders

variable {a : Archive} {decider : Decider} {options : StripOptions}

/-- Every reference of a sequence or a bank leads to an entry, if it does not stand for none. If
there are no players, none is meant. -/
structure IsClosed (a : Archive) : Prop where
  bank : ∀ s ∈ a.sequences.live, (a.bank? s.settings.bank).isSome
  waveArchive : ∀ e ∈ a.banks.live, ∀ w ∈ e.settings.waveArchives,
    w = BankSettings.noWaveArchive ∨ (a.waveArchive? w).isSome
  player : a.players.live = [] ∨ ∀ s ∈ a.sequences.live, (a.player? s.settings.player).isSome

/-- There are numbers for twice the banks and twice the wave archives. -/
structure FitsTwice (a : Archive) : Prop where
  banks : 2 * a.banks.length ≤ 0xFFFF
  waveArchives : 2 * a.waveArchives.length ≤ 0xFFFF

/-! ## What stands for the entries of both copies -/

theorem leadingWaveArchive_merge_self (hfits : a.FitsTwice) {w : UInt16}
    (hw : w = BankSettings.noWaveArchive ∨ (a.waveArchive? w).isSome) :
    leadingWaveArchive (a.merge a).waveArchiveLeaders w
        = leadingWaveArchive a.waveArchiveLeaders w ∧
      leadingWaveArchive (a.merge a).waveArchiveLeaders (a.shift.ofWaveArchive w)
        = leadingWaveArchive a.waveArchiveLeaders w := by
  rcases hw with rfl | hlive
  · exact ⟨rfl, rfl⟩
  · obtain ⟨e, he⟩ := Option.isSome_iff_exists.1 hlive
    obtain ⟨hsome, hentry⟩ := waveArchive?_eq_some he
    have hlt := lt_of_entry?_eq_some hentry
    have hroom := hfits.waveArchives
    have hfirst := (foundAlike_merge a a).waveArchive w e he
    have hsecond := waveArchive?_merge_moved (a := a) a (n := w) fun _ => by omega
    rw [he, Option.map_some] at hsecond
    have hleader {n : Nat} {e' : WaveArchiveEntry}
        (he' : (a.merge a).waveArchives.entry? n = some e') (hbody : e'.body = e.body) :
        (a.merge a).waveArchiveLeaders.leader n = a.waveArchiveLeaders.leader w.toNat :=
      leader_append_eq (fun e => e.body) (fun e => e.body) (fun x y => beq_iff_eq)
        (fun x y => beq_iff_eq) (fun _ _ => rfl) hentry he' hbody
    obtain ⟨-, hentry₁⟩ := waveArchive?_eq_some hfirst
    obtain ⟨hsome₂, hentry₂⟩ := waveArchive?_eq_some hsecond
    simp only [leadingWaveArchive, if_neg hsome, if_neg hsome₂]
    exact ⟨congrArg Nat.toUInt16 (hleader hentry₁ rfl), congrArg Nat.toUInt16 (hleader hentry₂ rfl)⟩

theorem leadingWaveArchives_merge_self (hclosed : a.IsClosed) (hfits : a.FitsTwice)
    {e : BankEntry} (he : e ∈ a.banks.live) :
    leadingWaveArchives (a.merge a).waveArchiveLeaders e
        = leadingWaveArchives a.waveArchiveLeaders e ∧
      leadingWaveArchives (a.merge a).waveArchiveLeaders (a.shift.ofBank e)
        = leadingWaveArchives a.waveArchiveLeaders e := by
  have hslot {w : UInt16} (hw : w ∈ e.settings.waveArchives) :=
    leadingWaveArchive_merge_self hfits (hclosed.waveArchive e he w hw)
  unfold leadingWaveArchives Shift.ofBank
  rw [Vector.map_map]
  exact ⟨Vector.map_congr_left fun w hw => (hslot hw).1,
    Vector.map_congr_left fun w hw => (hslot hw).2⟩

theorem leadingBankOf_merge_self (hclosed : a.IsClosed) (hfits : a.FitsTwice) {n : UInt16}
    (hn : (a.bank? n).isSome) :
    (a.merge a).leadingBankOf n = a.leadingBankOf n ∧
      (a.merge a).leadingBankOf (n + a.shift.bank) = a.leadingBankOf n := by
  obtain ⟨e, he⟩ := Option.isSome_iff_exists.1 hn
  have hlive : e ∈ a.banks.live := mem_live.2 ⟨_, he⟩
  have hlt := lt_of_entry?_eq_some he
  have hroom := hfits.banks
  have hfirst := (foundAlike_merge a a).bank n e he
  have hsecond := bank?_merge_moved (a := a) a (n := n) (by omega)
  rw [he, Option.map_some] at hsecond
  have hleader {m : Nat} {e' : BankEntry} (he' : (a.merge a).banks.entry? m = some e')
      (hbody : e'.body = e.body) (hwaves : leadingWaveArchives (a.merge a).waveArchiveLeaders e'
        = leadingWaveArchives a.waveArchiveLeaders e) :
      ((a.merge a).bankLeaders (a.merge a).waveArchiveLeaders).leader m
        = (a.bankLeaders a.waveArchiveLeaders).leader n.toNat := by
    refine leader_append_eq
      (fun e => (e.body, leadingWaveArchives a.waveArchiveLeaders e))
      (fun e => (e.body, leadingWaveArchives (a.merge a).waveArchiveLeaders e))
      (fun x y => by simp) (fun x y => by simp) ?_ he he' (Prod.ext hbody hwaves)
    intro x hx
    exact Prod.ext rfl (leadingWaveArchives_merge_self hclosed hfits hx).1
  obtain ⟨hwaves, hwaves'⟩ := leadingWaveArchives_merge_self hclosed hfits hlive
  exact ⟨congrArg Nat.toUInt16 (hleader hfirst rfl hwaves),
    congrArg Nat.toUInt16 (hleader hsecond rfl hwaves')⟩

/-! ## What is kept -/

theorem keeps_merge_self_iff (hclosed : a.IsClosed) (hfits : a.FitsTwice) {n : Nat}
    {s : SequenceEntry} :
    (a.merge a).Keeps decider options n s ↔ a.Keeps decider options n s := by
  have hbank {k : Nat} {t : SequenceEntry} (ht : a.sequence? k = some t) :=
    leadingBankOf_merge_self hclosed hfits (hclosed.bank t (mem_live.2 ⟨k, ht⟩))
  have hfirst {k : Nat} {t : SequenceEntry} (ht : a.sequence? k = some t) :
      (a.merge a).sequence? k = some t :=
    (entry?_append_left (lt_of_entry?_eq_some ht)).trans ht
  have hsecond {k : Nat} (hk : a.sequences.length ≤ k) : (a.merge a).sequence? k
      = (a.sequence? (k - a.sequences.length)).map a.shift.ofSequence :=
    (entry?_append_right hk).trans (entry?_mapLive _ _ _)
  constructor
  · intro h
    rcases Nat.lt_or_ge n a.sequences.length with hn | hn
    · have hs : a.sequence? n = some s := (entry?_append_left hn).symm.trans h.live
      refine ⟨hs, h.included, ?_, fun k t ht hincluded hbody hsame => ?_⟩
      · rw [isSome_leadingBankOf]
        exact hclosed.bank s (mem_live.2 ⟨n, hs⟩)
      · refine h.first k t (hfirst ht) hincluded hbody ?_
        rw [(hbank ht).1, (hbank hs).1, hsame]
    · -- What stands in the second copy has the same in front of it in the first.
      obtain ⟨t, ht, rfl⟩ := Option.map_eq_some_iff.1 ((hsecond hn).symm.trans h.live)
      have hlt := lt_of_entry?_eq_some ht
      have hle := h.first _ t (hfirst ht) h.included rfl ((hbank ht).1.trans (hbank ht).2.symm)
      omega
  · intro h
    refine ⟨hfirst h.live, h.included, ?_, fun k t ht hincluded hbody hsame => ?_⟩
    · obtain ⟨e, he⟩ := Option.isSome_iff_exists.1 h.hasBank
      rw [(hbank h.live).1, (foundAlike_merge a a).bank _ e he]
      rfl
    · rcases Nat.lt_or_ge k a.sequences.length with hk | hk
      · have ht' : a.sequence? k = some t := (entry?_append_left hk).symm.trans ht
        refine h.first k t ht' hincluded hbody ?_
        rw [← (hbank ht').1, hsame, (hbank h.live).1]
      · exact (Nat.le_of_lt (lt_of_entry?_eq_some h.live)).trans hk

theorem keptSlots_merge_self (hclosed : a.IsClosed) (hfits : a.FitsTwice) :
    (a.merge a).keptSlots decider options = a.keptSlots decider options := by
  let before (x y : Nat × SequenceEntry) : Prop := x.1 < y.1
  have : Std.Irrefl before := ⟨fun x => Nat.lt_irrefl x.1⟩
  have : Std.Antisymm before := ⟨fun x y h h' => absurd h (Nat.lt_asymm h')⟩
  have hsorted (b : Archive) : (b.keptSlots decider options).Pairwise before :=
    List.pairwise_map.1 (keptSlots_pairwise_lt b decider options)
  refine (hsorted _).eq_of_mem_iff (hsorted a) fun entry => ?_
  rw [mem_keptSlots, mem_keptSlots, keeps_merge_self_iff hclosed hfits]

theorem mem_live_of_kept {s : SequenceEntry}
    (hs : s ∈ (a.keptSlots decider options).map Prod.snd) : s ∈ a.sequences.live := by
  obtain ⟨⟨n, s⟩, hkept, rfl⟩ := List.mem_map.1 hs
  exact mem_live.2 ⟨n, (mem_keptSlots.1 hkept).live⟩

theorem keptBankSlots_merge_self (hclosed : a.IsClosed) (hfits : a.FitsTwice) :
    (a.merge a).keptBankSlots decider options = a.keptBankSlots decider options := by
  unfold keptBankSlots keptBanks
  rw [keptSlots_merge_self hclosed hfits]
  refine congrArg ascending (List.map_congr_left fun s hs => congrArg UInt16.toNat ?_)
  exact (leadingBankOf_merge_self hclosed hfits (hclosed.bank s (mem_live_of_kept hs))).1

/-- The entries that the two archives have in common, by their slots in the first. -/
theorem filterMap_entry?_append {α : Type} {slots rest : Slots α} {kept : List Nat}
    (hlive : ∀ n ∈ kept, (slots.entry? n).isSome) :
    kept.filterMap (Slots.entry? (slots ++ rest)) = kept.filterMap slots.entry? := by
  refine List.filterMap_congr fun n hn => ?_
  obtain ⟨x, hx⟩ := Option.isSome_iff_exists.1 (hlive n hn)
  exact entry?_append_left (lt_of_entry?_eq_some hx)

theorem keptBanks_merge_self (hclosed : a.IsClosed) (hfits : a.FitsTwice) :
    ((a.merge a).keptBankSlots decider options).filterMap (a.merge a).banks.entry?
      = (a.keptBankSlots decider options).filterMap a.banks.entry? := by
  rw [keptBankSlots_merge_self hclosed hfits]
  exact filterMap_entry?_append fun n hn => live_of_mem_keptBankSlots hn

theorem mem_live_of_keptBank {e : BankEntry}
    (he : e ∈ (a.keptBankSlots decider options).filterMap a.banks.entry?) : e ∈ a.banks.live := by
  obtain ⟨n, -, hn⟩ := List.mem_filterMap.1 he
  exact mem_live.2 ⟨n, hn⟩

theorem isSome_leadingWaveArchive (a : Archive) (w : UInt16) :
    (a.waveArchive? (leadingWaveArchive a.waveArchiveLeaders w)).isSome
      = (a.waveArchive? w).isSome := by
  simpa using congrArg Option.isSome (body_leadingWaveArchive a w)

theorem isSome_leadingWaveArchive_merge_self {w : UInt16}
    (hw : w = BankSettings.noWaveArchive ∨ (a.waveArchive? w).isSome) :
    ((a.merge a).waveArchive? (leadingWaveArchive a.waveArchiveLeaders w)).isSome
      = (a.waveArchive? (leadingWaveArchive a.waveArchiveLeaders w)).isSome := by
  rcases hw with rfl | hlive
  · rfl
  · rw [← isSome_leadingWaveArchive] at hlive
    obtain ⟨e, he⟩ := Option.isSome_iff_exists.1 hlive
    rw [he, (foundAlike_merge a a).waveArchive _ e he]

theorem keptWaveArchiveSlots_merge_self (hclosed : a.IsClosed) (hfits : a.FitsTwice) :
    (a.merge a).keptWaveArchiveSlots decider options = a.keptWaveArchiveSlots decider options := by
  unfold keptWaveArchiveSlots keptWaveArchives
  rw [keptBanks_merge_self hclosed hfits]
  refine congrArg ascending (List.flatMap_congr fun e he => ?_)
  have he := mem_live_of_keptBank he
  rw [(leadingWaveArchives_merge_self hclosed hfits he).1]
  refine List.filterMap_congr fun w' hw' => ?_
  rw [leadingWaveArchives, Vector.toList_map] at hw'
  obtain ⟨w, hw, rfl⟩ := List.mem_map.1 hw'
  rw [isSome_leadingWaveArchive_merge_self (hclosed.waveArchive e he w (by simpa using hw))]

/-! ## Where it moves -/

theorem player?_merge_self (hclosed : a.IsClosed) {s : SequenceEntry} (hs : s ∈ a.sequences.live) :
    (a.merge a).player? s.settings.player = a.player? s.settings.player := by
  rcases hclosed.player with hnone | hlive
  · have hnone' : (a.merge a).players.live = [] := by
      rw [merge, live_append, hnone, List.append_nil]
    have hhole {slots : Slots PlayerSettings} (h : slots.live = []) (n : Nat) :
        slots.entry? n = none := by
      rw [Option.eq_none_iff_forall_ne_some]
      exact fun p hp => List.not_mem_nil (h ▸ mem_live.2 ⟨n, hp⟩)
    exact (hhole hnone' _).trans (hhole hnone _).symm
  · obtain ⟨p, hp⟩ := Option.isSome_iff_exists.1 (hlive s hs)
    rw [hp, (foundAlike_merge a a).player _ p hp]

theorem keptPlayers_merge_self (hclosed : a.IsClosed) {kept : List SequenceEntry}
    (hkept : ∀ s ∈ kept, s ∈ a.sequences.live) :
    keptPlayers (a.merge a).players (kept.map (·.settings.player))
      = keptPlayers a.players (kept.map (·.settings.player)) := by
  unfold keptPlayers
  refine congrArg List.eraseDups (List.filterMap_congr fun n hn => ?_)
  rw [mem_ascending, List.mem_map] at hn
  obtain ⟨s, hs, rfl⟩ := hn
  exact player?_merge_self hclosed (hkept s hs)

theorem moveSequence_merge_self (hclosed : a.IsClosed) (hfits : a.FitsTwice) {s : SequenceEntry}
    (hs : s ∈ a.sequences.live) (banks : List Nat) (players : List PlayerSettings) :
    moveSequence ((a.merge a).bankLeaders (a.merge a).waveArchiveLeaders) banks
        (movedPlayer (a.merge a).players players) s
      = moveSequence (a.bankLeaders a.waveArchiveLeaders) banks (movedPlayer a.players players)
        s := by
  have hplayer : movedPlayer (a.merge a).players players s.settings.player
      = movedPlayer a.players players s.settings.player := by
    have hfound := player?_merge_self hclosed hs
    unfold player? at hfound
    unfold movedPlayer
    rw [hfound]
  have hbank := (leadingBankOf_merge_self hclosed hfits (hclosed.bank s hs)).1
  unfold moveSequence
  rw [leadingBank_eq, leadingBank_eq, hbank, hplayer]

theorem moveBank_merge_self (hclosed : a.IsClosed) (hfits : a.FitsTwice) {e : BankEntry}
    (he : e ∈ a.banks.live) (waveArchives : List Nat) :
    moveBank (a.merge a).waveArchiveLeaders waveArchives e
      = moveBank a.waveArchiveLeaders waveArchives e := by
  have hslots : e.settings.waveArchives.map
        (moveWaveArchive (a.merge a).waveArchiveLeaders waveArchives)
      = e.settings.waveArchives.map (moveWaveArchive a.waveArchiveLeaders waveArchives) := by
    refine Vector.map_congr_left fun w hw => ?_
    unfold moveWaveArchive
    rw [(leadingWaveArchive_merge_self hfits (hclosed.waveArchive e he w hw)).1]
  unfold moveBank
  rw [hslots]

theorem moved_merge_self (hclosed : a.IsClosed) (hfits : a.FitsTwice) :
    (a.merge a).moved decider options = { a.moved decider options with
      mergeCount := a.mergeCount + 1, fileTableLength := a.fileIdSpan + a.fileIdSpan } := by
  have hkept : keptPlayers (a.merge a).players
        ((((a.merge a).keptSlots decider options).map Prod.snd).map (·.settings.player))
      = keptPlayers a.players
        (((a.keptSlots decider options).map Prod.snd).map (·.settings.player)) := by
    rw [keptSlots_merge_self hclosed hfits]
    exact keptPlayers_merge_self hclosed fun s hs => mem_live_of_kept hs
  have hsequences : ((a.merge a).moved decider options).sequences
      = (a.moved decider options).sequences := by
    simp only [moved, hkept]
    rw [keptSlots_merge_self hclosed hfits, keptBankSlots_merge_self hclosed hfits]
    exact List.map_congr_left fun s hs =>
      congrArg some (moveSequence_merge_self hclosed hfits (mem_live_of_kept hs) _ _)
  have hbanks : ((a.merge a).moved decider options).banks
      = (a.moved decider options).banks := by
    simp only [moved]
    rw [keptBanks_merge_self hclosed hfits, keptWaveArchiveSlots_merge_self hclosed hfits]
    exact List.map_congr_left fun e he =>
      congrArg some (moveBank_merge_self hclosed hfits (mem_live_of_keptBank he) _)
  have hwaveArchives : ((a.merge a).moved decider options).waveArchives
      = (a.moved decider options).waveArchives := by
    simp only [moved]
    rw [keptWaveArchiveSlots_merge_self hclosed hfits]
    exact congrArg _ (filterMap_entry?_append fun n hn => (live_of_mem_keptWaveArchiveSlots hn).2)
  have hsymbols : (a.merge a).needsSymbolCleanup = a.needsSymbolCleanup := by
    simp [merge]
  exact (Archive.mk.injEq ..).mpr ⟨rfl, Bool.or_self _, hsymbols, rfl, hsequences, hbanks,
    hwaveArchives, congrArg (List.map some) hkept⟩

/-- An archive that is merged into itself is stripped to what it is stripped to alone, but for the
count of merges. -/
theorem strip_merge_self (a : Archive) (hclosed : a.IsClosed) (hfits : a.FitsTwice)
    (decider : Decider) (options : StripOptions) :
    ((a.merge a).strip decider options).1
      = { (a.strip decider options).1 with mergeCount := a.mergeCount + 1 } := by
  have hsymbols : (a.merge a).needsSymbolCleanup = a.needsSymbolCleanup := by
    simp [merge]
  rw [strip_eq, strip_eq, hsymbols, moved_merge_self hclosed hfits]
  split <;> rfl

/-- Two songs on equal banks and an excluded one between them, twice over. The bank of the copies
is found again behind a hole, and so are its wave archive and its player. -/
theorem strip_merge_self_of_songs :
    let song (name : String) (isPlaceholder : Bool) (bank : UInt16) : SequenceEntry :=
      { name, isPlaceholder, archiveId := "x", fileId := 3, body := #[0xFF]
        settings := { bank, volume := 127, channelPriority := 64, playerPriority := 32
                      player := 1, reserved := 0, reservedTail := (0, 0) }
        resource := none }
    let bank : BankEntry :=
      { name := "B", isPlaceholder := false, archiveId := "x", fileId := 3, body := #[0]
        settings := { waveArchives := #v[1, 0xFFFF, 0xFFFF, 0xFFFF], reserved := 0 }
        resource := none }
    let waves : WaveArchiveEntry :=
      { name := "W", isPlaceholder := false, archiveId := "x", fileId := 3, body := #[1]
        settings := { reserved := 0 }, resource := none }
    let player : PlayerSettings :=
      { maxSequences := 1, padding := 0, channelMask := 0xFFFF, heapSize := 0 }
    let a : Archive :=
      { mergeCount := 0, hasSymbols := true, needsSymbolCleanup := true, fileTableLength := 9
        sequences := [some (song "SSEQ0009" true 2), some (song "E" false 0), none,
          some (song "T" false 0)]
        banks := [some bank, none, some bank]
        waveArchives := [none, some waves]
        players := [none, some player] }
    let decider : Decider := fun name _ => if name = "E" then .excluded else .unspecified
    a.IsClosed ∧ a.FitsTwice ∧ ((a.merge a).strip decider ⟨true⟩).1
      = { (a.strip decider ⟨true⟩).1 with mergeCount := 1 } := by
  intro song bank waves player a decider
  have hwaves : ∀ e ∈ a.banks.live, e.settings.waveArchives.toList.all
      (fun w => w = BankSettings.noWaveArchive ∨ (a.waveArchive? w).isSome) = true := by decide
  have hclosed : a.IsClosed := by
    refine ⟨by decide, fun e he w hw => ?_, .inr (by decide)⟩
    have hfound := List.all_eq_true.1 (hwaves e he) w (Vector.mem_toList_iff.2 hw)
    exact of_decide_eq_true hfound
  have hfits : a.FitsTwice := ⟨by decide, by decide⟩
  exact ⟨hclosed, hfits, strip_merge_self a hclosed hfits decider ⟨true⟩⟩

end Archive

end SoundArchive
