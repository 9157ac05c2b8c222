import SoundArchive.Proofs.Sequence.Reading
import SoundArchive.Proofs.Traversal

/-! # A visit sees the same of a command wherever its bytes were moved to -/

namespace SoundArchive

open Bytecode

namespace Bytecode

variable {code code' : Bytes} {p p' q r : Nat} {op : Opcode}

/-! ## Where a skip ends -/

theorem skipBytes_eq_ok {count : Nat} :
    skipBytes code p count = .ok q ↔ q = p + count ∧ p + count ≤ code.size := by
  unfold skipBytes
  split
  · next hle => simp [hle, eq_comm]
  · next hlt => simp [hlt]

theorem le_of_skipBytes {count : Nat} (h : skipBytes code p count = .ok q) : p ≤ q := by
  obtain ⟨rfl, -⟩ := skipBytes_eq_ok.1 h
  exact Nat.le_add_right p count

theorem le_of_skipNumberFrom {count : Nat} (h : skipNumberFrom code count p = .ok q) : p ≤ q := by
  fun_induction skipNumberFrom code count p with
  | case1 p =>
    cases h
    exact Nat.le_refl _
  | case2 => cases h
  | case3 =>
    cases h
    exact Nat.le_succ _
  | case4 count p b hb hmark ih => exact Nat.le_of_succ_le (ih h)

theorem le_of_skipPlain (h : skipPlain code op p = .ok q) : p ≤ q := by
  unfold skipPlain at h
  split at h
  case h_1 =>
    cases h
    exact Nat.le_refl p
  case h_6 => exact le_of_skipNumberFrom h
  case h_7 =>
    obtain ⟨r, hr, hq⟩ := bind_eq_ok.1 h
    exact (le_of_skipBytes hr).trans (le_of_skipNumberFrom hq)
  case h_10 =>
    obtain ⟨target, -, hq⟩ := bind_eq_ok.1 h
    exact Nat.le_of_succ_le (le_of_skipBytes hq)
  all_goals exact le_of_skipBytes h

theorem le_of_skipCommand (h : skipCommand code p = .ok q) : p ≤ q := by
  fun_induction skipCommand code p with
  | case1 p hp hop ih => exact Nat.le_of_succ_le (ih h)
  | case2 p hp hop => exact Nat.le_of_succ_le (le_of_skipPlain h)
  | case3 => cases h

theorem skipNumberFrom_le_size {count : Nat} (hp : p ≤ code.size)
    (h : skipNumberFrom code count p = .ok q) : q ≤ code.size := by
  fun_induction skipNumberFrom code count p with
  | case1 p =>
    cases h
    exact hp
  | case2 => cases h
  | case3 count p b hb hmark =>
    cases h
    exact (Array.getElem?_eq_some_iff.1 hb).1
  | case4 count p b hb hmark ih => exact ih (Array.getElem?_eq_some_iff.1 hb).1 h

theorem readNumber_bounds {n : UInt32} (h : readNumber code p = .ok (n, q)) :
    p < q ∧ q ≤ code.size := by
  refine ⟨readNumber_lt_end h, ?_⟩
  obtain ⟨b, hfirst, -⟩ := readNumberFrom_succ h
  have hp : p < code.size := (Array.getElem?_eq_some_iff.1 (byteAt_eq_ok.1 hfirst)).1
  have hskip : skipNumber code p = .ok q := by
    rw [← readNumber_end, h]
    rfl
  exact skipNumberFrom_le_size (Nat.le_of_lt hp) hskip

theorem skipPlain_le_size (hp : p ≤ code.size) (h : skipPlain code op p = .ok q) :
    q ≤ code.size := by
  have hbytes : ∀ {p count : Nat}, skipBytes code p count = .ok q → q ≤ code.size := by
    intro p count h
    obtain ⟨rfl, hle⟩ := skipBytes_eq_ok.1 h
    exact hle
  unfold skipPlain at h
  split at h
  case h_1 =>
    cases h
    exact hp
  case h_6 => exact skipNumberFrom_le_size hp h
  case h_7 =>
    obtain ⟨r, hr, hq⟩ := bind_eq_ok.1 h
    obtain ⟨rfl, hle⟩ := skipBytes_eq_ok.1 hr
    exact skipNumberFrom_le_size hle hq
  case h_10 =>
    obtain ⟨target, -, hq⟩ := bind_eq_ok.1 h
    exact hbytes hq
  all_goals exact hbytes h

/-! ## Skipping what was moved -/

theorem Copied.front (h : Copied code p q code' p') (hr : r ≤ q) : Copied code p r code' p' :=
  fun i hi => h i (by omega)

theorem Copied.drop (h : Copied code p q code' p') (hr : p ≤ r) :
    Copied code r q code' (p' + (r - p)) := by
  intro i hi
  have hbyte := h (r - p + i) (by omega)
  rwa [← Nat.add_assoc, ← Nat.add_assoc, show p + (r - p) = r by omega] at hbyte

theorem Copied.byte (h : Copied code p q code' p') (hpq : p < q) (hp : p < code.size) :
    ∃ hp' : p' < code'.size, code'[p'] = code[p] := by
  have hbyte : code'[p']? = code[p]? := h 0 hpq
  rw [Array.getElem?_eq_getElem hp] at hbyte
  exact Array.getElem?_eq_some_iff.1 hbyte

theorem skipBytes_copied {count : Nat} (hcount : 0 < count) (hcopied : Copied code p q code' p')
    (h : skipBytes code p count = .ok q) : skipBytes code' p' count = .ok (p' + (q - p)) := by
  obtain ⟨rfl, hle⟩ := skipBytes_eq_ok.1 h
  have hlast := hcopied (count - 1) (by omega)
  rw [Array.getElem?_eq_getElem (show p + (count - 1) < code.size by omega)] at hlast
  have hlt := (Array.getElem?_eq_some_iff.1 hlast).1
  rw [skipBytes_eq_ok]
  omega

theorem skipNumber_copied (hcopied : Copied code p q code' p') (h : skipNumber code p = .ok q) :
    skipNumber code' p' = .ok (p' + (q - p)) := by
  rw [← readNumber_end] at h ⊢
  obtain ⟨⟨v, r⟩, hread, rfl⟩ := map_eq_ok.1 h
  rw [readNumber_copied hcopied hread]
  rfl

theorem skipPlain_copied (hcopied : Copied code p q code' p') (h : skipPlain code op p = .ok q) :
    skipPlain code' op p' = .ok (p' + (q - p)) := by
  unfold skipPlain at h ⊢
  split at h
  case h_1 =>
    cases h
    simp
  case h_6 => exact skipNumber_copied hcopied h
  case h_7 =>
    obtain ⟨r, hr, hq⟩ := bind_eq_ok.1 h
    have hle := le_of_skipBytes hr
    have hle' := le_of_skipNumberFrom hq
    rw [skipBytes_copied (by decide) (hcopied.front hle') hr, ok_bind,
      skipNumber_copied (hcopied.drop hle) hq, Nat.add_assoc]
    congr 2
    omega
  case h_10 =>
    obtain ⟨target, htarget, hq⟩ := bind_eq_ok.1 h
    have hlt := le_of_skipBytes hq
    have hcount : 0 < prefixedLength (op == .random) (.ofByte target) := by
      unfold prefixedLength
      split <;> split <;> omega
    rw [hcopied.head (by omega) htarget, ok_bind, skipBytes_copied hcount hcopied.tail hq]
    congr 1
    omega
  all_goals exact skipBytes_copied (by decide) hcopied h

end Bytecode

namespace PatchScan

variable {code code' : Bytes} {p p' : Nat} {v : Visit}

/-! ## Where a visit ends -/

theorem visitBranch_end (code : Bytes) (operand : Nat) (fallsThrough : Bool) :
    (visitBranch code operand fallsThrough).map Visit.behind = skipBytes code operand 3 := by
  rw [← readU24_end]
  unfold visitBranch
  cases readU24 code operand <;> rfl

theorem visitComputed_end (code : Bytes) (op : Opcode) (p : Nat) :
    (visit.visitComputed code op p).map Visit.behind = skipPlain code op p := by
  unfold visit.visitComputed
  cases skipPlain code op p <;> rfl

theorem visit_end (code : Bytes) (p : Nat) :
    (visit code p).map Visit.behind = skipCommand code p := by
  fun_induction visit code p with
  | case1 p h hop =>
    rw [skipCommand_of_ne h (by simp [hop]), hop]
    change _ = skipNumber code (p + 1)
    rw [← readNumber_end]
    cases readNumber code (p + 1) <;> rfl
  | case2 p h hop =>
    rw [skipCommand_of_ne h (by simp [hop]), hop]
    change _ = skipBytes code (p + 1) 4
    rw [← skipBytes_add code (p + 1) 1 3, ← readU8_end]
    cases readU8 code (p + 1) with
    | error e => rfl
    | ok r => exact visitBranch_end code r.2 true
  | case3 p h hop =>
    rw [skipCommand_of_ne h (by simp [hop]), hop]
    exact visitBranch_end code (p + 1) false
  | case4 p h hop =>
    rw [skipCommand_of_ne h (by simp [hop]), hop]
    exact visitBranch_end code (p + 1) true
  | case5 p h hop ih =>
    rw [skipCommand, dif_pos h, hop]
    change _ = skipCommand code (p + 1)
    rw [← ih]
    cases visit code (p + 1) <;> rfl
  | case6 p h hop | case7 p h hop =>
    rw [skipCommand_of_ne h (by simp [hop]), hop]
    rfl
  | case8 p h hop =>
    rw [skipCommand_of_ne h (by simp [hop]), hop]
    exact visitComputed_end code .random (p + 1)
  | case9 p h hop =>
    rw [skipCommand_of_ne h (by simp [hop]), hop]
    exact visitComputed_end code .fromVariable (p + 1)
  | case10 p h _ _ _ _ hif =>
    rw [skipCommand_of_ne h hif]
    cases skipPlain code (Opcode.ofByte code[p]) (p + 1) <;> rfl
  | case11 p h =>
    rw [skipCommand, dif_neg h]
    rfl

/-! ## What a visit finds -/

/-- How a finding describes the command that begins at `p` and ends at `behind`. -/
def Finding.Describes (code : Bytes) (p behind : Nat) : Finding → Prop
  | .patch site => p ≤ site.command ∧ site.operand = site.command + 1 ∧
      site.operand + site.length = behind ∧ readNumber code site.operand = .ok (site.patch, behind)
  | .branch operand target => p < operand ∧ operand + 3 = behind ∧
      ∃ t, readU24 code operand = .ok (t, behind) ∧ t.toNat = target
  | .nothing | .computed => True

theorem Finding.Describes.of_succ {behind : Nat} {f : Finding}
    (h : f.Describes code (p + 1) behind) : f.Describes code p behind := by
  cases f with
  | nothing => trivial
  | computed => trivial
  | patch site => exact ⟨Nat.le_of_succ_le h.1, h.2⟩
  | branch operand target => exact ⟨Nat.lt_of_succ_lt h.1, h.2⟩

theorem readU24_bounds {q : Nat} {n : UInt32} (h : readU24 code p = .ok (n, q)) :
    q = p + 3 ∧ p + 3 ≤ code.size := by
  rw [← skipBytes_eq_ok, ← readU24_end, h]
  rfl

theorem visitBranch_sound {operand : Nat} {fallsThrough : Bool} (hp : p < operand)
    (h : visitBranch code operand fallsThrough = .ok v) :
    p < v.behind ∧ v.behind ≤ code.size ∧ v.finding.Describes code p v.behind := by
  obtain ⟨⟨t, q⟩, hread, h⟩ := bind_eq_ok.1 h
  cases h
  obtain ⟨rfl, hle⟩ := readU24_bounds hread
  exact ⟨by simp only; omega, hle, hp, rfl, t, hread, rfl⟩

theorem visitComputed_sound {op : Opcode} (hp : p < code.size)
    (h : visit.visitComputed code op (p + 1) = .ok v) :
    p < v.behind ∧ v.behind ≤ code.size ∧ v.finding.Describes code p v.behind := by
  obtain ⟨q, hskip, h⟩ := bind_eq_ok.1 h
  cases h
  refine ⟨le_of_skipPlain hskip, skipPlain_le_size hp hskip, ?_⟩
  simp only
  split <;> trivial

/-- A command has an end, in the bytecode, and its finding describes it. -/
theorem visit_sound (h : visit code p = .ok v) :
    p < v.behind ∧ v.behind ≤ code.size ∧ v.finding.Describes code p v.behind := by
  fun_induction visit code p generalizing v with
  | case1 p hp hop =>
    obtain ⟨⟨n, q⟩, hread, h⟩ := bind_eq_ok.1 h
    cases h
    obtain ⟨hlt, hle⟩ := readNumber_bounds hread
    exact ⟨by simp only; omega, hle, Nat.le_refl _, rfl, by simp only; omega, hread⟩
  | case2 p hp hop =>
    obtain ⟨⟨b, q⟩, hread, h⟩ := bind_eq_ok.1 h
    obtain ⟨_, -, hread⟩ := bind_eq_ok.1 hread
    cases hread
    exact visitBranch_sound (Nat.lt_add_of_pos_right (by decide)) h
  | case3 p hp hop => exact visitBranch_sound (Nat.lt_succ_self p) h
  | case4 p hp hop => exact visitBranch_sound (Nat.lt_succ_self p) h
  | case5 p hp hop ih =>
    obtain ⟨inner, hinner, h⟩ := bind_eq_ok.1 h
    cases h
    obtain ⟨hlt, hle, hdescribes⟩ := ih hinner
    exact ⟨Nat.lt_of_succ_lt hlt, hle, hdescribes.of_succ⟩
  | case6 p hp hop | case7 p hp hop =>
    cases h
    exact ⟨Nat.lt_succ_self p, hp, trivial⟩
  | case8 p hp hop => exact visitComputed_sound hp h
  | case9 p hp hop => exact visitComputed_sound hp h
  | case10 p hp =>
    obtain ⟨q, hskip, h⟩ := bind_eq_ok.1 h
    cases h
    exact ⟨le_of_skipPlain hskip, skipPlain_le_size hp hskip, trivial⟩
  | case11 p hp => cases h

/-! ## Commands that were moved -/

/-- Where the number begins that a patch change or a branch is given, and for other commands
their end. -/
def Visit.literal (v : Visit) : Nat :=
  match v.finding with
  | .patch site => site.operand
  | .branch operand _ => operand
  | .nothing | .computed => v.behind

/-- The same command where `move` took it. A patch change or a branch may be given another number
there. -/
inductive Visit.Moved (code' : Bytes) (move : Nat → Nat) : Visit → Visit → Prop where
  | nothing (behind : Nat) (fallsThrough : Bool) :
    Moved code' move ⟨.nothing, behind, fallsThrough⟩ ⟨.nothing, move behind, fallsThrough⟩
  | computed (behind : Nat) (fallsThrough : Bool) :
    Moved code' move ⟨.computed, behind, fallsThrough⟩ ⟨.computed, move behind, fallsThrough⟩
  | patch (site site' : PatchSite) (behind : Nat) (fallsThrough : Bool)
    (hcommand : site'.command = move site.command) (hoperand : site'.operand = move site.operand)
    (hread : readNumber code' site'.operand
      = .ok (site'.patch, site'.operand + site'.length)) :
    Moved code' move ⟨.patch site, behind, fallsThrough⟩
      ⟨.patch site', site'.operand + site'.length, fallsThrough⟩
  | branch (operand target behind : Nat) (fallsThrough : Bool) {t : UInt32}
    (hread : readU24 code' (move operand) = .ok (t, move operand + 3)) :
    Moved code' move ⟨.branch operand target, behind, fallsThrough⟩
      ⟨.branch (move operand) t.toNat, move operand + 3, fallsThrough⟩

theorem literal_bounds (h : visit code p = .ok v) : p < v.literal ∧ v.literal ≤ v.behind := by
  obtain ⟨hlt, -, hdescribes⟩ := visit_sound h
  obtain ⟨f, behind, fallsThrough⟩ := v
  cases f with
  | nothing => exact ⟨hlt, Nat.le_refl _⟩
  | computed => exact ⟨hlt, Nat.le_refl _⟩
  | patch site =>
    obtain ⟨hcommand, hoperand, hbehind, -⟩ := hdescribes
    simp only [Visit.literal] at hbehind ⊢
    omega
  | branch operand target =>
    obtain ⟨hoperand, hbehind, -⟩ := hdescribes
    simp only [Visit.literal] at hbehind ⊢
    omega

theorem Visit.Moved.inner {move : Nat → Nat} {inner v' : Visit}
    (h : Moved code' move { inner with fallsThrough := true } v') :
    ∃ inner', Moved code' move inner inner' ∧ v' = { inner' with fallsThrough := true } := by
  obtain ⟨f, behind, fallsThrough⟩ := inner
  cases h with
  | nothing => exact ⟨_, .nothing behind fallsThrough, rfl⟩
  | computed => exact ⟨_, .computed behind fallsThrough, rfl⟩
  | patch site site' _ _ hcommand hoperand hread =>
    exact ⟨_, .patch site site' behind fallsThrough hcommand hoperand hread, rfl⟩
  | branch operand target _ _ hread =>
    exact ⟨_, .branch operand target behind fallsThrough hread, rfl⟩

theorem visitBranch_moved {move : Nat → Nat} {v' : Visit} {operand operand' : Nat}
    {fallsThrough : Bool} (h : visitBranch code operand fallsThrough = .ok v)
    (hoperand : move operand = operand') (hmoved : v.Moved code' move v') :
    visitBranch code' operand' fallsThrough = .ok v' := by
  obtain ⟨⟨t, q⟩, -, h⟩ := bind_eq_ok.1 h
  cases h
  cases hmoved with
  | branch _ _ _ _ hread =>
    rw [← hoperand, visitBranch, hread]
    rfl

theorem literal_visitBranch {operand : Nat} {fallsThrough : Bool}
    (h : visitBranch code operand fallsThrough = .ok v) : v.literal = operand := by
  obtain ⟨⟨t, q⟩, -, h⟩ := bind_eq_ok.1 h
  cases h
  rfl

theorem literal_visitComputed {op : Opcode} (h : visit.visitComputed code op p = .ok v) :
    v.literal = v.behind := by
  obtain ⟨q, -, h⟩ := bind_eq_ok.1 h
  cases h
  unfold Visit.literal
  generalize (code[p]?.map fun b => isDecisive (.ofByte b)).getD false = decisive
  cases decisive <;> rfl

/-- What moves as a whole has its end moved as far. -/
theorem move_end {move : Nat → Nat} {q : Nat} (hle : p ≤ q)
    (hmove : ∀ i, p + i ≤ q → move (p + i) = p' + i) : move q = p' + (q - p) := by
  have hend := hmove (q - p) (by omega)
  rwa [Nat.add_sub_cancel' hle] at hend

theorem visitComputed_moved {move : Nat → Nat} {v' : Visit} {op : Opcode}
    (hop : op.operands = .prefixed) (h : visit.visitComputed code op (p + 1) = .ok v)
    (hmove : ∀ i, p + i ≤ v.literal → move (p + i) = p' + i)
    (hcopied : Copied code p v.literal code' p') (hmoved : v.Moved code' move v') :
    visit.visitComputed code' op (p' + 1) = .ok v' := by
  rw [literal_visitComputed h] at hmove hcopied
  obtain ⟨q, hskip, h⟩ := bind_eq_ok.1 h
  obtain ⟨target, hbyte, hlt⟩ : ∃ target, byteAt code (p + 1) = .ok target ∧ p + 1 < q := by
    unfold skipPlain at hskip
    rw [hop] at hskip
    obtain ⟨target, hbyte, hskip⟩ := bind_eq_ok.1 hskip
    exact ⟨target, hbyte, le_of_skipBytes hskip⟩
  cases h
  replace hcopied : Copied code p q code' p' := hcopied
  have hend : move q = p' + 1 + (q - (p + 1)) := by
    have := move_end (Nat.le_of_succ_le hlt.le) hmove
    omega
  have hbyte' := hcopied.tail.head hlt hbyte
  rw [byteAt_eq_ok] at hbyte hbyte'
  simp only [hbyte, Option.map_some, Option.getD_some] at hmoved
  unfold visit.visitComputed
  rw [skipPlain_copied hcopied.tail hskip, ok_bind, hbyte', ← hend]
  simp only [Option.map_some, Option.getD_some]
  split at hmoved
  · next hdecisive =>
    cases hmoved
    rw [if_pos hdecisive]
    rfl
  · next hdecisive =>
    cases hmoved
    rw [if_neg hdecisive]
    rfl

/-- A visit sees the same where the bytes of a command were moved to. -/
theorem visit_moved {move : Nat → Nat} {v' : Visit} (h : visit code p = .ok v)
    (hmove : ∀ i, p + i ≤ v.literal → move (p + i) = p' + i)
    (hcopied : Copied code p v.literal code' p') (hmoved : v.Moved code' move v') :
    visit code' p' = .ok v' := by
  fun_induction visit code p generalizing p' v v' with
  | case1 p hp hop =>
    obtain ⟨⟨n, q⟩, hread, h⟩ := bind_eq_ok.1 h
    cases h
    obtain ⟨hp', hbyte⟩ := hcopied.byte (Nat.lt_succ_self p) hp
    cases hmoved with
    | patch _ site' _ _ hcommand hoperand hread' =>
      rw [show move p = p' from hmove 0 (Nat.le_succ p)] at hcommand
      rw [show move (p + 1) = p' + 1 from hmove 1 (Nat.le_refl _)] at hoperand
      obtain ⟨command, operand, length, patch⟩ := site'
      simp only at hcommand hoperand hread'
      rw [visit, dif_pos hp', hbyte, hop]
      simp only [← hoperand, hread', ok_bind, hcommand]
      simp [pure, Except.pure]
  | case2 p hp hop =>
    obtain ⟨⟨b, q⟩, hread, h⟩ := bind_eq_ok.1 h
    obtain ⟨b, hbyte1, hread⟩ := bind_eq_ok.1 hread
    cases hread
    rw [literal_visitBranch h] at hmove hcopied
    obtain ⟨hp', hbyte⟩ := hcopied.byte (by omega) hp
    rw [visit, dif_pos hp', hbyte, hop]
    simp only [readU8, hcopied.tail.head (by omega) hbyte1, ok_bind]
    exact visitBranch_moved h (hmove 2 (Nat.le_refl _)) hmoved
  | case3 p hp hop | case4 p hp hop =>
    rw [literal_visitBranch h] at hmove hcopied
    obtain ⟨hp', hbyte⟩ := hcopied.byte (Nat.lt_succ_self p) hp
    rw [visit, dif_pos hp', hbyte, hop]
    exact visitBranch_moved h (hmove 1 (Nat.le_refl _)) hmoved
  | case5 p hp hop ih =>
    -- The command behind a conditional moved as far as the conditional did.
    obtain ⟨inner, hinner, h⟩ := bind_eq_ok.1 h
    cases h
    obtain ⟨inner', hmoved', rfl⟩ := hmoved.inner
    have hlt := (literal_bounds hinner).1
    obtain ⟨hp', hbyte⟩ := hcopied.byte (Nat.lt_of_succ_lt hlt) hp
    have hrest : visit code' (p' + 1) = .ok inner' := by
      refine ih hinner (fun i hi => ?_) hcopied.tail hmoved'
      rw [Nat.add_assoc, Nat.add_assoc, hmove (1 + i) (by rwa [← Nat.add_assoc])]
    rw [visit, dif_pos hp', hbyte, hop]
    simp only [hrest, ok_bind]
    rfl
  | case6 p hp hop | case7 p hp hop =>
    cases h
    obtain ⟨hp', hbyte⟩ := hcopied.byte (Nat.lt_succ_self p) hp
    cases hmoved
    rw [visit, dif_pos hp', hbyte, hop]
    simp only [hmove 1 (Nat.le_refl _)]
    rfl
  | case8 p hp hop | case9 p hp hop =>
    obtain ⟨hp', hbyte⟩ := hcopied.byte
      ((visitComputed_sound hp h).1.trans_eq (literal_visitComputed h).symm) hp
    rw [visit, dif_pos hp', hbyte, hop]
    exact visitComputed_moved rfl h hmove hcopied hmoved
  | case10 p hp =>
    obtain ⟨q, hskip, h⟩ := bind_eq_ok.1 h
    cases h
    have hle := le_of_skipPlain hskip
    replace hcopied : Copied code p q code' p' := hcopied
    obtain ⟨hp', hbyte⟩ := hcopied.byte hle hp
    cases hmoved
    have hbehind : move q = p' + (q - p) := move_end (Nat.le_of_succ_le hle) hmove
    rw [visit, dif_pos hp', hbyte]
    split
    iterate 9 contradiction
    rw [skipPlain_copied hcopied.tail hskip, ok_bind, hbehind]
    simp only [pure, Except.pure, Except.ok.injEq, Visit.mk.injEq, true_and, and_true]
    omega
  | case11 p hp => cases h

end PatchScan

end SoundArchive
