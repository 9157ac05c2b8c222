import SoundArchive.Proofs.Sequence.Findings
import SoundArchive.Proofs.Sequence.Visits

/-!
# A scan tells of the static closure of the bytecode

The closure goes by the opcodes, the lengths of the commands and the offsets that branches hold. A
scan fails where a command of the closure is cut off, and otherwise records what they have. That it
ends is part of its definition: with every command that it visits there is one less to be seen.
-/

namespace SoundArchive

open Bytecode

/-! ## Opcodes behind conditionals -/

/-- The opcode of the command at `p` behind any conditionals, and where it stands. -/
def core? (code : Bytes) (p : Nat) : Option (Nat × Opcode) :=
  if h : p < code.size then
    match Opcode.ofByte code[p] with
    | .conditional => core? code (p + 1)
    | op => some (p, op)
  else none
termination_by code.size - p

variable {code : Bytes} {p q c : Nat} {op : Opcode}

theorem core?_of_conditional (hp : p < code.size) (hop : Opcode.ofByte code[p] = .conditional) :
    core? code p = core? code (p + 1) := by
  rw [core?, dif_pos hp, hop]

theorem core?_eq (hp : p < code.size) (hop : Opcode.ofByte code[p] = op) (hne : op ≠ .conditional) :
    core? code p = some (p, op) := by
  subst hop
  rw [core?, dif_pos hp]
  split
  · next hc => exact absurd hc hne
  · rfl

/-- A command ends where the operands of its opcode do. -/
theorem skipCommand_core (h : core? code p = some (c, op)) :
    skipCommand code p = skipPlain code op (c + 1) := by
  fun_induction core? code p with
  | case1 p hp hop ih =>
    rw [skipCommand, dif_pos hp, hop]
    exact ih h
  | case2 p hp hop =>
    cases h
    exact skipCommand_of_ne hp hop
  | case3 => cases h

namespace PatchScan

/-! ## The closure -/

/-- Where a branch with its opcode at `c` holds the offset that it leads to. -/
def targetOperand? (c : Nat) : Opcode → Option Nat
  | .openTrack => some (c + 2)
  | .jump | .call => some (c + 1)
  | _ => none

/-- What never goes on with the next command, unless it is behind a conditional. -/
def isFinal : Opcode → Bool
  | .jump | .ret | .finish => true
  | _ => false

/-- What there is to record of a command whose opcode is `op`, at `c`. -/
def Finding.Fits (code : Bytes) (c : Nat) (op : Opcode) : Finding → Prop
  | .patch site => op = .patch ∧ site.command = c ∧ site.operand = c + 1 ∧
      readNumber code site.operand = .ok (site.patch, site.operand + site.length)
  | .branch operand target => targetOperand? c op = some operand ∧
      ∃ t behind, readU24 code operand = .ok (t, behind) ∧ t.toNat = target
  | .computed => (op = .random ∨ op = .fromVariable) ∧
      ∃ target, code[c + 1]? = some target ∧ isDecisive (.ofByte target) = true
  | .nothing => op ≠ .patch ∧ targetOperand? c op = none ∧ ((op = .random ∨ op = .fromVariable) →
      ∀ target, code[c + 1]? = some target → isDecisive (.ofByte target) = false)

/-- The command at `p` has this to record, behind any conditionals. -/
def Has (code : Bytes) (p : Nat) (f : Finding) : Prop :=
  ∃ c op, core? code p = some (c, op) ∧ f.Fits code c op

/-- A command leads to the one behind it, and a branch to its target. -/
inductive Leads (code : Bytes) (p : Nat) : Nat → Prop where
  | behind {length : Nat} (hlength : commandLength code p = .ok length)
    (hgoes : ∀ op, core? code p = some (p, op) → isFinal op = false) : Leads code p (p + length)
  | target {operand target : Nat} (h : Has code p (.branch operand target)) : Leads code p target

/-- The least set of offsets that holds 0 and all that its commands lead to. -/
inductive InClosure (code : Bytes) : Nat → Prop where
  | start : InClosure code 0
  | step {p q : Nat} (hp : InClosure code p) (hq : Leads code p q) : InClosure code q

/-! ## Visits -/

variable {v : Visit}

theorem visitBranch_fits {operand : Nat} {fallsThrough : Bool}
    (ha : targetOperand? c op = some operand)
    (h : visitBranch code operand fallsThrough = .ok v) : v.finding.Fits code c op := by
  obtain ⟨⟨t, q⟩, hread, h⟩ := bind_eq_ok.1 h
  cases h
  exact ⟨ha, t, q, hread, rfl⟩

theorem visitComputed_fits (hop : op = .random ∨ op = .fromVariable)
    (h : visit.visitComputed code op (c + 1) = .ok v) : v.finding.Fits code c op := by
  obtain ⟨q, -, h⟩ := bind_eq_ok.1 h
  cases h
  simp only
  cases hbyte : code[c + 1]? with
  | none => rcases hop with rfl | rfl <;> simp [Finding.Fits, targetOperand?, hbyte]
  | some target =>
    cases hdecisive : isDecisive (.ofByte target) with
    | true => simp [Finding.Fits, hop, hbyte, hdecisive]
    | false => rcases hop with rfl | rfl <;> simp [Finding.Fits, targetOperand?, hbyte, hdecisive]

theorem has_finding (h : visit code p = .ok v) : Has code p v.finding := by
  fun_induction visit code p generalizing v with
  | case1 p hp hop =>
    obtain ⟨⟨n, q⟩, hread, h⟩ := bind_eq_ok.1 h
    cases h
    have hlt := (readNumber_bounds hread).1
    refine ⟨p, .patch, core?_eq hp hop (by decide), rfl, rfl, rfl, ?_⟩
    simp only [show p + 1 + (q - (p + 1)) = q by omega, hread]
  | case2 p hp hop =>
    obtain ⟨⟨b, q⟩, hread, h⟩ := bind_eq_ok.1 h
    obtain ⟨_, -, hread⟩ := bind_eq_ok.1 hread
    cases hread
    exact ⟨p, .openTrack, core?_eq hp hop (by decide), visitBranch_fits rfl h⟩
  | case3 p hp hop => exact ⟨p, .jump, core?_eq hp hop (by decide), visitBranch_fits rfl h⟩
  | case4 p hp hop => exact ⟨p, .call, core?_eq hp hop (by decide), visitBranch_fits rfl h⟩
  | case5 p hp hop ih =>
    obtain ⟨inner, hinner, h⟩ := bind_eq_ok.1 h
    cases h
    unfold Has
    rw [core?_of_conditional hp hop]
    exact (ih hinner :)
  | case6 p hp hop =>
    cases h
    exact ⟨p, .ret, core?_eq hp hop (by decide), by simp [Finding.Fits, targetOperand?]⟩
  | case7 p hp hop =>
    cases h
    exact ⟨p, .finish, core?_eq hp hop (by decide), by simp [Finding.Fits, targetOperand?]⟩
  | case8 p hp hop =>
    exact ⟨p, .random, core?_eq hp hop (by decide), visitComputed_fits (.inl rfl) h⟩
  | case9 p hp hop =>
    exact ⟨p, .fromVariable, core?_eq hp hop (by decide), visitComputed_fits (.inr rfl) h⟩
  | case10 p hp hpatch hopen hjump hcall hcond hret hfinish hrandom hvariable =>
    obtain ⟨q, -, h⟩ := bind_eq_ok.1 h
    cases h
    refine ⟨p, _, core?_eq hp rfl hcond, hpatch, ?_, ?_⟩
    · unfold targetOperand?
      split <;> simp_all
    · rintro (hop | hop)
      · exact absurd hop hrandom
      · exact absurd hop hvariable
  | case11 => cases h

/-! ## What there is to record -/

/-- A command has no more than one thing to record. -/
theorem Finding.Fits.unique {f g : Finding} (hf : f.Fits code c op) (hg : g.Fits code c op) :
    f = g := by
  cases f with
  | nothing =>
    obtain ⟨hpatch, hbranch, hcomputed⟩ := hf
    cases g with
    | nothing => rfl
    | patch => exact absurd hg.1 hpatch
    | branch => simp [Fits, hbranch] at hg
    | computed =>
      obtain ⟨hop, target, hbyte, hdecisive⟩ := hg
      simp [hcomputed hop target hbyte] at hdecisive
  | patch site =>
    obtain ⟨rfl, hcommand, hoperand, hreads⟩ := hf
    cases g with
    | patch site' =>
      obtain ⟨-, hcommand', hoperand', hreads'⟩ := hg
      rw [hoperand', ← hoperand, hreads] at hreads'
      obtain ⟨command, operand, length, patch⟩ := site
      obtain ⟨command', operand', length', patch'⟩ := site'
      simp_all
    | nothing | branch | computed => simp [Fits, targetOperand?] at hg
  | branch operand target =>
    obtain ⟨hoperand, t, q, hread, rfl⟩ := hf
    cases g with
    | branch operand' target' =>
      obtain ⟨hoperand', t', q', hread', rfl⟩ := hg
      cases hoperand.symm.trans hoperand'
      cases hread.symm.trans hread'
      rfl
    | nothing => simp [hg.2.1] at hoperand
    | patch => simp [hg.1, targetOperand?] at hoperand
    | computed => rcases hg.1 with rfl | rfl <;> simp [targetOperand?] at hoperand
  | computed =>
    obtain ⟨hop, target, hbyte, hdecisive⟩ := hf
    cases g with
    | computed => rfl
    | nothing => simp [hg.2.2 hop target hbyte] at hdecisive
    | patch | branch => rcases hop with rfl | rfl <;> simp [Fits, targetOperand?] at hg

theorem has_iff (h : visit code p = .ok v) {f : Finding} : Has code p f ↔ v.finding = f := by
  obtain ⟨c, op, hcore, hfits⟩ := has_finding h
  constructor
  · rintro ⟨c', op', hcore', hf⟩
    cases hcore.symm.trans hcore'
    exact hfits.unique hf
  · rintro rfl
    exact ⟨c, op, hcore, hfits⟩

/-! ## Where a command leads -/

theorem commandLength_eq_ok {length : Nat} :
    commandLength code p = .ok length ↔ skipCommand code p = .ok (p + length) := by
  unfold commandLength
  cases h : skipCommand code p with
  | error e => simp [bind, Except.bind]
  | ok q =>
    have := le_of_skipCommand h
    simp [bind, Except.bind, pure, Except.pure]
    omega

theorem commandLength_eq_error {e : EndOfData} :
    commandLength code p = .error e ↔ visit code p = .error e := by
  unfold commandLength
  rw [← visit_end]
  cases visit code p <;> simp [bind, Except.bind, Except.map, pure, Except.pure]

theorem exists_visit_iff {behind : Nat} :
    skipCommand code p = .ok behind ↔ ∃ v, visit code p = .ok v ∧ v.behind = behind := by
  rw [← visit_end]
  cases visit code p <;> simp [Except.map]

theorem le_of_core? (h : core? code p = some (c, op)) : p ≤ c := by
  fun_induction core? code p with
  | case1 p hp hop ih => exact Nat.le_of_succ_le (ih h)
  | case2 p hp hop =>
    cases h
    exact Nat.le_refl _
  | case3 => cases h

/-- Only the opcode itself tells whether the next command follows, not what conditionals do. -/
theorem goesOn_iff (hp : p < code.size) (hop : Opcode.ofByte code[p] = op) :
    (∀ op, core? code p = some (p, op) → isFinal op = false) ↔ isFinal op = false := by
  by_cases hcond : op = .conditional
  · subst hcond
    refine iff_of_true (fun op' hcore => ?_) rfl
    rw [core?_of_conditional hp hop] at hcore
    exact absurd (le_of_core? hcore) (Nat.not_succ_le_self p)
  · simp [core?_eq hp hop hcond]

theorem fallsThrough_visitBranch {operand : Nat} {fallsThrough : Bool}
    (h : visitBranch code operand fallsThrough = .ok v) : v.fallsThrough = fallsThrough := by
  obtain ⟨_, -, h⟩ := bind_eq_ok.1 h
  cases h
  rfl

theorem fallsThrough_visitComputed (h : visit.visitComputed code op p = .ok v) :
    v.fallsThrough = true := by
  obtain ⟨_, -, h⟩ := bind_eq_ok.1 h
  cases h
  rfl

theorem fallsThrough_iff (h : visit code p = .ok v) :
    v.fallsThrough = true ↔ ∀ op, core? code p = some (p, op) → isFinal op = false := by
  unfold visit at h
  split at h
  case isFalse => cases h
  case isTrue hp =>
    rw [goesOn_iff hp rfl]
    split at h
    case h_1 hop =>
      obtain ⟨_, -, h⟩ := bind_eq_ok.1 h
      cases h
      simp [hop, isFinal]
    case h_2 hop =>
      obtain ⟨_, -, h⟩ := bind_eq_ok.1 h
      simp [hop, isFinal, fallsThrough_visitBranch h]
    case h_3 hop => simp [hop, isFinal, fallsThrough_visitBranch h]
    case h_4 hop => simp [hop, isFinal, fallsThrough_visitBranch h]
    case h_5 hop =>
      obtain ⟨_, -, h⟩ := bind_eq_ok.1 h
      cases h
      simp [hop, isFinal]
    case h_6 hop | h_7 hop =>
      cases h
      simp [hop, isFinal]
    case h_8 hop | h_9 hop => simp [hop, isFinal, fallsThrough_visitComputed h]
    case h_10 =>
      obtain ⟨_, -, h⟩ := bind_eq_ok.1 h
      cases h
      unfold isFinal
      split <;> simp_all

theorem mem_successors : q ∈ v.successors ↔
    (v.fallsThrough = true ∧ q = v.behind) ∨ ∃ operand, v.finding = .branch operand q := by
  obtain ⟨f, behind, fallsThrough⟩ := v
  cases f <;> cases fallsThrough <;> simp [Visit.successors, eq_comm]

/-- A visit goes on to all that the command leads to. -/
theorem mem_successors_iff (h : visit code p = .ok v) : q ∈ v.successors ↔ Leads code p q := by
  have hskip : skipCommand code p = .ok v.behind := exists_visit_iff.2 ⟨v, h, rfl⟩
  have hle := le_of_skipCommand hskip
  have hlength : commandLength code p = .ok (v.behind - p) := by
    rw [commandLength_eq_ok, hskip, Nat.add_sub_cancel' hle]
  rw [mem_successors, fallsThrough_iff h]
  constructor
  · rintro (⟨hgoes, rfl⟩ | ⟨operand, hfinding⟩)
    · rw [← Nat.add_sub_cancel' hle]
      exact .behind hlength hgoes
    · exact .target ((has_iff h).2 hfinding)
  · rintro (⟨hlength', hgoes⟩ | ⟨hhas⟩)
    · cases hlength.symm.trans hlength'
      exact .inl ⟨hgoes, Nat.add_sub_cancel' hle⟩
    · exact .inr ⟨_, (has_iff h).1 hhas⟩

/-- A command that leads somewhere is whole. -/
theorem exists_visit_of_leads (h : Leads code p q) : ∃ v, visit code p = .ok v := by
  suffices hskip : ∃ behind, skipCommand code p = .ok behind by
    obtain ⟨behind, hskip⟩ := hskip
    obtain ⟨v, hv, -⟩ := exists_visit_iff.1 hskip
    exact ⟨v, hv⟩
  rcases h with ⟨hlength, -⟩ | ⟨c, op, hcore, hoperand, t, behind, hread, -⟩
  · exact ⟨_, commandLength_eq_ok.1 hlength⟩
  · obtain ⟨-, hle⟩ := readU24_bounds hread
    rw [skipCommand_core hcore]
    unfold targetOperand? at hoperand
    split at hoperand <;> cases hoperand
    all_goals exact ⟨_, skipBytes_eq_ok.2 ⟨rfl, by omega⟩⟩

/-! ## The scan -/

theorem inClosure_iff : InClosure code p ↔ Reached code p := by
  constructor
  · intro h
    induction h with
    | start => exact .start
    | step _ hq ih =>
      obtain ⟨v, hv⟩ := exists_visit_of_leads hq
      exact .next ih hv ((mem_successors_iff hv).2 hq)
  · intro h
    induction h with
    | start => exact .start
    | next _ hv hq ih => exact .step ih ((mem_successors_iff hv).1 hq)

theorem Faithful.finds_iff {scan : PatchScan} (h : scan.Faithful code) {f : Finding} :
    Finds code p f ↔ InClosure code p ∧ Has code p f := by
  rw [inClosure_iff]
  constructor
  · rintro ⟨hp, v, hv, hf⟩
    exact ⟨hp, (has_iff hv).2 hf⟩
  · rintro ⟨hp, hhas⟩
    obtain ⟨v, hv⟩ := h.visits p hp
    exact ⟨hp, v, hv, (has_iff hv).1 hhas⟩

/-- A scan fails as a command of the closure does that is cut off. If there is none, it records
exactly what the commands of the closure have, and the operands of branches in order. -/
theorem scanPatches_closure (code : Bytes) :
    match scanPatches code with
    | .error e => ∃ p, InClosure code p ∧ commandLength code p = .error e
    | .ok scan =>
      (∀ p, InClosure code p → ∃ length, commandLength code p = .ok length) ∧
        (∀ site, site ∈ scan.patches ↔ ∃ p, InClosure code p ∧ Has code p (.patch site)) ∧
        (∀ operand, operand ∈ scan.branches ↔
          ∃ p target, InClosure code p ∧ Has code p (.branch operand target)) ∧
        (scan.isDynamic = true ↔ ∃ p, InClosure code p ∧ Has code p .computed) ∧
        scan.branches.Pairwise (· < ·) := by
  cases hscan : scanPatches code with
  | error e =>
    obtain ⟨p, hp, hv⟩ := reached_of_scan_error hscan
    exact ⟨p, inClosure_iff.2 hp, commandLength_eq_error.2 hv⟩
  | ok scan =>
    have hfaithful := faithful_of_scan hscan
    refine ⟨?_, ?_, ?_, ?_, branches_pairwise_lt hscan⟩
    · intro p hp
      obtain ⟨v, hv⟩ := hfaithful.visits p (inClosure_iff.1 hp)
      have hskip := exists_visit_iff.2 ⟨v, hv, rfl⟩
      rw [← Nat.add_sub_cancel' (le_of_skipCommand hskip)] at hskip
      exact ⟨_, commandLength_eq_ok.2 hskip⟩
    · simp only [hfaithful.patches, hfaithful.finds_iff, implies_true]
    · simp only [hfaithful.branches, hfaithful.finds_iff, implies_true]
    · simp only [hfaithful.isDynamic, hfaithful.finds_iff]

end PatchScan

end SoundArchive
