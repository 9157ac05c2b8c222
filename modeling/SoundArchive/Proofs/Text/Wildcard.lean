import SoundArchive.Proofs.Traversal
import SoundArchive.Text.Wildcard

/-!
# Texts that fit a pattern

The matcher leaves a star where the part behind it was found first, and never comes back to it
once the next star is reached. It still finds every way to split a text along the pattern.
-/

namespace SoundArchive.Text

namespace Wildcard

variable {p : Char} {ps cs rest : List Char}

/-! ## Splitting a text -/

/-- What a character of a pattern takes of a text. -/
def Takes (p : Char) (run : List Char) : Prop :=
  if p = '*' then True else if p = '?' then run.length = 1 else run = [p]

/-- The text falls into runs, one for each character of the pattern, which takes it. -/
def Splits (pattern text : List Char) : Prop :=
  ∃ runs, List.Forall₂ Takes pattern runs ∧ runs.flatten = text

theorem splits_nil : Splits [] cs ↔ cs = [] := by
  constructor
  · rintro ⟨_, ⟨⟩, rfl⟩
    rfl
  · rintro rfl
    exact ⟨[], .nil, rfl⟩

theorem splits_cons :
    Splits (p :: ps) cs ↔ ∃ run rest, Takes p run ∧ Splits ps rest ∧ run ++ rest = cs := by
  constructor
  · rintro ⟨_, hruns, rfl⟩
    cases hruns with
    | cons hrun hruns => exact ⟨_, _, hrun, ⟨_, hruns, rfl⟩, rfl⟩
  · rintro ⟨run, _, hrun, ⟨runs, hruns, rfl⟩, rfl⟩
    exact ⟨run :: runs, .cons hrun hruns, rfl⟩

theorem splits_star : Splits ('*' :: ps) cs ↔ ∃ rest, rest <:+ cs ∧ Splits ps rest := by
  rw [splits_cons]
  constructor
  · rintro ⟨run, rest, -, hrest, rfl⟩
    exact ⟨rest, List.suffix_append run rest, hrest⟩
  · rintro ⟨rest, ⟨run, rfl⟩, hrest⟩
    exact ⟨run, rest, trivial, hrest, rfl⟩

theorem takes_iff_fits (hp : p ≠ '*') {run : List Char} :
    Takes p run ↔ ∃ c, run = [c] ∧ fits p c = true := by
  rw [Takes, if_neg hp]
  by_cases hany : p = '?'
  · simp [hany, fits, List.length_eq_one_iff]
  · rw [if_neg hany]
    constructor
    · rintro rfl
      exact ⟨p, rfl, by simp [fits]⟩
    · rintro ⟨c, rfl, hc⟩
      have hpc : p = c := by simpa [fits, hany] using hc
      rw [hpc]

theorem splits_single (hp : p ≠ '*') :
    Splits (p :: ps) cs ↔ ∃ c rest, cs = c :: rest ∧ fits p c = true ∧ Splits ps rest := by
  rw [splits_cons]
  constructor
  · rintro ⟨run, rest, hrun, hrest, rfl⟩
    obtain ⟨c, rfl, hc⟩ := (takes_iff_fits hp).1 hrun
    exact ⟨c, rest, rfl, hc, hrest⟩
  · rintro ⟨c, rest, rfl, hc, hrest⟩
    exact ⟨[c], rest, (takes_iff_fits hp).2 ⟨c, rfl, hc⟩, hrest, rfl⟩

/-! ## What an attempt finds out -/

/-- What an attempt at `cs` says about the text from there on. -/
def Attempt.Tells (ps cs : List Char) : Attempt → Prop
  | found => Splits ps cs
  | notHere => ¬ Splits ps cs
  | never => ∀ rest, rest <:+ cs → ¬ Splits ps rest

theorem attempt_star (ps cs : List Char) :
    attempt ('*' :: ps) cs = if search ps cs then .found else .never := by
  rw [attempt.eq_def]
  simp

theorem attempt_single_nil (hp : p ≠ '*') : attempt (p :: ps) [] = .never := by
  rw [attempt.eq_def]
  simp [hp]

theorem attempt_single_cons (hp : p ≠ '*') (c : Char) :
    attempt (p :: ps) (c :: cs) = if fits p c then attempt ps cs else .notHere := by
  rw [attempt.eq_def]
  simp [hp]

theorem search_iff (h : ∀ cs, (attempt ps cs).Tells ps cs) (cs : List Char) :
    search ps cs = true ↔ ∃ rest, rest <:+ cs ∧ Splits ps rest := by
  induction cs with
  | nil =>
    have hhere := h []
    rw [search]
    generalize attempt ps [] = result at hhere ⊢
    cases result with
    | found => simpa [Attempt.Tells] using hhere
    | notHere => simpa [Attempt.Tells] using hhere
    | never => simpa [Attempt.Tells] using hhere
  | cons c cs ih =>
    have hhere := h (c :: cs)
    rw [search]
    generalize attempt ps (c :: cs) = result at hhere ⊢
    cases result with
    | found => exact iff_of_true rfl ⟨c :: cs, List.suffix_rfl, hhere⟩
    | notHere =>
      simp only [ih, List.suffix_cons_iff, or_and_right, exists_or, exists_eq_left]
      exact (or_iff_right hhere).symm
    | never =>
      refine iff_of_false Bool.false_ne_true ?_
      rintro ⟨rest, hrest, hsplits⟩
      exact hhere rest hrest hsplits

theorem attempt_tells (ps cs : List Char) : (attempt ps cs).Tells ps cs := by
  induction ps generalizing cs with
  | nil =>
    cases cs with
    | nil => simp [attempt, Attempt.Tells, splits_nil]
    | cons c cs => simp [attempt, Attempt.Tells, splits_nil]
  | cons p ps ih =>
    by_cases hp : p = '*'
    · subst hp
      rw [attempt_star]
      cases hsearch : search ps cs with
      | true => exact splits_star.2 ((search_iff ih cs).1 hsearch)
      | false =>
        -- What is not found from here on is found from no later place on either: giving more of
        -- the text to the stars in front cannot help.
        intro rest hrest hsplits
        obtain ⟨rest', hrest', hsplits⟩ := splits_star.1 hsplits
        have hfound := (search_iff ih cs).2 ⟨rest', hrest'.trans hrest, hsplits⟩
        simp [hsearch] at hfound
    · cases cs with
      | nil =>
        rw [attempt_single_nil hp]
        intro rest hrest hsplits
        obtain ⟨c, rest', rfl, -, -⟩ := (splits_single hp).1 hsplits
        simp at hrest
      | cons c cs =>
        rw [attempt_single_cons hp]
        have hsingle : Splits (p :: ps) (c :: cs) ↔ fits p c = true ∧ Splits ps cs := by
          simp [splits_single hp]
        by_cases hc : fits p c = true
        · have hbehind := ih cs
          simp only [if_pos hc]
          generalize attempt ps cs = result at hbehind ⊢
          cases result with
          | found => exact hsingle.2 ⟨hc, hbehind⟩
          | notHere => exact fun hsplits => hbehind (hsingle.1 hsplits).2
          | never =>
            intro rest hrest hsplits
            obtain ⟨d, rest', rfl, -, hsplits⟩ := (splits_single hp).1 hsplits
            rcases List.suffix_cons_iff.1 hrest with hwhole | hlater
            · exact hbehind rest' ((List.cons.inj hwhole).2 ▸ List.suffix_rfl) hsplits
            · exact hbehind rest' ((List.suffix_cons d rest').trans hlater) hsplits
        · simp only [if_neg hc]
          exact fun hsplits => hc (hsingle.1 hsplits).1

theorem matchesExactly_iff : matchesExactly ps cs = true ↔ Splits ps cs := by
  have htells := attempt_tells ps cs
  rw [matchesExactly]
  generalize attempt ps cs = result at htells ⊢
  cases result with
  | found => simpa [Attempt.Tells] using htells
  | notHere => simpa [Attempt.Tells] using htells
  | never => simpa using htells cs List.suffix_rfl

/-! ## The matcher as a loop -/

/-- What is left of the pattern and of the text. Of the last star, what is behind it in the
pattern and what it leaves of the text. -/
structure Cursor where
  pattern : List Char
  text : List Char
  star : Option (List Char × List Char) := none

namespace Cursor

variable {star : Option (List Char × List Char)}

/-- Where the loop goes on when a character does not fit, or the answer if there was no star: the
last star takes one character more. -/
def fallBack (star : Option (List Char × List Char)) : Cursor ⊕ Bool :=
  match star with
  | none => .inr false
  | some (ps, cs) => .inl ⟨ps, cs.tail, some (ps, cs.tail)⟩

def step (s : Cursor) : Cursor ⊕ Bool :=
  match s.text, s.pattern with
  | [], ps => .inr (ps.all (· == '*'))
  | _ :: _, [] => fallBack s.star
  | c :: cs, p :: ps =>
    if p = '*' then .inl ⟨ps, c :: cs, some (ps, c :: cs)⟩
    else if fits p c then .inl ⟨ps, cs, s.star⟩
    else fallBack s.star

/-- How the loop goes on where an attempt is made, whatever star there was last. -/
def Follows (ps cs : List Char) : Attempt → Prop
  | .found => ∀ star, Ends step (.inl ⟨ps, cs, star⟩) true
  | .notHere => ∀ star b, Ends step (fallBack star) b → Ends step (.inl ⟨ps, cs, star⟩) b
  | .never => ∀ star, Ends step (.inl ⟨ps, cs, star⟩) false

theorem ends_at_end (ps : List Char) (star : Option (List Char × List Char)) :
    Ends step (.inl ⟨ps, [], star⟩) (ps.all (· == '*')) := .step (.answer _)

end Cursor

theorem attempt_nil (ps : List Char) :
    attempt ps [] = if ps.all (· == '*') then .found else .never := by
  induction ps with
  | nil => simp [attempt]
  | cons p ps ih =>
    by_cases hp : p = '*'
    · subst hp
      rw [attempt_star, search, ih]
      cases hall : ps.all (· == '*') <;> simp [hall]
    · simp [attempt_single_nil hp, hp]

theorem search_nil (ps : List Char) : search ps [] = ps.all (· == '*') := by
  rw [search, attempt_nil]
  cases ps.all (· == '*') <;> rfl

namespace Cursor

theorem ends_search (h : ∀ cs, Follows ps cs (attempt ps cs)) (cs : List Char) :
    Ends step (.inl ⟨ps, cs, some (ps, cs)⟩) (search ps cs) := by
  induction cs with
  | nil =>
    rw [search_nil]
    exact ends_at_end ps _
  | cons c cs ih =>
    have hhere := h (c :: cs)
    rw [search]
    generalize attempt ps (c :: cs) = result at hhere ⊢
    cases result with
    | found => exact hhere _
    | notHere => exact hhere _ _ ih
    | never => exact hhere _

theorem follows_attempt (ps cs : List Char) : Follows ps cs (attempt ps cs) := by
  induction ps generalizing cs with
  | nil =>
    cases cs with
    | nil =>
      rw [attempt_nil]
      exact fun star => ends_at_end [] star
    | cons c cs =>
      rw [attempt]
      exact fun star b hb => .step hb
  | cons p ps ih =>
    cases cs with
    | nil =>
      rw [attempt_nil]
      cases hall : (p :: ps).all (· == '*') with
      | true => exact fun star => hall ▸ ends_at_end (p :: ps) star
      | false => exact fun star => hall ▸ ends_at_end (p :: ps) star
    | cons c cs =>
      by_cases hp : p = '*'
      · subst hp
        have hstep (star) : step ⟨'*' :: ps, c :: cs, star⟩
            = .inl ⟨ps, c :: cs, some (ps, c :: cs)⟩ := rfl
        have hends (star) : Ends step (.inl ⟨'*' :: ps, c :: cs, star⟩) (search ps (c :: cs)) :=
          .step (hstep star ▸ ends_search ih (c :: cs))
        rw [attempt_star]
        cases hsearch : search ps (c :: cs) with
        | true => exact fun star => hsearch ▸ hends star
        | false => exact fun star => hsearch ▸ hends star
      · rw [attempt_single_cons hp]
        by_cases hc : fits p c = true
        · have hstep (star) : step ⟨p :: ps, c :: cs, star⟩ = .inl ⟨ps, cs, star⟩ := by
            simp [step, hp, hc]
          have hbehind := ih cs
          rw [if_pos hc]
          generalize attempt ps cs = result at hbehind ⊢
          cases result with
          | found => exact fun star => .step (hstep star ▸ hbehind star)
          | notHere => exact fun star b hb => .step (hstep star ▸ hbehind star b hb)
          | never => exact fun star => .step (hstep star ▸ hbehind star)
        · have hstep (star) : step ⟨p :: ps, c :: cs, star⟩ = fallBack star := by
            simp [step, hp, hc]
          rw [if_neg hc]
          exact fun star b hb => .step (hstep star ▸ hb)

theorem ends_matchesExactly (ps cs : List Char) :
    Ends step (.inl { pattern := ps, text := cs }) (matchesExactly ps cs) := by
  have hfollows := follows_attempt ps cs
  rw [matchesExactly]
  generalize attempt ps cs = result at hfollows ⊢
  cases result with
  | found => exact hfollows none
  | notHere => exact hfollows none false (.answer false)
  | never => exact hfollows none

end Cursor

end Wildcard

/-! ## The whole -/

/-- The loop of the matcher ends for every pattern and text, and its answer is yes exactly when
the text splits along the pattern. -/
theorem wildcardMatch_iff_splits (pattern text : String) :
    Ends Wildcard.Cursor.step (.inl { pattern := upper pattern, text := upper text })
        (wildcardMatch pattern text) ∧
      (wildcardMatch pattern text = true ↔ Wildcard.Splits (upper pattern) (upper text)) :=
  ⟨Wildcard.Cursor.ends_matchesExactly _ _, Wildcard.matchesExactly_iff⟩

end SoundArchive.Text
