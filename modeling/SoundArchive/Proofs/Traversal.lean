import Mathlib.Data.List.Forall2

/-! # Steps one after the other: those that can fail, over lists, and until there is an answer -/

namespace SoundArchive

/-! ## Steps that succeed -/

variable {ε α β γ : Type}

@[simp] theorem ok_bind (a : α) (f : α → Except ε β) : (Except.ok a >>= f) = f a := rfl

@[simp] theorem map_ok (f : α → β) (a : α) : f <$> (Except.ok a : Except ε α) = .ok (f a) := rfl

theorem bind_eq_ok {x : Except ε α} {f : α → Except ε β} {b : β} :
    (x >>= f) = .ok b ↔ ∃ a, x = .ok a ∧ f a = .ok b := by
  cases x with
  | ok a => simp
  | error e => simp [bind, Except.bind]

theorem map_eq_ok {f : α → β} {x : Except ε α} {b : β} :
    f <$> x = .ok b ↔ ∃ a, x = .ok a ∧ f a = b := by
  cases x with
  | ok a => simp
  | error e => simp [Functor.map, Except.map]

theorem toOption_eq_some {x : Except ε α} {a : α} : x.toOption = some a ↔ x = .ok a := by
  cases x <;> simp [Except.toOption]

/-! ## Traversals -/

section

variable {m : Type → Type} [Monad m] [LawfulMonad m]

theorem mapM_eq_mapM {f : α → m γ} {g : β → m γ} {as : List α} {bs : List β}
    (h : List.Forall₂ (fun a b => f a = g b) as bs) : as.mapM f = bs.mapM g := by
  induction h with
  | nil => rfl
  | cons hab _ ih => simp [hab, ih]

theorem mapM_eq_pure {f : α → m β} {as : List α} {bs : List β}
    (h : List.Forall₂ (fun a b => f a = pure b) as bs) : as.mapM f = pure bs := by
  rw [mapM_eq_mapM h, List.mapM_pure, List.map_id']

theorem mapM_map (f : α → m β) (g : β → γ) (as : List α) :
    as.mapM (fun a => g <$> f a) = List.map g <$> as.mapM f := by
  induction as with
  | nil => simp
  | cons a as ih => simp [ih]

end

theorem forall₂_range {r : Nat → β → Prop} {bs : List β}
    (h : ∀ i (hi : i < bs.length), r i bs[i]) : List.Forall₂ r (List.range bs.length) bs := by
  rw [List.forall₂_iff_get]
  refine ⟨List.length_range, fun i hi hi' => ?_⟩
  simp only [List.get_eq_getElem, List.getElem_range]
  exact h i hi'

theorem exists_of_forall₂ {r : α → β → Prop} {as : List α} {bs : List β} {b : β}
    (h : List.Forall₂ r as bs) (hb : b ∈ bs) : ∃ a ∈ as, r a b := by
  obtain ⟨i, hi, rfl⟩ := List.mem_iff_getElem.1 hb
  obtain ⟨hlength, hall⟩ := List.forall₂_iff_get.1 h
  have hi' : i < as.length := hlength ▸ hi
  exact ⟨as[i], List.getElem_mem hi', hall i hi' hi⟩

theorem map_eq_map_of_forall₂ {f : α → γ} {g : β → γ} {as : List α} {bs : List β}
    (h : List.Forall₂ (fun a b => f a = g b) as bs) : as.map f = bs.map g := by
  induction h with
  | nil => rfl
  | cons hab _ ih => rw [List.map_cons, List.map_cons, hab, ih]

theorem forall₂_of_mapM {f : α → Except ε β} {as : List α} {bs : List β}
    (h : as.mapM f = .ok bs) : List.Forall₂ (fun a b => f a = .ok b) as bs := by
  induction as generalizing bs with
  | nil =>
    cases h
    exact .nil
  | cons a as ih =>
    rw [List.mapM_cons] at h
    obtain ⟨b, hb, h⟩ := bind_eq_ok.1 h
    obtain ⟨bs, hbs, h⟩ := bind_eq_ok.1 h
    cases h
    exact .cons hb (ih hbs)

theorem mapM_eq_some_iff {f : α → Option β} {as : List α} {bs : List β} :
    as.mapM f = some bs ↔ List.Forall₂ (fun a b => f a = some b) as bs := by
  refine ⟨fun h => ?_, mapM_eq_pure⟩
  induction as generalizing bs with
  | nil =>
    cases h
    exact .nil
  | cons a as ih =>
    rw [List.mapM_cons] at h
    obtain ⟨b, hb, h⟩ := Option.bind_eq_some_iff.1 h
    obtain ⟨bs, hbs, h⟩ := Option.bind_eq_some_iff.1 h
    cases h
    exact .cons hb (ih hbs)

theorem getElem?_of_mapM {f : α → Except ε β} {as : List α} {bs : List β} {a : α} {i : Nat}
    (h : as.mapM f = .ok bs) (ha : as[i]? = some a) : ∃ b, bs[i]? = some b ∧ f a = .ok b := by
  obtain ⟨hi, rfl⟩ := List.getElem?_eq_some_iff.1 ha
  have hall := List.forall₂_iff_get.1 (forall₂_of_mapM h)
  have hi' : i < bs.length := hall.1 ▸ hi
  exact ⟨bs[i], List.getElem?_eq_getElem hi', hall.2 i hi hi'⟩

theorem exists_mapM {f : α → Except ε β} {r : α → β → Prop} {as : List α}
    (h : ∀ a ∈ as, ∃ b, f a = .ok b ∧ r a b) :
    ∃ bs, as.mapM f = .ok bs ∧ List.Forall₂ r as bs := by
  induction as with
  | nil => exact ⟨[], rfl, .nil⟩
  | cons a as ih =>
    obtain ⟨b, hb, hr⟩ := h a List.mem_cons_self
    obtain ⟨bs, hbs, hrs⟩ := ih fun a ha => h a (List.mem_cons_of_mem _ ha)
    refine ⟨b :: bs, ?_, .cons hr hrs⟩
    rw [List.mapM_cons, hb, ok_bind, hbs]
    rfl

/-! ## Loops -/

/-- From here on the loop of these steps ends, with this answer. -/
inductive Ends {σ : Type} (step : σ → σ ⊕ β) : σ ⊕ β → β → Prop
  | answer (b : β) : Ends step (.inr b) b
  | step {s : σ} {b : β} (h : Ends step (step s) b) : Ends step (.inl s) b

end SoundArchive
