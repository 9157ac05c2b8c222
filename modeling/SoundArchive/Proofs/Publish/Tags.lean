import Mathlib.Data.List.Nodup
import SoundArchive.Publish.TagList

/-!
# Tags by their names

What a change of a list does to its names and to the value of every name. Each look-up takes the
first tag that is called so; that no other tag is called so is kept by every change.
-/

namespace SoundArchive.TagList

variable {l other : TagList} {tags front rest : List (String × String)} {t : String × String}
  {name name' value : String} {change : String → String}

theorem sameName_iff {a b : String} : sameName a b = true ↔ folded a = folded b := beq_iff_eq

/-- The names as they are spelled. -/
def names (l : TagList) : List String := l.tags.map (·.1)

/-- No two names differ only in the case of ASCII letters. -/
def HasDistinctNames (l : TagList) : Prop := (l.names.map folded).Nodup

theorem hasDistinctNames_cons : HasDistinctNames ⟨t :: rest⟩ ↔
    (∀ s ∈ rest, folded s.1 ≠ folded t.1) ∧ HasDistinctNames ⟨rest⟩ := by
  unfold HasDistinctNames names
  simp only [List.map_cons, List.nodup_cons, List.map_map, List.mem_map, Function.comp_apply,
    not_exists, not_and, ne_eq]

theorem HasDistinctNames.front_ne (h : HasDistinctNames ⟨front ++ t :: rest⟩) :
    ∀ s ∈ front, folded s.1 ≠ folded t.1 := by
  intro s hs
  unfold HasDistinctNames names at h
  simp only [List.map_append, List.map_cons] at h
  exact (List.nodup_append.1 h).2.2 _ (List.mem_map_of_mem (List.mem_map_of_mem hs)) _
    List.mem_cons_self

/-! ## Looking up -/

theorem get?_nil (name : String) : get? ⟨[]⟩ name = none := rfl

theorem get?_cons : get? ⟨t :: rest⟩ name
    = if folded t.1 = folded name then some t.2 else get? ⟨rest⟩ name := by
  have hsame := sameName_iff (a := t.1) (b := name)
  by_cases h : folded t.1 = folded name
  · simp [get?, hsame.2 h, h]
  · simp [get?, mt hsame.1 h, h]

theorem contains_iff_mem : l.contains name = true ↔ folded name ∈ l.names.map folded := by
  unfold contains names
  rw [List.any_eq_true, List.map_map, List.mem_map]
  simp only [sameName_iff, Function.comp_apply]

theorem isSome_get? : (l.get? name).isSome = l.contains name := by
  rw [Bool.eq_iff_iff]
  simp [get?, contains]

theorem get?_eq_none (h : ∀ t ∈ tags, folded t.1 ≠ folded name) : get? ⟨tags⟩ name = none := by
  unfold get?
  rw [List.find?_eq_none.2 fun t ht => sameName_iff.not.2 (h t ht)]
  rfl

/-! ## Changing or adding one tag -/

theorem upsert_append (h : ∀ t ∈ front, folded t.1 ≠ folded name) :
    upsert name change value (front ++ tags) = front ++ upsert name change value tags := by
  induction front with
  | nil => rfl
  | cons t front ih =>
    obtain ⟨ht, hfront⟩ := List.forall_mem_cons.1 h
    rw [List.cons_append, upsert, if_neg (sameName_iff.not.2 ht), ih hfront, List.cons_append]

theorem upsert_of_new (h : ∀ t ∈ tags, folded t.1 ≠ folded name) :
    upsert name change value tags = tags ++ [(name, value)] := by
  rw [← List.append_nil tags, upsert_append h, List.append_nil]
  rfl

theorem forall_mem_upsert {p : String × String → Prop} (htags : ∀ t ∈ tags, p t)
    (hnew : p (name, value)) (hchange : ∀ t, p t → p (t.1, change t.2)) :
    ∀ t ∈ upsert name change value tags, p t := by
  induction tags with
  | nil => exact List.forall_mem_singleton.2 hnew
  | cons t rest ih =>
    obtain ⟨ht, hrest⟩ := List.forall_mem_cons.1 htags
    rw [upsert]
    split
    · exact List.forall_mem_cons.2 ⟨hchange t ht, hrest⟩
    · exact List.forall_mem_cons.2 ⟨ht, ih hrest⟩

theorem get?_upsert : get? ⟨upsert name change value tags⟩ name'
    = if folded name = folded name' then some (((get? ⟨tags⟩ name).map change).getD value)
      else get? ⟨tags⟩ name' := by
  induction tags with
  | nil => rw [upsert, get?_cons, get?_nil, get?_nil]; rfl
  | cons t rest ih =>
    rw [upsert]
    by_cases ht : folded t.1 = folded name
    · rw [if_pos (sameName_iff.2 ht), get?_cons, get?_cons, get?_cons, if_pos ht, ht]
      split <;> rfl
    · rw [if_neg (sameName_iff.not.2 ht), get?_cons, get?_cons, get?_cons, if_neg ht, ih]
      split
      · next ht' => rw [if_neg fun h => ht (ht'.trans h.symm)]
      · rfl

theorem names_upsert : names ⟨upsert name change value tags⟩
    = names ⟨tags⟩ ++ if contains ⟨tags⟩ name then [] else [name] := by
  induction tags with
  | nil => rfl
  | cons t rest ih =>
    rw [upsert]
    cases ht : sameName t.1 name with
    | true => simp [names, contains, ht]
    | false =>
      have hrest : contains ⟨t :: rest⟩ name = contains ⟨rest⟩ name := by simp [contains, ht]
      rw [hrest, if_neg Bool.false_ne_true]
      exact congrArg (List.cons t.1) ih

theorem HasDistinctNames.upsert (h : HasDistinctNames ⟨tags⟩) :
    HasDistinctNames ⟨TagList.upsert name change value tags⟩ := by
  unfold HasDistinctNames
  rw [names_upsert]
  split
  · rwa [List.append_nil]
  · next hnew =>
    rw [contains_iff_mem] at hnew
    rw [List.map_append, List.map_singleton, List.nodup_append]
    refine ⟨h, List.nodup_singleton _, fun a ha b hb => ?_⟩
    rw [List.mem_singleton.1 hb]
    exact ne_of_mem_of_not_mem ha hnew

theorem get?_set : (l.set name value).get? name'
    = if folded name = folded name' then some value else l.get? name' := by
  unfold set
  rw [get?_upsert]
  cases l.get? name <;> rfl

theorem names_set : (l.set name value).names
    = l.names ++ if l.contains name then [] else [name] := names_upsert

/-! ## Removing and merging -/

theorem tags_remove (h : l.HasDistinctNames) :
    (l.remove name).tags = l.tags.filter fun t => folded t.1 ≠ folded name := by
  obtain ⟨tags⟩ := l
  unfold remove
  simp only
  induction tags with
  | nil => rfl
  | cons t rest ih =>
    obtain ⟨hrest, hdistinct⟩ := hasDistinctNames_cons.1 h
    by_cases ht : folded t.1 = folded name
    -- No tag behind this one is called so, and erasing the first erases all of them.
    · have hothers : rest.filter (fun s => folded s.1 ≠ folded name) = rest :=
        List.filter_eq_self.2 fun s hs => by simpa [ht] using hrest s hs
      rw [List.filter_cons_of_neg (by simpa using ht), hothers]
      simp [sameName_iff.2 ht]
    · rw [List.filter_cons_of_pos (by simpa using ht), ← ih hdistinct]
      simp [mt sameName_iff.1 ht]

theorem names_remove (h : l.HasDistinctNames) :
    (l.remove name).names = l.names.filter fun n => folded n ≠ folded name := by
  unfold names
  rw [tags_remove h, List.filter_map]
  rfl

theorem HasDistinctNames.remove (h : l.HasDistinctNames) (name : String) :
    (l.remove name).HasDistinctNames := by
  unfold HasDistinctNames
  rw [names_remove h]
  exact h.sublist ((List.filter_sublist).map folded)

theorem get?_remove (h : l.HasDistinctNames) : (l.remove name).get? name'
    = if folded name = folded name' then none else l.get? name' := by
  have hremove : l.remove name = ⟨l.tags.filter fun t => folded t.1 ≠ folded name⟩ :=
    congrArg TagList.mk (tags_remove h)
  rw [hremove]
  split
  · next hsame => exact get?_eq_none fun t ht => hsame ▸ by simpa using List.of_mem_filter ht
  · next hother =>
    have hkept (t : String × String) (ht : sameName t.1 name' = true) :
        decide (folded t.1 ≠ folded name) = true := by
      rw [sameName_iff.1 ht]
      exact decide_eq_true (Ne.symm hother)
    unfold get?
    rw [List.find?_filter]
    congr 2
    funext t
    rw [Bool.eq_iff_iff, decide_eq_true_iff]
    exact and_iff_right_of_imp (hkept t)

theorem HasDistinctNames.mergeFrom (h : l.HasDistinctNames) (other : TagList) :
    (l.mergeFrom other).HasDistinctNames := by
  unfold TagList.mergeFrom
  exact List.foldlRecOn _ _ h fun _ hl _ _ => hl.upsert

theorem get?_mergeFrom (h : other.HasDistinctNames) :
    (l.mergeFrom other).get? name = (other.get? name).or (l.get? name) := by
  obtain ⟨tags⟩ := other
  unfold mergeFrom
  simp only
  induction tags generalizing l with
  | nil => rfl
  | cons t rest ih =>
    obtain ⟨hrest, hdistinct⟩ := hasDistinctNames_cons.1 h
    rw [List.foldl_cons, ih hdistinct, get?_set, get?_cons]
    split
    · next hsame =>
      rw [get?_eq_none fun s hs => hsame ▸ hrest s hs]
      rfl
    · rfl

/-! ## Reading -/

/-- The list with what is on one more line. -/
def addLine (l : TagList) (line : List Char) : TagList :=
  match lineTag? line with
  | some (name, value) => l.extend name value
  | none => l

theorem parse_eq (text : String) : parse text = (Text.lines text.toList).foldl addLine {} := rfl

end SoundArchive.TagList
