import Mathlib.Data.Finmap
import SoundArchive.Proofs.Publish.Tags

/-!
# Tag lists as ordered maps

Whatever a tag list was made with, its values are those of a map from names in lower case that
was made in the same way, and its order is that in which the names came up.
-/

namespace SoundArchive.TagList

variable {σ τ : Type} {l l' l'' other : TagList} {name name' value : String}

/-! ## Edits -/

/-- What is done with tags, whatever holds them. -/
structure Operations (σ : Type) where
  parse : String → σ
  set : σ → String → String → σ
  remove : σ → String → σ
  mergeFrom : σ → σ → σ

inductive Edit where
  | set (name value : String)
  | remove (name : String)
  /-- Merges in what a text and edits of its own make. -/
  | merge (text : String) (edits : List Edit)

namespace Operations

mutual

def edit (ops : Operations σ) (s : σ) : Edit → σ
  | .set name value => ops.set s name value
  | .remove name => ops.remove s name
  | .merge text edits => ops.mergeFrom s (ops.run (ops.parse text) edits)

def run (ops : Operations σ) (s : σ) : List Edit → σ
  | [] => s
  | e :: edits => ops.run (ops.edit s e) edits

end

/-- What a text and edits of it make. -/
def make (ops : Operations σ) (text : String) (edits : List Edit) : σ :=
  ops.run (ops.parse text) edits

theorem run_append (ops : Operations σ) (s : σ) (edits later : List Edit) :
    ops.run s (edits ++ later) = ops.run (ops.run s edits) later := by
  induction edits generalizing s with
  | nil => rw [List.nil_append, run]
  | cons e edits ih => rw [List.cons_append, run, run, ih]

/-- Each operation takes what is related to what is related. -/
structure Related (ops : Operations σ) (spec : Operations τ) (r : σ → τ → Prop) : Prop where
  parse (text : String) : r (ops.parse text) (spec.parse text)
  set {s : σ} {m : τ} (h : r s m) (name value : String) :
    r (ops.set s name value) (spec.set m name value)
  remove {s : σ} {m : τ} (h : r s m) (name : String) : r (ops.remove s name) (spec.remove m name)
  mergeFrom {s s' : σ} {m m' : τ} (h : r s m) (h' : r s' m') :
    r (ops.mergeFrom s s') (spec.mergeFrom m m')

variable {ops : Operations σ} {spec : Operations τ} {r : σ → τ → Prop}

mutual

theorem Related.edit (hops : Related ops spec r) :
    ∀ (e : Edit) {s : σ} {m : τ}, r s m → r (ops.edit s e) (spec.edit m e)
  | .set name value, _, _, h => by
    rw [Operations.edit, Operations.edit]
    exact hops.set h name value
  | .remove name, _, _, h => by
    rw [Operations.edit, Operations.edit]
    exact hops.remove h name
  | .merge text edits, _, _, h => by
    rw [Operations.edit, Operations.edit]
    exact hops.mergeFrom h (Related.run hops edits (hops.parse text))

theorem Related.run (hops : Related ops spec r) :
    ∀ (edits : List Edit) {s : σ} {m : τ}, r s m → r (ops.run s edits) (spec.run m edits)
  | [], _, _, h => by
    rw [Operations.run, Operations.run]
    exact h
  | e :: edits, _, _, h => by
    rw [Operations.run, Operations.run]
    exact Related.run hops edits (Related.edit hops e h)

end

end Operations

/-! ## The list and the map -/

def listOperations : Operations TagList := { parse, set, remove, mergeFrom }

abbrev TagMap := Finmap fun _ : String => String

namespace TagMap

/-- A name that comes up again continues its value on a new line. -/
def addLine (m : TagMap) (line : List Char) : TagMap :=
  match lineTag? line with
  | some (name, value) =>
    m.insert (folded name) (((m.lookup (folded name)).map (· ++ "\n" ++ value)).getD value)
  | none => m

def parse (text : String) : TagMap := (Text.lines text.toList).foldl addLine ∅

/-- The tags that are merged in win. -/
def operations : Operations TagMap where
  parse
  set m name value := m.insert (folded name) value
  remove m name := m.erase (folded name)
  mergeFrom m other := other ∪ m

theorem lookup_insert_eq (m : TagMap) (name name' value : String) :
    (m.insert name value).lookup name' = if name = name' then some value else m.lookup name' := by
  split
  · next h =>
    subst h
    exact Finmap.lookup_insert m
  · next h => exact Finmap.lookup_insert_of_ne m (Ne.symm h)

theorem lookup_union_eq (m other : TagMap) (name : String) :
    (other ∪ m).lookup name = (other.lookup name).or (m.lookup name) := by
  by_cases h : name ∈ other
  · obtain ⟨value, hvalue⟩ := Finmap.mem_iff.1 h
    rw [Finmap.lookup_union_left h, hvalue, Option.some_or]
  · rw [Finmap.lookup_union_right h, Finmap.lookup_eq_none.2 h, Option.none_or]

end TagMap

/-- A list that has no name twice, and the value that the map has for every name. -/
structure Represents (l : TagList) (m : TagMap) : Prop where
  distinct : l.HasDistinctNames
  get? (name : String) : l.get? name = m.lookup (folded name)

namespace Represents

variable {m m' : TagMap}

theorem upsert {change : String → String} (h : Represents l m) :
    Represents ⟨TagList.upsert name change value l.tags⟩
      (m.insert (folded name) (((m.lookup (folded name)).map change).getD value)) := by
  refine ⟨h.distinct.upsert, fun name' => ?_⟩
  rw [get?_upsert, TagMap.lookup_insert_eq, ← h.get?, ← h.get?]

theorem set (h : Represents l m) (name value : String) :
    Represents (l.set name value) (m.insert (folded name) value) := by
  refine ⟨h.distinct.upsert, fun name' => ?_⟩
  rw [get?_set, TagMap.lookup_insert_eq, ← h.get?]

theorem remove (h : Represents l m) (name : String) :
    Represents (l.remove name) (m.erase (folded name)) := by
  refine ⟨h.distinct.remove name, fun name' => ?_⟩
  rw [get?_remove h.distinct]
  split
  · next hsame => rw [← hsame, Finmap.lookup_erase]
  · next hother => rw [Finmap.lookup_erase_ne (Ne.symm hother), h.get?]

theorem mergeFrom (h : Represents l m) (h' : Represents l' m') :
    Represents (l.mergeFrom l') (m' ∪ m) := by
  refine ⟨h.distinct.mergeFrom l', fun name => ?_⟩
  rw [get?_mergeFrom h'.distinct, TagMap.lookup_union_eq, h.get?, h'.get?]

theorem addLine (h : Represents l m) (line : List Char) :
    Represents (l.addLine line) (m.addLine line) := by
  unfold TagList.addLine TagMap.addLine
  cases lineTag? line with
  | none => exact h
  | some tag => exact h.upsert

theorem parse (text : String) : Represents (parse text) (TagMap.parse text) := by
  rw [parse_eq, TagMap.parse]
  refine List.foldl_rel ⟨List.nodup_nil, fun name => rfl⟩ fun line _ l m h => ?_
  exact h.addLine line

theorem contains_iff (h : Represents l m) (name : String) :
    l.contains name = true ↔ folded name ∈ m := by
  rw [← isSome_get?, h.get?, Finmap.lookup_isSome]

end Represents

theorem related_operations :
    Operations.Related listOperations TagMap.operations Represents where
  parse := Represents.parse
  set h := h.set
  remove h := h.remove
  mergeFrom h h' := h.mergeFrom h'

/-! ## Order -/

/-- The tags that are not gone stand in front, in the order and the spelling that they had, and
what stands behind them is new. -/
def KeepsOrder (gone : List String) (l l' : TagList) : Prop :=
  ∃ added, l'.names = l.names.filter (fun n => folded n ∉ gone) ++ added ∧
    ∀ n ∈ added, l.contains n = true → folded n ∈ gone

namespace KeepsOrder

variable {gone gone' : List String}

theorem refl (l : TagList) : KeepsOrder [] l l := ⟨[], by simp, by simp⟩

theorem trans (h : KeepsOrder gone l l') (h' : KeepsOrder gone' l' l'') :
    KeepsOrder (gone ++ gone') l l'' := by
  obtain ⟨added, hnames, hadded⟩ := h
  obtain ⟨added', hnames', hadded'⟩ := h'
  refine ⟨added.filter (fun n => folded n ∉ gone') ++ added', ?_, fun n hn hthere => ?_⟩
  · rw [hnames', hnames, List.filter_append, List.filter_filter, List.append_assoc]
    simp [Bool.and_comm]
  · rw [List.mem_append]
    rcases List.mem_append.1 hn with hn | hn
    · exact .inl (hadded n (List.mem_of_mem_filter hn) hthere)
    · -- A tag that was there and is not gone is still there, so it was not added again.
      refine or_iff_not_imp_left.2 fun hstays => hadded' n hn ?_
      rw [contains_iff_mem] at hthere ⊢
      obtain ⟨n', hn', hsame⟩ := List.mem_map.1 hthere
      rw [hnames, List.map_append, List.mem_append]
      refine .inl (List.mem_map.2 ⟨n', List.mem_filter.2 ⟨hn', ?_⟩, hsame⟩)
      rw [hsame]
      exact decide_eq_true hstays

theorem set (l : TagList) (name value : String) : KeepsOrder [] l (l.set name value) := by
  refine ⟨_, by simpa using names_set, fun n hn hthere => ?_⟩
  split at hn
  · cases hn
  · next hnew =>
    rw [List.mem_singleton.1 hn] at hthere
    exact absurd hthere hnew

theorem remove (h : l.HasDistinctNames) (name : String) :
    KeepsOrder [folded name] l (l.remove name) :=
  ⟨[], by simp [names_remove h], by simp⟩

theorem mergeFrom (l other : TagList) : KeepsOrder [] l (l.mergeFrom other) := by
  unfold TagList.mergeFrom
  induction other.tags generalizing l with
  | nil => exact refl l
  | cons t rest ih => exact (set l t.1 t.2).trans (ih (l.set t.1 t.2))

end KeepsOrder

/-- What an edit removes, in lower case. -/
def Edit.removed : Edit → List String
  | .remove name => [folded name]
  | _ => []

theorem keepsOrder_edit (h : l.HasDistinctNames) (e : Edit) :
    KeepsOrder e.removed l (listOperations.edit l e) := by
  cases e with
  | set name value =>
    rw [Operations.edit]
    exact .set l name value
  | remove name =>
    rw [Operations.edit]
    exact .remove h name
  | merge text edits =>
    rw [Operations.edit]
    exact .mergeFrom l _

theorem keepsOrder_run {m : TagMap} (h : Represents l m) (edits : List Edit) :
    KeepsOrder (edits.flatMap Edit.removed) l (listOperations.run l edits) := by
  induction edits generalizing l m with
  | nil =>
    rw [Operations.run]
    exact .refl l
  | cons e edits ih =>
    rw [Operations.run]
    exact (keepsOrder_edit h.distinct e).trans (ih (related_operations.edit e h))

/-- Whatever text and edits a list is made of, no two of its names differ only in case, it has the
values of the map that is made of them, and further edits keep the order of the tags that they do
not remove and put new ones behind them. -/
theorem made_isOrderedMap (text : String) (edits later : List Edit) :
    let l := listOperations.make text edits
    let m := TagMap.operations.make text edits
    l.HasDistinctNames ∧
      (∀ name, l.get? name = m.lookup (folded name) ∧
        (l.contains name = true ↔ folded name ∈ m)) ∧
      KeepsOrder (later.flatMap Edit.removed) l (listOperations.make text (edits ++ later)) := by
  intro l m
  have hmade : Represents l m := related_operations.run edits (Represents.parse text)
  have hlater : listOperations.make text (edits ++ later) = listOperations.run l later :=
    listOperations.run_append _ edits later
  rw [hlater]
  exact ⟨hmade.distinct, fun name => ⟨hmade.get? name, hmade.contains_iff name⟩,
    keepsOrder_run hmade later⟩

end SoundArchive.TagList
