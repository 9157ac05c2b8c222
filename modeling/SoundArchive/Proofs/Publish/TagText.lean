import SoundArchive.Proofs.Publish.Tags
import SoundArchive.Proofs.Text.Lines

/-!
# Reading back the text of a tag list

A value of several lines is written as several tags of one name, and these are joined again. What
was read has nothing in it that a text could not hold: names have no mark in them, no line is
empty, and no line begins or ends with a blank.
-/

namespace SoundArchive.TagList

open Text

variable {l : TagList} {tags front : List (String × String)} {t : String × String}
  {name value : String} {line part : List Char} {parts : List (List Char)}

/-! ## Tags that can be written -/

/-- The name and the lines of the value are what is left of a line when it is trimmed. -/
structure IsTag (t : String × String) : Prop where
  name : IsPart t.1.toList
  unmarked : '=' ∉ t.1.toList
  value : ∃ parts, parts ≠ [] ∧ (∀ part ∈ parts, IsPart part) ∧
    t.2 = String.ofList (['\n'].intercalate parts)

structure IsWritable (l : TagList) : Prop where
  distinct : l.HasDistinctNames
  tags : ∀ t ∈ l.tags, IsTag t

theorem isPart_of_lineTag? (hline : '\n' ∉ line) (h : lineTag? line = some (name, value)) :
    IsPart name.toList ∧ '=' ∉ name.toList ∧ IsPart value.toList := by
  unfold lineTag? at h
  split at h
  · cases h
  · next front back hsplit =>
    obtain ⟨rfl, hmark⟩ := splitAt?_eq_some hsplit
    obtain ⟨hfront, hback⟩ : '\n' ∉ front ∧ '\n' ∉ back := by simpa using hline
    simp only at h
    split at h
    · cases h
    · next hne =>
      obtain ⟨rfl, rfl⟩ := Prod.mk.inj (Option.some.inj h)
      obtain ⟨hname, hvalue⟩ : trim front ≠ [] ∧ trim back ≠ [] := by simpa using hne
      simp only [String.toList_ofList]
      exact ⟨isPart_trim hfront hname, fun h => hmark (mem_of_mem_trim h),
        isPart_trim hback hvalue⟩

theorem IsTag.extend (h : IsTag t) (hpart : IsPart value.toList) :
    IsTag (t.1, t.2 ++ "\n" ++ value) := by
  obtain ⟨parts, hne, hparts, hvalue⟩ := h.value
  refine ⟨h.name, h.unmarked, parts ++ [value.toList], by simp, ?_, ?_⟩
  · exact List.forall_mem_append.2 ⟨hparts, List.forall_mem_singleton.2 hpart⟩
  · rw [intercalate_concat hne, ← String.toList_inj]
    simp [hvalue]

theorem isWritable_addLine (h : l.IsWritable) (hline : '\n' ∉ line) :
    (l.addLine line).IsWritable := by
  unfold addLine
  split
  · next name value htag =>
    obtain ⟨hname, hmark, hvalue⟩ := isPart_of_lineTag? hline htag
    refine ⟨h.distinct.upsert, forall_mem_upsert h.tags ?_ fun t ht => ht.extend hvalue⟩
    exact ⟨hname, hmark, [value.toList], by simp, by simpa using hvalue, by simp⟩
  · exact h

theorem isWritable_parse (text : String) : (parse text).IsWritable := by
  rw [parse_eq]
  refine List.foldlRecOn _ _ ⟨List.nodup_nil, by simp⟩ fun l h line hline => ?_
  exact isWritable_addLine h (notMem_of_mem_lines hline)

/-! ## The text of a list -/

/-- The lines of a tag, one for each line of its value. -/
def tagLines (t : String × String) : List (List Char) :=
  (lines t.2.toList).map fun line => t.1.toList ++ '=' :: line

theorem toList_toText (l : TagList) :
    l.toText.toList = (l.tags.flatMap tagLines).flatMap (· ++ ['\n']) := by
  unfold toText tagLines
  rw [String.toList_join]
  simp [List.flatMap_assoc, List.flatMap_map]

theorem lines_toText (h : l.IsWritable) : lines l.toText.toList = l.tags.flatMap tagLines := by
  rw [toList_toText]
  refine lines_flatMap fun line hline => ?_
  obtain ⟨t, ht, hline⟩ := List.mem_flatMap.1 hline
  obtain ⟨part, hpart, rfl⟩ := List.mem_map.1 hline
  obtain ⟨hname, -, parts, -, hparts, hvalue⟩ := h.tags t ht
  rw [hvalue, String.toList_ofList, lines_intercalate hparts] at hpart
  have hpart := hparts part hpart
  refine ⟨by simp [hname.oneLine, hpart.oneLine], ?_⟩
  rw [List.getLast?_append_of_ne_nil _ (List.cons_ne_nil _ _),
    List.getLast?_cons_of_ne_nil hpart.nonempty]
  exact hpart.getLast?_ne

/-! ## Reading it -/

theorem addLine_tagLine (hname : IsPart name.toList) (hmark : '=' ∉ name.toList)
    (hpart : IsPart part) (l : TagList) :
    l.addLine (name.toList ++ '=' :: part) = l.extend name (String.ofList part) := by
  have htag : lineTag? (name.toList ++ '=' :: part) = some (name, String.ofList part) := by
    unfold lineTag?
    rw [splitAt?_append hmark]
    simp [hname.trimmed, hpart.trimmed, hname.nonempty, hpart.nonempty]
  unfold addLine
  rw [htag]

/-- The first line of a tag brings the name up, and the others continue the value. -/
theorem foldl_addLine_parts (hname : IsPart name.toList) (hmark : '=' ∉ name.toList)
    (hne : parts ≠ []) (hparts : ∀ part ∈ parts, IsPart part)
    (hnew : ∀ s ∈ front, folded s.1 ≠ folded name) :
    (parts.map fun part => name.toList ++ '=' :: part).foldl addLine ⟨front⟩
      = ⟨front ++ [(name, String.ofList (['\n'].intercalate parts))]⟩ := by
  -- The last line is taken off, since it is joined to what the lines in front of it made.
  induction parts using List.reverseRecOn with
  | nil => exact absurd rfl hne
  | append_singleton parts part ih =>
    obtain ⟨hfirst, hpart⟩ := List.forall_mem_append.1 hparts
    rw [List.forall_mem_singleton] at hpart
    rw [List.map_append, List.foldl_append, List.map_singleton, List.foldl_cons, List.foldl_nil]
    by_cases hnil : parts = []
    · subst hnil
      rw [List.map_nil, List.foldl_nil, addLine_tagLine hname hmark hpart, extend,
        upsert_of_new hnew]
      simp
    · rw [ih hnil hfirst, addLine_tagLine hname hmark hpart, extend, upsert_append hnew,
        intercalate_concat hnil]
      simp [upsert, sameName, String.append_assoc]

theorem foldl_addLine_tags (h : IsWritable ⟨front ++ tags⟩) :
    (tags.flatMap tagLines).foldl addLine ⟨front⟩ = ⟨front ++ tags⟩ := by
  induction tags generalizing front with
  | nil => simp
  | cons t tags ih =>
    obtain ⟨hname, hmark, parts, hne, hparts, hvalue⟩ := h.tags t (by simp)
    have hlines : tagLines t = parts.map fun part => t.1.toList ++ '=' :: part := by
      rw [tagLines, hvalue, String.toList_ofList, lines_intercalate hparts]
    have hmoved : front ++ t :: tags = front ++ [t] ++ tags := by simp
    rw [List.flatMap_cons, List.foldl_append, hlines,
      foldl_addLine_parts hname hmark hne hparts h.distinct.front_ne, ← hvalue]
    rw [hmoved] at h ⊢
    exact ih h

theorem parse_toText_of_isWritable (h : l.IsWritable) : parse l.toText = l := by
  have hempty : IsWritable ⟨[] ++ l.tags⟩ := h
  rw [parse_eq, lines_toText h]
  exact foldl_addLine_tags hempty

/-- The text of a list that was read is read back as that list. Of all lists this is so of those
that have distinct names, and tags that are written on lines of their own. -/
theorem parse_toText_parse :
    (∀ text, parse (parse text).toText = parse text) ∧
      ∀ l : TagList, parse l.toText = l ↔ l.IsWritable := by
  refine ⟨fun text => parse_toText_of_isWritable (isWritable_parse text), fun l => ⟨fun h => ?_,
    parse_toText_of_isWritable⟩⟩
  rw [← h]
  exact isWritable_parse l.toText

end SoundArchive.TagList
