import Mathlib.Data.List.DropRight
import Mathlib.Data.List.TakeWhile
import SoundArchive.Text.Blank

/-! # Lines and trimmed texts -/

namespace SoundArchive.Text

variable {cs line rest front back part : List Char} {mark : Char} {parts : List (List Char)}

/-! ## Trimming -/

theorem trim_eq (cs : List Char) : trim cs = (cs.dropWhile isBlank).rdropWhile isBlank := rfl

theorem not_isBlank_head_dropWhile (h : 0 < (cs.dropWhile isBlank).length) :
    ¬ isBlank (cs.dropWhile isBlank)[0] := by
  have hhead := List.head?_dropWhile_not isBlank cs
  rw [List.head?_eq_getElem?, List.getElem?_eq_getElem h] at hhead
  simpa using hhead

theorem trim_trim (cs : List Char) : trim (trim cs) = trim cs := by
  have hfront : (trim cs).dropWhile isBlank = trim cs := by
    rw [List.dropWhile_eq_self_iff]
    intro h
    -- What is left at the front of the text is in front of what is left at the end.
    have hkept := List.rdropWhile_prefix isBlank (l := cs.dropWhile isBlank)
    rw [← trim_eq] at hkept
    rw [hkept.getElem h]
    exact not_isBlank_head_dropWhile (h.trans_le hkept.length_le)
  rw [trim_eq (trim cs), hfront, trim_eq, List.rdropWhile_idempotent]

theorem mem_of_mem_trim {c : Char} (h : c ∈ trim cs) : c ∈ cs := by
  have hkept := List.rdropWhile_prefix isBlank (l := cs.dropWhile isBlank)
  exact (List.dropWhile_suffix isBlank).subset (hkept.subset h)

/-- A text on one line, with something that is not blank at both of its ends. -/
structure IsPart (cs : List Char) : Prop where
  nonempty : cs ≠ []
  trimmed : trim cs = cs
  oneLine : '\n' ∉ cs

theorem isPart_trim (hline : '\n' ∉ cs) (hne : trim cs ≠ []) : IsPart (trim cs) :=
  ⟨hne, trim_trim cs, fun h => hline (mem_of_mem_trim h)⟩

theorem IsPart.getLast?_ne (h : IsPart cs) : cs.getLast? ≠ some '\r' := by
  rw [List.getLast?_eq_getLast_of_ne_nil h.nonempty]
  intro hlast
  have hblank : ¬ isBlank (cs.getLast h.nonempty) := by
    have hne : (cs.dropWhile isBlank).rdropWhile isBlank ≠ [] := by
      rw [← trim_eq, h.trimmed]
      exact h.nonempty
    have htrimmed := List.rdropWhile_last_not isBlank (cs.dropWhile isBlank) hne
    simpa only [← trim_eq, h.trimmed] using htrimmed
  rw [Option.some.inj hlast] at hblank
  exact hblank (by decide)

/-! ## The first mark -/

theorem forall_ne_of_notMem (h : mark ∉ front) : ∀ c ∈ front, decide (c ≠ mark) = true :=
  fun _ hc => decide_eq_true (ne_of_mem_of_not_mem hc h)

theorem takeWhile_mark (h : mark ∉ front) :
    (front ++ mark :: back).takeWhile (· ≠ mark) = front := by
  rw [List.takeWhile_append_of_pos (forall_ne_of_notMem h), List.takeWhile_cons_of_neg (by simp),
    List.append_nil]

theorem dropWhile_mark (h : mark ∉ front) :
    (front ++ mark :: back).dropWhile (· ≠ mark) = mark :: back := by
  rw [List.dropWhile_append_of_pos (forall_ne_of_notMem h), List.dropWhile_cons_of_neg (by simp)]

theorem splitAt?_append (h : mark ∉ front) :
    splitAt? mark (front ++ mark :: back) = some (front, back) := by
  unfold splitAt?
  rw [dropWhile_mark h, takeWhile_mark h]

theorem splitAt?_eq_some (h : splitAt? mark cs = some (front, back)) :
    cs = front ++ mark :: back ∧ mark ∉ front := by
  have hsplit := List.takeWhile_append_dropWhile (p := (· ≠ mark)) (l := cs)
  unfold splitAt? at h
  split at h
  · cases h
  · next c _ hdrop =>
    obtain ⟨rfl, rfl⟩ := Prod.mk.inj (Option.some.inj h)
    have hmark := List.head?_dropWhile_not (· ≠ mark) cs
    rw [hdrop] at hmark hsplit
    obtain rfl : c = mark := by simpa using hmark
    exact ⟨hsplit.symm, fun hmem => by simpa using List.mem_takeWhile_imp hmem⟩

/-! ## Lines -/

theorem firstLine_append (h : '\n' ∉ line) (hlast : line.getLast? ≠ some '\r') :
    firstLine (line ++ '\n' :: rest) = (line, rest) := by
  unfold firstLine
  simp only [dropWhile_mark h, takeWhile_mark h]
  rw [if_neg hlast]

theorem firstLine_of_notMem (h : '\n' ∉ line) : firstLine line = (line, []) := by
  unfold firstLine
  rw [List.dropWhile_eq_nil_iff.2 (forall_ne_of_notMem h),
    List.takeWhile_eq_self_iff.2 (forall_ne_of_notMem h)]

theorem lines_of_ne_nil (h : cs ≠ []) :
    lines cs = (firstLine cs).1 :: lines (firstLine cs).2 := by
  obtain ⟨c, cs, rfl⟩ := List.exists_cons_of_ne_nil h
  rw [lines]

theorem lines_append (h : '\n' ∉ line) (hlast : line.getLast? ≠ some '\r') :
    lines (line ++ '\n' :: rest) = line :: lines rest := by
  rw [lines_of_ne_nil (by simp), firstLine_append h hlast]

/-- Lines that each have a line feed behind them are the lines of the whole. -/
theorem lines_flatMap {ls : List (List Char)}
    (h : ∀ line ∈ ls, '\n' ∉ line ∧ line.getLast? ≠ some '\r') :
    lines (ls.flatMap (· ++ ['\n'])) = ls := by
  induction ls with
  | nil => rw [List.flatMap_nil, lines]
  | cons line ls ih =>
    obtain ⟨⟨hline, hlast⟩, hls⟩ := List.forall_mem_cons.1 h
    rw [List.flatMap_cons, List.append_assoc, List.singleton_append, lines_append hline hlast,
      ih hls]

theorem IsPart.lines_eq (h : IsPart part) : lines part = [part] := by
  rw [lines_of_ne_nil h.nonempty, firstLine_of_notMem h.oneLine, lines]

theorem notMem_of_mem_lines (h : line ∈ lines cs) : '\n' ∉ line := by
  induction cs using lines.induct with
  | case1 => simp [lines] at h
  | case2 c cs ih =>
    rw [lines] at h
    rcases List.mem_cons.1 h with rfl | h
    · have htake : '\n' ∉ (c :: cs).takeWhile (· ≠ '\n') :=
        fun hmem => by simpa using List.mem_takeWhile_imp hmem
      unfold firstLine
      split
      · exact htake
      · simp only
        split
        · exact fun hmem => htake (List.dropLast_subset _ hmem)
        · exact htake
    · exact ih h

/-! ## Parts with line feeds between them -/

theorem lines_intercalate (h : ∀ part ∈ parts, IsPart part) :
    lines (['\n'].intercalate parts) = parts := by
  induction parts with
  | nil => rw [List.intercalate_nil, lines]
  | cons part parts ih =>
    obtain ⟨hpart, hparts⟩ := List.forall_mem_cons.1 h
    cases parts with
    | nil => rw [List.intercalate_singleton, hpart.lines_eq]
    | cons next parts =>
      rw [List.intercalate_cons_cons, List.append_assoc, List.singleton_append,
        lines_append hpart.oneLine hpart.getLast?_ne, ih hparts]

theorem intercalate_concat (hne : parts ≠ []) :
    [mark].intercalate (parts ++ [part]) = [mark].intercalate parts ++ mark :: part := by
  induction parts with
  | nil => exact absurd rfl hne
  | cons first parts ih =>
    cases parts with
    | nil => simp
    | cons next parts => simpa using ih (List.cons_ne_nil next parts)

end SoundArchive.Text
