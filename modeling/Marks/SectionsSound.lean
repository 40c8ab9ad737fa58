import Marks.ReportSound

/-! # Sections of a report

The section of a heading ends where the next heading that is not below it begins, or with the text, so it is made of
whole lines. -/

namespace Marks

open JsString List

theorem closeSections_getElem {textLength i : Nat} {headings : List IntelligenceHeading}
    {heading : IntelligenceHeading} (h : (closeSections textLength headings)[i]? = some heading) :
    ∃ found, headings[i]? = some found ∧ heading.level = found.level ∧
      heading.sectionTo =
        (((headings.drop (i + 1)).find? (·.level ≤ found.level)).map (·.sectionFrom)).getD textLength := by
  induction headings generalizing i with
  | nil => exact absurd h (by simp [closeSections])
  | cons first rest ih =>
    have hunfold : closeSections textLength (first :: rest) =
        { first with
          sectionTo := ((rest.find? (·.level ≤ first.level)).map (·.sectionFrom)).getD textLength } ::
        closeSections textLength rest := rfl
    rw [hunfold] at h
    cases i with
    | zero =>
      cases h
      exact ⟨first, rfl, rfl, rfl⟩
    | succ i => exact ih h

section
variable {text : JsString} {heading : IntelligenceHeading} {i : Nat}

theorem sectionTo_eq (h : (headingsOf text)[i]? = some heading) :
    heading.sectionTo =
      ((((entries text).drop (i + 1)).find? (·.level ≤ heading.level)).map (·.from_)).getD text.length := by
  obtain ⟨found, -, hlevel, hstop⟩ := closeSections_getElem h
  have hentries : entries text = (collectHeadings text.length (bodyOf text) (scanLines text (bodyOf text))).map
      IntelligenceHeading.entry := closeSections_entries _ _
  rw [hstop, hentries, ← map_drop, find?_map, Option.map_map, hlevel]
  rfl

theorem sectionTo_cases (h : heading ∈ headingsOf text) :
    heading.sectionTo = text.length ∨ ∃ entry ∈ entries text, heading.sectionTo = entry.from_ := by
  obtain ⟨i, hi⟩ := getElem?_of_mem h
  rw [sectionTo_eq hi]
  cases hnext : ((entries text).drop (i + 1)).find? (·.level ≤ heading.level) with
  | none => exact Or.inl rfl
  | some entry => exact Or.inr ⟨entry, mem_of_mem_drop (mem_of_find?_eq_some hnext), rfl⟩

end

/-! ## Order -/

theorem outline_ordered (bodyFrom : Nat) (all : List JsString) (from_ number : Nat) (fence : Option Fence) :
    (outline bodyFrom all from_ number fence).Pairwise (·.from_ < ·.from_) := by
  induction all generalizing from_ number fence with
  | nil => exact List.Pairwise.nil
  | cons source rest ih =>
    rw [outline_cons, pairwise_append]
    refine ⟨?_, ih _ _ _, ?_⟩
    · by_cases hhere : bodyFrom ≤ from_ ∧ fence = none ∧ markerAt bodyFrom from_ source = none
      · rw [if_pos hhere]
        cases entryOf from_ number source <;> simp
      · rw [if_neg hhere]
        exact List.Pairwise.nil
    · intro a ha b hb
      have hfrom : a.from_ = from_ := by
        by_cases hhere : bodyFrom ≤ from_ ∧ fence = none ∧ markerAt bodyFrom from_ source = none
        · rw [if_pos hhere] at ha
          exact entryOf_from (Option.mem_toList.mp ha)
        · rw [if_neg hhere] at ha
          cases ha
      have hbehind := (outline_offsets hb).1
      omega

theorem entries_ordered (text : JsString) : (entries text).Pairwise (·.from_ < ·.from_) := by
  rw [entries_eq]
  exact (outline_ordered _ _ _ _ _).sublist (take_sublist _ _)

theorem entries_within {text : JsString} {entry : OutlineEntry} (h : entry ∈ entries text) :
    entry.from_ < text.length := by
  obtain ⟨i, hi⟩ := getElem?_of_mem h
  obtain ⟨-, before, source, after, hat⟩ := headingAt_of hi
  have hpos : 0 < (joinLines (source :: after)).length :=
    length_pos_iff.mpr (joinLines_dashless (entryOf_dashless hat.entry) after).1
  rw [entryOf_from hat.entry, hat.text_eq, length_append]
  omega

/-! ## Lines of a section -/

theorem leading_prefix {a b x y : List JsString} (h : a ++ x = b ++ y)
    (hle : (leading a).length ≤ (leading b).length) : ∃ mid, b = a ++ mid := by
  rcases append_eq_append_iff.mp h with ⟨mid, hb, -⟩ | ⟨mid, ha, -⟩
  · exact ⟨mid, hb⟩
  cases mid with
  | nil => exact ⟨[], by rw [append_nil] at ha ⊢; exact ha.symm⟩
  | cons line mid =>
    rw [ha, leading_append, length_append, leading_cons_length] at hle
    omega

theorem lines_leading_nil {all : List JsString} (h : ∀ line ∈ all, newline ∉ line) :
    lines (leading all) = all ++ [[]] := by
  have hlines := lines_leading h []
  rw [append_nil] at hlines
  exact hlines

section
variable {text : JsString} {before after start rest : List JsString} {source line : JsString} {stop : Nat}

theorem section_line (hsection : lines text = before ++ source :: after) (hline : lines text = start ++ line :: rest)
    (hle : (leading before).length ≤ (leading start).length) (hlt : (leading start).length < stop)
    (hstop : stop = text.length ∨ ∃ front next back, lines text = front ++ next :: back ∧ stop = (leading front).length) :
    ∃ mid more, start = before ++ mid ∧ lines (text.slice (leading before).length stop) = mid ++ line :: more := by
  obtain ⟨mid, rfl⟩ := leading_prefix (hsection.symm.trans hline) hle
  have hall := lines_no_newline text
  rw [hline] at hall
  have htext : text = leading before ++ joinLines (mid ++ line :: rest) := by
    rw [← joinLines_append before (by simp), ← append_assoc, ← hline, joinLines_lines]
  rcases hstop with rfl | ⟨front, next, back, hfront, rfl⟩
  · refine ⟨mid, rest, rfl, ?_⟩
    have hslice : text.slice (leading before).length text.length = joinLines (mid ++ line :: rest) := by
      rw [slice, take_length]
      conv_lhs => rw [htext]
      rw [drop_left]
    rw [hslice, lines_joinLines (by simp)]
    intro other hother
    refine hall other ?_
    rw [append_assoc]
    exact mem_append_right before hother
  · obtain ⟨tail, rfl⟩ := leading_prefix (hline.symm.trans hfront) (Nat.le_of_lt hlt)
    cases tail with
    | nil =>
      rw [append_nil] at hlt
      omega
    | cons first tail =>
      have hsame := hline.symm.trans hfront
      rw [append_assoc (before ++ mid), append_cancel_left_eq, cons_append, List.cons.injEq] at hsame
      obtain ⟨rfl, -⟩ := hsame
      refine ⟨mid, tail ++ [[]], rfl, ?_⟩
      have hslice : text.slice (leading before).length (leading (before ++ mid ++ line :: tail)).length =
          leading (mid ++ line :: tail) := by
        have hwhole : text = leading (before ++ mid ++ line :: tail) ++ joinLines (next :: back) := by
          rw [← joinLines_append _ (by simp), ← hfront, joinLines_lines]
        rw [slice]
        conv_lhs => rw [hwhole]
        rw [take_left, append_assoc, leading_append, drop_left]
      have hmore := lines_no_newline text
      rw [hfront] at hmore
      rw [hslice, lines_leading_nil]
      · rw [append_assoc, cons_append]
      intro other hother
      refine hmore other (mem_append_left _ ?_)
      rw [append_assoc]
      exact mem_append_right before hother

end

end Marks
