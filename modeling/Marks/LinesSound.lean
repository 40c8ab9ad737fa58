import Marks.Strings

/-! # Lines of a text

A text is its lines with a line feed between them, and its lines are those of what was joined. -/

namespace Marks

open JsString

def leading (lines : List JsString) : JsString := lines.flatMap (· ++ [newline])

theorem leading_append (before rest : List JsString) : leading (before ++ rest) = leading before ++ leading rest :=
  List.flatMap_append

variable {rest : List JsString}

theorem joinLines_cons (line : JsString) (h : rest ≠ []) :
    joinLines (line :: rest) = line ++ newline :: joinLines rest := by
  cases rest with
  | nil => exact absurd rfl h
  | cons next rest => simp [joinLines, List.intercalate]

theorem joinLines_append (before : List JsString) (h : rest ≠ []) :
    joinLines (before ++ rest) = leading before ++ joinLines rest := by
  induction before with
  | nil => rfl
  | cons line before ih =>
    have hne : before ++ rest ≠ [] := by simp [h]
    rw [List.cons_append, joinLines_cons line hne, ih]
    simp [leading]

theorem leading_joinLines {lines : List JsString} (h : lines ≠ []) : leading lines = joinLines lines ++ [newline] := by
  induction lines with
  | nil => exact absurd rfl h
  | cons line rest ih =>
    cases rest with
    | nil => simp [leading, joinLines, List.intercalate]
    | cons next rest =>
      have hne : next :: rest ≠ [] := by simp
      rw [joinLines_cons line hne, List.append_assoc, List.cons_append, ← ih hne]
      simp [leading]

theorem lines_ne_nil (text : JsString) : lines text ≠ [] := by
  unfold lines
  split
  · simp
  · split
    · simp
    · split <;> simp

theorem joinLines_lines (text : JsString) : joinLines (lines text) = text := by
  induction text with
  | nil => rfl
  | cons c rest ih =>
    unfold lines
    by_cases hc : c = newline
    · rw [if_pos hc, joinLines_cons [] (lines_ne_nil rest), ih, hc]
      rfl
    rw [if_neg hc]
    cases hlines : lines rest with
    | nil => exact absurd hlines (lines_ne_nil rest)
    | cons line more =>
      rw [hlines] at ih
      cases more with
      | nil => simpa [joinLines, List.intercalate] using ih
      | cons next more =>
        have hne : next :: more ≠ [] := by simp
        rw [joinLines_cons _ hne] at ih ⊢
        rw [List.cons_append, ih]

theorem lines_cons {c : UInt16} (hc : c ≠ newline) (rest : JsString) :
    ∃ line more, lines rest = line :: more ∧ lines (c :: rest) = (c :: line) :: more := by
  cases hlines : lines rest with
  | nil => exact absurd hlines (lines_ne_nil rest)
  | cons line more =>
    refine ⟨line, more, rfl, ?_⟩
    simp only [lines, if_neg hc, hlines]

theorem lines_newline (rest : JsString) : lines (newline :: rest) = [] :: lines rest := if_pos rfl

theorem lines_no_newline (text : JsString) : ∀ line ∈ lines text, newline ∉ line := by
  induction text with
  | nil =>
    intro line hline
    rw [List.mem_singleton.mp hline]
    exact List.not_mem_nil
  | cons c rest ih =>
    by_cases hc : c = newline
    · rw [hc, lines_newline]
      exact List.forall_mem_cons.mpr ⟨List.not_mem_nil, ih⟩
    obtain ⟨line, more, hrest, heq⟩ := lines_cons hc rest
    rw [heq]
    rw [hrest, List.forall_mem_cons] at ih
    refine List.forall_mem_cons.mpr ⟨fun hmem => ?_, ih.2⟩
    rcases List.mem_cons.mp hmem with hmem | hmem
    · exact hc hmem.symm
    · exact ih.1 hmem

variable {line : JsString}

theorem lines_append (h : newline ∉ line) (rest : JsString) :
    lines (line ++ newline :: rest) = line :: lines rest := by
  induction line with
  | nil => exact lines_newline rest
  | cons c line ih =>
    rw [List.mem_cons, not_or] at h
    obtain ⟨first, more, hrest, heq⟩ := lines_cons (Ne.symm h.1) (line ++ newline :: rest)
    rw [ih h.2] at hrest
    cases hrest
    exact heq

theorem lines_single (h : newline ∉ line) : lines line = [line] := by
  induction line with
  | nil => rfl
  | cons c line ih =>
    rw [List.mem_cons, not_or] at h
    obtain ⟨first, more, hrest, heq⟩ := lines_cons (Ne.symm h.1) line
    rw [ih h.2] at hrest
    cases hrest
    exact heq

theorem lines_joinLines {all : List JsString} (hne : all ≠ []) (h : ∀ line ∈ all, newline ∉ line) :
    lines (joinLines all) = all := by
  induction all with
  | nil => exact absurd rfl hne
  | cons line rest ih =>
    rw [List.forall_mem_cons] at h
    cases rest with
    | nil =>
      have hjoin : joinLines [line] = line := by simp [joinLines, List.intercalate]
      rw [hjoin]
      exact lines_single h.1
    | cons next rest =>
      have hmore : next :: rest ≠ [] := by simp
      rw [joinLines_cons line hmore, lines_append h.1, ih hmore h.2]

end Marks
