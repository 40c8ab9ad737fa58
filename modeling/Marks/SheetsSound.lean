import Marks.Sheets

/-! # Pipe tables of spreadsheets

A table line is read by cutting it at the pipes that no backslash precedes, and a cell by undoing the escapes. Escaping
commutes with the line breaks and with the trimming, so a cell reads as what is left of the string of the file. -/

namespace Marks.Imports

open List

open Network (isWhiteSpace)

/-! ## Reading a table -/

def splitPipes : Bool → Text → List Text
  | _, [] => [[]]
  | behind, c :: rest =>
    if c = '|' ∧ behind = false then [] :: splitPipes false rest
    else
      match splitPipes (c == '\\') rest with
      | [] => [[c]]
      | cell :: cells => (c :: cell) :: cells

def cellsOf (line : Text) : List Text := ((splitPipes false line).drop 1).dropLast

def unescape : Text → Text
  | [] => []
  | [c] => [c]
  | c :: d :: rest => if c = '\\' ∧ (d = '\\' ∨ d = '|') then d :: unescape rest else c :: unescape (d :: rest)

def tableLines (emitted : Text) : List Text := (emitted.splitOn '\n').filter (·.head? == some '|')

def breakOf (c : Char) : Text := if c = '\r' ∨ c = '\n' then lineBreak else [c]

def breakLines : Text → Text
  | [] => []
  | [c] => breakOf c
  | c :: d :: rest => if c = '\r' ∧ d = '\n' then lineBreak ++ breakLines rest else breakOf c ++ breakLines (d :: rest)

def plainCell (stays : Char → Bool) (value : Text) : Text :=
  trim (breakLines ((value.take maxCellScalars).filter stays))

/-- Every table line has the columns of the sheet, and the data cells read as the strings of the rows. -/
structure Tabulated (stays : Char → Bool) (rows : List (List Text)) (emitted : Text) : Prop where
  columns : ∀ line ∈ tableLines emitted, splitPipes false line = [] :: (cellsOf line ++ [[]]) ∧
    (cellsOf line).length = columnsOf rows ∧ ∀ cell ∈ cellsOf line, '\n' ∉ cell ∧ '\r' ∉ cell
  count : (tableLines emitted).length = if columnsOf rows = 0 then 0 else rows.length + 1
  cells : 0 < columnsOf rows → ∀ i row, rows[i + 1]? = some row → ∃ line, (tableLines emitted)[i + 2]? = some line ∧
    ∀ column, column < columnsOf rows → ∃ content, (cellsOf line)[column]? = some (' ' :: (content ++ [' '])) ∧
      unescape content = plainCell stays (cellAt row column)

/-! ## Escaping -/

def escapeChar (c : Char) : Text := if c = '\\' then ['\\', '\\'] else if c = '|' then ['\\', '|'] else [c]

def escapeText (text : Text) : Text := text.flatMap escapeChar

theorem escapeText_cons (c : Char) (text : Text) : escapeText (c :: text) = escapeChar c ++ escapeText text := rfl

theorem replaceChar_escape (text : Text) :
    replaceChar '|' ['\\', '|'] (replaceChar '\\' ['\\', '\\'] text) = escapeText text := by
  unfold replaceChar escapeText
  rw [flatMap_assoc]
  refine congrArg (List.flatMap · text) (funext fun c => ?_)
  unfold escapeChar
  by_cases hback : c = '\\'
  · rw [if_pos hback, if_pos hback]
    rfl
  · rw [if_neg hback, if_neg hback, flatMap_singleton]

variable {c : Char}

theorem escapeChar_plain (hback : c ≠ '\\') (hpipe : c ≠ '|') : escapeChar c = [c] := by
  rw [escapeChar, if_neg hback, if_neg hpipe]

theorem escapeText_lineBreak (text : Text) : escapeText (lineBreak ++ text) = lineBreak ++ escapeText text := by
  unfold escapeText
  rw [flatMap_append]
  rfl

theorem unescape_escape (text : Text) : unescape (escapeText text) = text := by
  have hplain : ∀ c rest, c ≠ '\\' → unescape (c :: rest) = c :: unescape rest := by
    intro c rest hc
    cases rest with
    | nil => rfl
    | cons d rest =>
      have hunfold : unescape (c :: d :: rest) =
          if c = '\\' ∧ (d = '\\' ∨ d = '|') then d :: unescape rest else c :: unescape (d :: rest) := rfl
      rw [hunfold, if_neg fun h => hc h.1]
  induction text with
  | nil => rfl
  | cons c text ih =>
    rw [escapeText_cons, escapeChar]
    by_cases hback : c = '\\'
    · rw [if_pos hback, hback]
      show '\\' :: unescape (escapeText text) = _
      rw [ih]
    rw [if_neg hback]
    by_cases hpipe : c = '|'
    · rw [if_pos hpipe, hpipe]
      show '|' :: unescape (escapeText text) = _
      rw [ih]
    · rw [if_neg hpipe, singleton_append, hplain c _ hback, ih]

/-! ## Line breaks -/

theorem breakLines_pair (c d : Char) (rest : Text) : breakLines (c :: d :: rest) =
    if c = '\r' ∧ d = '\n' then lineBreak ++ breakLines rest else breakOf c ++ breakLines (d :: rest) := rfl

variable {text : Text}

theorem breakLines_cons (h : ¬ (c = '\r' ∧ text.head? = some '\n')) :
    breakLines (c :: text) = breakOf c ++ breakLines text := by
  cases text with
  | nil => exact (append_nil _).symm
  | cons d rest =>
    rw [breakLines_pair, if_neg]
    rintro ⟨hc, hd⟩
    exact h ⟨hc, congrArg some hd⟩

theorem replaceBreaks_crLf (text : Text) : replaceBreaks (replaceCrLf text) = breakLines text := by
  induction text using replaceCrLf.induct with
  | case1 => rfl
  | case2 c =>
    show breakOf c ++ [] = breakOf c
    exact append_nil _
  | case3 c d rest hpair ih =>
    have hunfold : replaceCrLf (c :: d :: rest) =
        if c = '\r' ∧ d = '\n' then lineBreak ++ replaceCrLf rest else c :: replaceCrLf (d :: rest) := rfl
    have hbreak : replaceBreaks lineBreak = lineBreak := rfl
    rw [hunfold, if_pos hpair, breakLines_pair, if_pos hpair, ← ih, replaceBreaks, flatMap_append]
    exact congrArg (· ++ _) hbreak
  | case4 c d rest hpair ih =>
    have hunfold : replaceCrLf (c :: d :: rest) =
        if c = '\r' ∧ d = '\n' then lineBreak ++ replaceCrLf rest else c :: replaceCrLf (d :: rest) := rfl
    rw [hunfold, if_neg hpair, breakLines_pair, if_neg hpair, ← ih]
    rfl

theorem escapeText_head (text : Text) : (escapeText text).head? = some '\n' ↔ text.head? = some '\n' := by
  cases text with
  | nil => rfl
  | cons c text =>
    rw [escapeText_cons, escapeChar]
    by_cases hback : c = '\\'
    · rw [if_pos hback, hback]
      simp
    by_cases hpipe : c = '|'
    · rw [if_neg hback, if_pos hpipe, hpipe]
      simp
    · rw [if_neg hback, if_neg hpipe]
      rfl

theorem breakLines_escape (text : Text) : breakLines (escapeText text) = escapeText (breakLines text) := by
  induction text using breakLines.induct with
  | case1 => rfl
  | case2 c =>
    rw [escapeText_cons]
    show breakLines (escapeChar c ++ []) = escapeText (breakOf c)
    rw [append_nil, escapeChar]
    by_cases hback : c = '\\'
    · rw [if_pos hback, hback]
      rfl
    by_cases hpipe : c = '|'
    · rw [if_neg hback, if_pos hpipe, hpipe]
      rfl
    rw [if_neg hback, if_neg hpipe]
    show breakOf c = escapeText (breakOf c)
    unfold breakOf
    by_cases hbreak : c = '\r' ∨ c = '\n'
    · rw [if_pos hbreak]
      rfl
    · rw [if_neg hbreak, escapeText_cons, escapeChar_plain hback hpipe]
      rfl
  | case3 c d rest hpair ih =>
    obtain ⟨rfl, rfl⟩ := hpair
    have hunfold : escapeText ('\r' :: '\n' :: rest) = '\r' :: '\n' :: escapeText rest := rfl
    rw [hunfold, breakLines_pair, if_pos ⟨rfl, rfl⟩, breakLines_pair, if_pos ⟨rfl, rfl⟩, ih, escapeText_lineBreak]
  | case4 c d rest hpair ih =>
    rw [breakLines_pair, if_neg hpair, escapeText_cons, escapeChar]
    have hhead : ¬ (c = '\r' ∧ (escapeText (d :: rest)).head? = some '\n') := by
      rw [escapeText_head]
      exact fun h => hpair ⟨h.1, Option.some.inj h.2⟩
    by_cases hback : c = '\\'
    · rw [if_pos hback, hback]
      have hfirst : breakLines ('\\' :: '\\' :: escapeText (d :: rest)) =
          '\\' :: '\\' :: breakLines (escapeText (d :: rest)) := by
        rw [breakLines_cons (by simp), breakLines_cons (by simp)]
        rfl
      exact hfirst.trans (by rw [ih]; rfl)
    · by_cases hpipe : c = '|'
      · rw [if_neg hback, if_pos hpipe, hpipe]
        have hfirst : breakLines ('\\' :: '|' :: escapeText (d :: rest)) =
            '\\' :: '|' :: breakLines (escapeText (d :: rest)) := by
          rw [breakLines_cons (by simp), breakLines_cons (by simp)]
          rfl
        exact hfirst.trans (by rw [ih]; rfl)
      · rw [if_neg hback, if_neg hpipe, singleton_append, breakLines_cons hhead, ih, breakOf]
        by_cases hbreak : c = '\r' ∨ c = '\n'
        · rw [if_pos hbreak, escapeText_lineBreak]
        · rw [if_neg hbreak, singleton_append, singleton_append, escapeText_cons, escapeChar_plain hback hpipe]
          rfl

theorem breakLines_no_break (text : Text) : '\n' ∉ breakLines text ∧ '\r' ∉ breakLines text := by
  have hof : ∀ c, '\n' ∉ breakOf c ∧ '\r' ∉ breakOf c := by
    intro c
    unfold breakOf
    by_cases hbreak : c = '\r' ∨ c = '\n'
    · rw [if_pos hbreak]
      decide
    · rw [if_neg hbreak]
      rw [not_or] at hbreak
      exact ⟨fun h => hbreak.2 (mem_singleton.mp h).symm, fun h => hbreak.1 (mem_singleton.mp h).symm⟩
  induction text using breakLines.induct with
  | case1 => exact ⟨not_mem_nil, not_mem_nil⟩
  | case2 c => exact hof c
  | case3 c d rest hpair ih =>
    rw [breakLines_pair, if_pos hpair, mem_append, mem_append, not_or, not_or]
    exact ⟨⟨by decide, ih.1⟩, by decide, ih.2⟩
  | case4 c d rest hpair ih =>
    rw [breakLines_pair, if_neg hpair, mem_append, mem_append, not_or, not_or]
    exact ⟨⟨(hof c).1, ih.1⟩, (hof c).2, ih.2⟩

/-! ## Trimming -/

theorem trimStart_flatMap {f : Char → Text} (hblank : ∀ c, isWhiteSpace c = true → f c = [c])
    (hplain : ∀ c, isWhiteSpace c = false → ∃ d rest, f c = d :: rest ∧ isWhiteSpace d = false) (text : Text) :
    trimStart (text.flatMap f) = (trimStart text).flatMap f := by
  induction text with
  | nil => rfl
  | cons c text ih =>
    unfold trimStart at ih ⊢
    rw [flatMap_cons]
    cases hc : isWhiteSpace c with
    | true =>
      rw [hblank c hc, singleton_append, dropWhile_cons_of_pos hc, dropWhile_cons_of_pos hc, ih]
    | false =>
      obtain ⟨d, rest, hd, hwhite⟩ := hplain c hc
      rw [dropWhile_cons_of_neg (by simp [hc]), flatMap_cons, hd, cons_append,
        dropWhile_cons_of_neg (by simp [hwhite])]

theorem trim_escape (text : Text) : trim (escapeText text) = escapeText (trim text) := by
  have hblank : ∀ c, isWhiteSpace c = true → escapeChar c = [c] := by
    intro c hc
    refine escapeChar_plain ?_ ?_
    · rintro rfl
      cases hc
    · rintro rfl
      cases hc
  have hforward := trimStart_flatMap hblank (fun c hc => by
    unfold escapeChar
    by_cases hback : c = '\\'
    · exact ⟨'\\', ['\\'], if_pos hback, rfl⟩
    · by_cases hpipe : c = '|'
      · exact ⟨'\\', ['|'], by rw [if_neg hback, if_pos hpipe], rfl⟩
      · exact ⟨c, [], by rw [if_neg hback, if_neg hpipe], hc⟩)
  have hbackward := trimStart_flatMap (f := fun c => (escapeChar c).reverse)
    (fun c hc => by rw [hblank c hc]; rfl) (fun c hc => by
    unfold escapeChar
    by_cases hback : c = '\\'
    · exact ⟨'\\', ['\\'], by rw [if_pos hback]; rfl, rfl⟩
    · by_cases hpipe : c = '|'
      · exact ⟨'|', ['\\'], by rw [if_neg hback, if_pos hpipe]; rfl, rfl⟩
      · exact ⟨c, [], by rw [if_neg hback, if_neg hpipe]; rfl, hc⟩)
  have hreverse : ∀ s : Text, (s.flatMap escapeChar).reverse = s.reverse.flatMap fun c => (escapeChar c).reverse :=
    fun s => reverse_flatMap
  have hreverse' : ∀ s : Text, (s.flatMap fun c => (escapeChar c).reverse).reverse = s.reverse.flatMap escapeChar := by
    intro s
    rw [reverse_flatMap]
    exact congrArg (List.flatMap · s.reverse) (funext fun c => reverse_reverse _)
  unfold trim escapeText
  rw [hforward, hreverse, hbackward, hreverse']

theorem mem_trim (h : c ∈ trim text) : c ∈ text := by
  have hstart : ∀ s : Text, c ∈ trimStart s → c ∈ s := fun s hs => (dropWhile_sublist _).mem hs
  have hbehind := hstart _ (mem_reverse.mp h)
  exact hstart text (mem_reverse.mp hbehind)

/-! ## Cells -/

theorem escapeCell_eq (value : Text) : escapeCell value = escapeText (plainCell keepsInCell value) := by
  unfold escapeCell plainCell
  rw [replaceChar_escape, replaceBreaks_crLf, breakLines_escape, trim_escape]

theorem plainCell_no_break (stays : Char → Bool) (value : Text) :
    '\n' ∉ plainCell stays value ∧ '\r' ∉ plainCell stays value :=
  ⟨fun h => (breakLines_no_break _).1 (mem_trim h), fun h => (breakLines_no_break _).2 (mem_trim h)⟩

theorem mem_escapeText (h : c ∈ escapeText text) : c = '\\' ∨ c ∈ text := by
  obtain ⟨d, hd, hc⟩ := mem_flatMap.mp h
  unfold escapeChar at hc
  by_cases hback : d = '\\'
  · rw [if_pos hback] at hc
    exact Or.inl (by simpa using hc)
  by_cases hpipe : d = '|'
  · rw [if_neg hback, if_pos hpipe] at hc
    rcases mem_cons.mp hc with rfl | hc
    · exact Or.inl rfl
    · exact Or.inr (by rw [mem_singleton.mp hc, ← hpipe]; exact hd)
  · rw [if_neg hback, if_neg hpipe] at hc
    exact Or.inr (by rw [mem_singleton.mp hc]; exact hd)

/-- What stands in a cell of a line: it has no line break, and no pipe in it, nor the one behind its blank, is taken for
the end of another. -/
structure Contained (cell : Text) : Prop where
  newline : '\n' ∉ cell
  carriage : '\r' ∉ cell
  cut : ∀ behind rest, splitPipes behind (cell ++ ' ' :: '|' :: rest) = (cell ++ [' ']) :: splitPipes false rest

variable {cells : List Text}

theorem splitPipes_cons {behind : Bool} {rest cell : Text}
    (h : ¬ (c = '|' ∧ behind = false)) (hrest : splitPipes (c == '\\') rest = cell :: cells) :
    splitPipes behind (c :: rest) = (c :: cell) :: cells := by
  have hunfold : splitPipes behind (c :: rest) = if c = '|' ∧ behind = false then [] :: splitPipes false rest
      else match splitPipes (c == '\\') rest with
        | [] => [[c]]
        | cell :: cells => (c :: cell) :: cells := rfl
  rw [hunfold, if_neg h, hrest]

theorem splitPipes_pipe (rest : Text) : splitPipes false ('|' :: rest) = [] :: splitPipes false rest := rfl

theorem splitPipes_blank (behind : Bool) (rest : Text) :
    splitPipes behind (' ' :: '|' :: rest) = [' '] :: splitPipes false rest :=
  splitPipes_cons (by simp) (splitPipes_pipe rest)

theorem splitPipes_escape (text : Text) (behind : Bool) (rest : Text) :
    splitPipes behind (escapeText text ++ ' ' :: '|' :: rest) = (escapeText text ++ [' ']) :: splitPipes false rest := by
  induction text generalizing behind with
  | nil => exact splitPipes_blank behind rest
  | cons c text ih =>
    rw [escapeText_cons, append_assoc, escapeChar]
    by_cases hback : c = '\\'
    · rw [if_pos hback]
      exact splitPipes_cons (by simp) (splitPipes_cons (by simp) (ih _))
    by_cases hpipe : c = '|'
    · rw [if_neg hback, if_pos hpipe]
      exact splitPipes_cons (by simp) (splitPipes_cons (by simp) (ih _))
    · rw [if_neg hback, if_neg hpipe]
      exact splitPipes_cons (fun h => hpipe h.1) (ih _)

theorem contained_escape (h : '\n' ∉ text ∧ '\r' ∉ text) : Contained (escapeText text) := by
  refine ⟨fun hmem => ?_, fun hmem => ?_, splitPipes_escape text⟩
  · rcases mem_escapeText hmem with heq | hmem
    · cases heq
    · exact h.1 hmem
  · rcases mem_escapeText hmem with heq | hmem
    · cases heq
    · exact h.2 hmem

theorem contained_plain {cell : Text} (h : ∀ c ∈ cell, c ≠ '\\' ∧ c ≠ '|' ∧ c ≠ '\n' ∧ c ≠ '\r') : Contained cell := by
  have hsame : escapeText cell = cell := by
    induction cell with
    | nil => rfl
    | cons c cell ih =>
      rw [forall_mem_cons] at h
      rw [escapeText_cons, escapeChar_plain h.1.1 h.1.2.1, ih h.2, singleton_append]
  rw [← hsame]
  exact contained_escape ⟨fun hmem => (h _ hmem).2.2.1 rfl, fun hmem => (h _ hmem).2.2.2 rfl⟩

theorem contained_escapeCell (value : Text) : Contained (escapeCell value) := by
  rw [escapeCell_eq]
  exact contained_escape (plainCell_no_break _ _)

theorem contained_header (header : List Text) (column : Nat) : Contained (headerCell header column) := by
  unfold headerCell
  by_cases hempty : trim (cellAt header column) = []
  · rw [if_pos hempty]
    refine contained_plain fun c hc => ?_
    rcases mem_append.mp hc with hc | hc
    · have hall : "Column ".toList.all (fun c => c != '\\' && c != '|' && c != '\n' && c != '\r') = true := rfl
      simpa [and_assoc] using all_eq_true.mp hall c hc
    have hdigit := Nat.isDigit_of_mem_toDigits (by decide) (by decide) hc
    refine ⟨?_, ?_, ?_, ?_⟩ <;>
    · rintro rfl
      cases hdigit
  · rw [if_neg hempty]
    exact contained_escapeCell _

/-! ## Lines -/

def padded (cell : Text) : Text := ' ' :: (cell ++ [' '])

def rowLine (cells : List Text) : Text := '|' :: ' ' :: ([' ', '|', ' '].intercalate cells ++ [' ', '|'])

theorem tableRow_eq (cells : List Text) (rest : Text) : tableRow cells ++ rest = rowLine cells ++ '\n' :: rest := by
  have hhead : "| ".toList = ['|', ' '] := rfl
  have hlast : " |\n".toList = [' ', '|', '\n'] := rfl
  have hmiddle : " | ".toList = [' ', '|', ' '] := rfl
  rw [tableRow, rowLine, hhead, hlast, hmiddle]
  simp

theorem splitPipes_cells (hne : cells ≠ []) (h : ∀ cell ∈ cells, Contained cell) :
    splitPipes false (' ' :: ([' ', '|', ' '].intercalate cells ++ [' ', '|'])) = cells.map padded ++ [[]] := by
  induction cells with
  | nil => exact absurd rfl hne
  | cons cell cells ih =>
    rw [forall_mem_cons] at h
    cases cells with
    | nil =>
      have hline : [' ', '|', ' '].intercalate [cell] ++ [' ', '|'] = cell ++ ' ' :: '|' :: [] := by
        rw [intercalate_singleton]
      rw [hline]
      exact splitPipes_cons (by simp) (h.1.cut _ [])
    | cons next cells =>
      have hline : [' ', '|', ' '].intercalate (cell :: next :: cells) ++ [' ', '|'] =
          cell ++ ' ' :: '|' :: (' ' :: ([' ', '|', ' '].intercalate (next :: cells) ++ [' ', '|'])) := by
        rw [intercalate_cons_cons]
        simp
      have hrest := ih (cons_ne_nil _ _) h.2
      rw [hline]
      refine splitPipes_cons (by simp) ?_
      rw [h.1.cut, hrest]
      rfl

theorem splitPipes_row (hne : cells ≠ []) (h : ∀ cell ∈ cells, Contained cell) :
    splitPipes false (rowLine cells) = [] :: (cells.map padded ++ [[]]) := by
  rw [rowLine, splitPipes_pipe, splitPipes_cells hne h]

theorem cellsOf_row (hne : cells ≠ []) (h : ∀ cell ∈ cells, Contained cell) :
    cellsOf (rowLine cells) = cells.map padded := by
  rw [cellsOf, splitPipes_row hne h]
  simp

theorem rowLine_no_newline (h : ∀ cell ∈ cells, Contained cell) : '\n' ∉ rowLine cells := by
  have hcells : '\n' ∉ [' ', '|', ' '].intercalate cells := by
    induction cells with
    | nil => simp
    | cons cell cells ih =>
      rw [forall_mem_cons] at h
      cases cells with
      | nil =>
        rw [intercalate_singleton]
        exact h.1.newline
      | cons next cells =>
        rw [intercalate_cons_cons, mem_append, mem_append, not_or, not_or]
        exact ⟨⟨h.1.newline, by decide⟩, ih h.2⟩
  unfold rowLine
  simp [hcells]

theorem tableLines_line {line : Text} (h : '\n' ∉ line) (rest : Text) : tableLines (line ++ '\n' :: rest) =
    (if line.head? = some '|' then [line] else []) ++ tableLines rest := by
  rw [tableLines, splitOn_append_cons_self_of_not_mem h, filter_cons]
  by_cases hpipe : line.head? = some '|'
  · rw [if_pos hpipe, if_pos (by simp [hpipe])]
    rfl
  · rw [if_neg hpipe, if_neg (by simp [hpipe])]
    rfl

theorem tableLines_rows {table : List (List Text)} (h : ∀ cells ∈ table, ∀ cell ∈ cells, Contained cell) :
    tableLines (table.flatMap tableRow) = table.map rowLine := by
  induction table with
  | nil => rfl
  | cons cells table ih =>
    rw [forall_mem_cons] at h
    rw [flatMap_cons, tableRow_eq, tableLines_line (rowLine_no_newline h.1), ih h.2]
    rfl

/-! ## The sheet -/

def tableOf (columns : Nat) (header : List Text) (rows : List (List Text)) : List (List Text) :=
  (List.range columns).map (headerCell header) :: List.replicate columns "---".toList ::
    rows.map fun row => (List.range columns).map fun column => escapeCell (cellAt row column)

theorem tableOf_contained {columns : Nat} {header : List Text} {rows : List (List Text)} :
    ∀ cells ∈ tableOf columns header rows, (∀ cell ∈ cells, Contained cell) ∧ cells.length = columns := by
  intro cells hcells
  rcases mem_cons.mp hcells with rfl | hcells
  · refine ⟨fun cell hcell => ?_, by simp⟩
    obtain ⟨column, -, rfl⟩ := mem_map.mp hcell
    exact contained_header header column
  rcases mem_cons.mp hcells with rfl | hcells
  · refine ⟨fun cell hcell => ?_, by simp⟩
    rw [(mem_replicate.mp hcell).2]
    refine contained_plain fun c hc => ?_
    have hall : "---".toList.all (fun c => c != '\\' && c != '|' && c != '\n' && c != '\r') = true := rfl
    simpa [and_assoc] using all_eq_true.mp hall c hc
  · obtain ⟨row, -, rfl⟩ := mem_map.mp hcells
    refine ⟨fun cell hcell => ?_, by simp⟩
    obtain ⟨column, -, rfl⟩ := mem_map.mp hcell
    exact contained_escapeCell _

variable {output : Text}

theorem pushBounded_ok {value pushed : Text} {maxUnits : Nat} (h : pushBounded output value maxUnits = .ok pushed) :
    pushed = output ++ value := by
  unfold pushBounded at h
  by_cases hlong : saturate (maxUnits * 4) < saturate (Json.utf8Bytes output + Json.utf8Bytes value)
  · rw [if_pos hlong] at h
    cases h
  · rw [if_neg hlong] at h
    exact (Except.ok.inj h).symm

theorem pushRows_ok {α : Type} {values : List α} {f : α → Text} {pushed : Text} (maxUnits : Nat)
    (h : values.foldlM (fun output value => pushBounded output (f value) maxUnits) output = .ok pushed) :
    pushed = output ++ values.flatMap f := by
  induction values generalizing output with
  | nil =>
    rw [flatMap_nil, append_nil]
    exact (Except.ok.inj h).symm
  | cons value values ih =>
    rw [foldlM_cons] at h
    obtain ⟨next, hnext, hrest⟩ := bind_ok h
    rw [ih hrest, pushBounded_ok hnext, flatMap_cons, append_assoc]

theorem renderSheet_ok {name result : Text} {rows : List (List Text)} {maxUnits : Nat}
    (hcolumns : columnsOf rows ≠ 0) (h : renderSheet output name rows maxUnits = .ok result) :
    ∃ gap header rest, (gap = [] ∨ gap = "\n\n".toList) ∧ rows = header :: rest ∧
      result = output ++ (gap ++ ("## ".toList ++ normalizeHeading name ++ "\n\n".toList ++
        (tableOf (columnsOf rows) header rest).flatMap tableRow)) := by
  unfold renderSheet at h
  rw [if_neg hcolumns] at h
  obtain ⟨opened, hopened, h⟩ := bind_ok h
  obtain ⟨headed, hheaded, h⟩ := bind_ok h
  obtain ⟨header, hheader, h⟩ := bind_ok h
  obtain ⟨first, hfirst, h⟩ := bind_ok h
  obtain ⟨second, hsecond, hlast⟩ := bind_ok h
  have hgap : ∃ gap, (gap = [] ∨ gap = "\n\n".toList) ∧ opened = output ++ gap := by
    unfold pushGap at hopened
    by_cases hempty : output.isEmpty
    · rw [if_pos hempty] at hopened
      exact ⟨[], Or.inl rfl, by rw [append_nil]; exact (Except.ok.inj hopened).symm⟩
    · rw [if_neg hempty] at hopened
      exact ⟨_, Or.inr rfl, pushBounded_ok hopened⟩
  obtain ⟨gap, hgap, rfl⟩ := hgap
  have hrows : result = second ++ rows.tail.flatMap fun row =>
      tableRow ((List.range (columnsOf rows)).map fun column => escapeCell (cellAt row column)) := by
    exact pushRows_ok maxUnits hlast
  obtain ⟨rest, hrest⟩ : ∃ rest, rows = header :: rest := head?_eq_some_iff.mp (found_ok hheader)
  have htail : rows.tail = rest := by rw [hrest]; rfl
  refine ⟨gap, header, rest, hgap, hrest, ?_⟩
  rw [hrows, pushBounded_ok hsecond, pushBounded_ok hfirst, pushBounded_ok hheaded, htail, tableOf, flatMap_cons, flatMap_cons, flatMap_map]
  simp only [append_assoc]

theorem heading_no_newline (name : Text) : '\n' ∉ "## ".toList ++ normalizeHeading name := by
  rw [mem_append, not_or]
  refine ⟨by decide, fun hmem => ?_⟩
  have hinner := (dropWhile_sublist _).mem (mem_trim hmem)
  have hstays := (mem_filter.mp (mem_of_mem_take (mem_trim hinner))).2
  cases hstays

theorem head_mark (name : Text) : ("## ".toList ++ normalizeHeading name).head? ≠ some '|' := by
  have hhead : "## ".toList = ['#', '#', ' '] := rfl
  rw [hhead]
  simp

theorem tableLines_sheet {gap : Text} (hgap : gap = [] ∨ gap = "\n\n".toList) (name : Text) (table : List (List Text))
    (h : ∀ cells ∈ table, ∀ cell ∈ cells, Contained cell) :
    tableLines (gap ++ ("## ".toList ++ normalizeHeading name ++ "\n\n".toList ++ table.flatMap tableRow)) =
      table.map rowLine := by
  have hempty : ∀ rest, tableLines ('\n' :: rest) = tableLines rest := fun rest =>
    @tableLines_line [] not_mem_nil rest
  have hbreaks : "\n\n".toList = ['\n', '\n'] := rfl
  have hheading : tableLines ("## ".toList ++ normalizeHeading name ++ "\n\n".toList ++ table.flatMap tableRow) =
      table.map rowLine := by
    rw [hbreaks, append_assoc, cons_append, tableLines_line (heading_no_newline name), if_neg (head_mark name),
      singleton_append, hempty, tableLines_rows h]
    rfl
  rcases hgap with rfl | rfl
  · exact hheading
  · rw [hbreaks, cons_append, singleton_append, hempty, hempty]
    exact hheading

theorem tableLines_nil : tableLines [] = [] := rfl

/-- Every sheet that is rendered is a table of its strings. -/
theorem renderSheet_tabulated {output name result : Text} {rows : List (List Text)} {maxUnits : Nat}
    (h : renderSheet output name rows maxUnits = .ok result) :
    ∃ emitted, result = output ++ emitted ∧ Tabulated keepsInCell rows emitted := by
  by_cases hcolumns : columnsOf rows = 0
  · rw [renderSheet, if_pos hcolumns] at h
    refine ⟨[], by rw [append_nil]; exact (Except.ok.inj h).symm, ?_, ?_, ?_⟩
    · rw [tableLines_nil]
      exact fun line hline => by cases hline
    · rw [if_pos hcolumns]
      rfl
    · exact fun hpos => absurd hcolumns (Nat.ne_of_gt hpos)
  · obtain ⟨gap, header, rest, hgap, hrows, rfl⟩ := renderSheet_ok hcolumns h
    refine ⟨_, rfl, ?_⟩
    have hlines := tableLines_sheet hgap name (tableOf (columnsOf rows) header rest)
      (fun cells hcells => (tableOf_contained cells hcells).1)
    have hfilled : ∀ cells ∈ tableOf (columnsOf rows) header rest, cells ≠ [] := by
      intro cells hcells hnil
      have hlength := (tableOf_contained cells hcells).2
      rw [hnil] at hlength
      exact hcolumns hlength.symm
    refine ⟨fun line hline => ?_, ?_, fun _ i row hrow => ?_⟩
    · rw [hlines] at hline
      obtain ⟨cells, hcells, rfl⟩ := mem_map.mp hline
      obtain ⟨hcontained, hlength⟩ := tableOf_contained cells hcells
      rw [splitPipes_row (hfilled cells hcells) hcontained, cellsOf_row (hfilled cells hcells) hcontained]
      refine ⟨rfl, by rw [length_map, hlength], fun cell hcell => ?_⟩
      obtain ⟨content, hcontent, rfl⟩ := mem_map.mp hcell
      have hin := hcontained content hcontent
      unfold padded
      simp [hin.newline, hin.carriage]
    · rw [hlines, if_neg hcolumns, length_map, tableOf, hrows]
      simp
    · rw [hrows, getElem?_cons_succ] at hrow
      have hline : (tableOf (columnsOf rows) header rest)[i + 2]? =
          some ((List.range (columnsOf rows)).map fun column => escapeCell (cellAt row column)) := by
        rw [tableOf, getElem?_cons_succ, getElem?_cons_succ, getElem?_map, hrow]
        rfl
      have hmem := mem_of_getElem? hline
      refine ⟨rowLine _, by rw [hlines, getElem?_map, hline]; rfl, fun column hcolumn => ?_⟩
      refine ⟨escapeCell (cellAt row column), ?_, by rw [escapeCell_eq, unescape_escape]⟩
      rw [cellsOf_row (hfilled _ hmem) (tableOf_contained _ hmem).1, getElem?_map, getElem?_map,
        getElem?_range hcolumn]
      rfl

def namedRows : List (List Text) := [["Name".toList, "Amount".toList], ["A | B".toList, "first\nsecond".toList]]

theorem table_of_names : ∃ result, renderSheet [] "Sheet #1".toList namedRows 10000 = .ok result ∧
    ∃ emitted, result = [] ++ emitted ∧ Tabulated keepsInCell namedRows emitted :=
  have hok : renderSheet [] "Sheet #1".toList namedRows 10000 =
      .ok "## Sheet #1\n\n| Name | Amount |\n| --- | --- |\n| A \\| B | first<br>second |\n".toList := by decide +kernel
  ⟨_, hok, renderSheet_tabulated hok⟩

def keepsBreaks (c : Char) : Bool := !isControl c || c == '\n' || c == '\r'

/-- A tab is a control character, and stays. -/
theorem tab_stays : ¬ ∀ output name rows maxUnits result, renderSheet output name rows maxUnits = .ok result →
    ∃ emitted, result = output ++ emitted ∧ Tabulated keepsBreaks rows emitted := by
  intro h
  have hok : renderSheet [] "S".toList [["N".toList], ["a\tb".toList]] 100 =
      .ok "## S\n\n| N |\n| --- |\n| a\tb |\n".toList := by decide +kernel
  obtain ⟨emitted, hemitted, htable⟩ := h _ _ _ _ _ hok
  obtain rfl := hemitted
  obtain ⟨line, hline, hcells⟩ := htable.cells (by decide) 0 ["a\tb".toList] rfl
  have hlines : tableLines "## S\n\n| N |\n| --- |\n| a\tb |\n".toList =
      ["| N |".toList, "| --- |".toList, "| a\tb |".toList] := by decide +kernel
  rw [hlines] at hline
  cases hline
  obtain ⟨content, hcontent, hread⟩ := hcells 0 (by decide)
  have hcell : (cellsOf "| a\tb |".toList)[0]? = some (' ' :: ("a\tb".toList ++ [' '])) := by decide +kernel
  rw [hcell] at hcontent
  have hsame := append_cancel_right (List.cons.inj (Option.some.inj hcontent)).2
  rw [← hsame] at hread
  exact absurd hread (by decide +kernel)

end Marks.Imports
