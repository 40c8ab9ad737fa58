import Marks.PipeTables
import Mathlib.Data.List.Induction
import Mathlib.Data.List.TakeWhile

/-! # Rows and columns

What the commands append to a line is a cell of its own only behind an outer pipe. The lines they find are those around
the cursor that start with a pipe. -/

namespace Marks.PipeTables

open JsString List

/-! ## Splitting a row -/

variable {text : JsString}

section
variable {escaped : Bool} {c : UInt16} {body rest first row : JsString} {more : List JsString}

theorem splitCells_cons (escaped : Bool) (c : UInt16) (rest : JsString) : splitCells escaped (c :: rest) =
    if c = 124 ∧ escaped = false then [] :: splitCells false rest
    else
      match splitCells (c == 92) rest with
      | [] => [[c]]
      | piece :: more => (c :: piece) :: more := rfl

theorem splitCells_ne_nil (escaped : Bool) (text : JsString) : splitCells escaped text ≠ [] := by
  cases text with
  | nil => simp [splitCells]
  | cons c rest =>
    rw [splitCells_cons]
    by_cases hpipe : c = 124 ∧ escaped = false
    · rw [if_pos hpipe]
      simp
    · rw [if_neg hpipe]
      cases splitCells (c == 92) rest <;> simp

theorem splitCells_pipe (rest : JsString) : splitCells false (124 :: rest) = [] :: splitCells false rest := if_pos ⟨rfl, rfl⟩

theorem splitCells_inside (h : ¬ (c = 124 ∧ escaped = false)) :
    ∃ piece more, splitCells (c == 92) rest = piece :: more ∧ splitCells escaped (c :: rest) = (c :: piece) :: more := by
  cases hsplit : splitCells (c == 92) rest with
  | nil => exact absurd hsplit (splitCells_ne_nil _ _)
  | cons piece more =>
    refine ⟨piece, more, rfl, ?_⟩
    rw [splitCells_cons, if_neg h, hsplit]

theorem splitCells_append (h : ∀ escaped, splitCells escaped rest = first :: more) :
    splitCells escaped (body ++ rest) =
      (splitCells escaped body).dropLast ++ ((splitCells escaped body).getLast?.getD [] ++ first) :: more := by
  induction body generalizing escaped with
  | nil => rw [nil_append, h]; rfl
  | cons c body ih =>
    rw [cons_append]
    by_cases hpipe : c = 124 ∧ escaped = false
    · obtain ⟨rfl, rfl⟩ := hpipe
      obtain ⟨piece, pieces, hpieces⟩ := exists_cons_of_ne_nil (splitCells_ne_nil false body)
      rw [splitCells_pipe, splitCells_pipe, ih, hpieces]
      rfl
    · obtain ⟨piece, pieces, hbody, hcons⟩ := @splitCells_inside escaped c body hpipe
      obtain ⟨piece', pieces', hbody', hcons'⟩ := @splitCells_inside escaped c (body ++ rest) hpipe
      rw [ih, hbody] at hbody'
      rw [hcons, hcons']
      cases pieces with
      | nil =>
        cases hbody'
        rfl
      | cons next pieces =>
        cases hbody'
        simp

def escapedPipes : Bool → JsString → Nat
  | _, [] => 0
  | escaped, c :: rest => (if c = 124 ∧ escaped = true then 1 else 0) + escapedPipes (c == 92) rest

theorem count_pipes (escaped : Bool) (text : JsString) :
    text.count 124 + 1 = (splitCells escaped text).length + escapedPipes escaped text := by
  induction text generalizing escaped with
  | nil => rfl
  | cons c rest ih =>
    have hunfold : escapedPipes escaped (c :: rest) =
        (if c = 124 ∧ escaped = true then 1 else 0) + escapedPipes (c == 92) rest := rfl
    have hrest := ih (c == 92)
    rw [hunfold, count_cons]
    by_cases hpipe : c = 124
    · subst hpipe
      rw [if_pos (beq_self_eq_true _)]
      cases escaped with
      | false =>
        have hnot : ((124 : UInt16) == 92) = false := by decide
        rw [hnot] at hrest ⊢
        rw [splitCells_pipe, if_neg (by simp), length_cons]
        omega
      | true =>
        obtain ⟨piece, more, hsplit, hcons⟩ := @splitCells_inside true 124 rest (by simp)
        rw [hcons, if_pos ⟨rfl, rfl⟩, length_cons]
        rw [hsplit, length_cons] at hrest
        omega
    · obtain ⟨piece, more, hsplit, hcons⟩ := @splitCells_inside escaped c rest (fun h => hpipe h.1)
      rw [hcons, if_neg (by simpa using hpipe), if_neg (fun h => hpipe h.1), length_cons]
      rw [hsplit, length_cons] at hrest
      omega

theorem splitOn_length (text : JsString) : (text.splitOn 124).length = text.count 124 + 1 := by
  induction text with
  | nil => rfl
  | cons c rest ih =>
    rw [splitOn_cons_eq_if_modifyHead, count_cons]
    by_cases hpipe : (c == 124) = true
    · rw [if_pos hpipe, if_pos hpipe, length_cons, ih]
    · rw [if_neg hpipe, if_neg hpipe, length_modifyHead, ih]

/-! ## Lines of a table -/

theorem afterPipe_eq (h : isTableLine row = true) : row.dropWhile isSpace = 124 :: afterPipe row := by
  unfold isTableLine at h
  unfold afterPipe
  cases hrow : row.dropWhile isSpace with
  | nil =>
    rw [hrow] at h
    cases h
  | cons c rest =>
    rw [hrow] at h
    have hc : c = 124 := by simpa using h
    rw [hc]
    rfl

theorem row_eq (h : isTableLine row = true) : row = row.takeWhile isSpace ++ 124 :: afterPipe row := by
  rw [← afterPipe_eq h, takeWhile_append_dropWhile]

theorem row_ne_nil (h : isTableLine row = true) : row ≠ [] := by
  intro hnil
  rw [hnil] at h
  cases h

theorem tableLine_append (h : isTableLine row = true) (text : JsString) :
    isTableLine (row ++ text) = true ∧ afterPipe (row ++ text) = afterPipe row ++ text := by
  have hdrop : (row ++ text).dropWhile isSpace = 124 :: (afterPipe row ++ text) := by
    have hne : row.dropWhile isSpace ≠ [] := by
      rw [afterPipe_eq h]
      simp
    rw [dropWhile_append, if_neg (by simpa using hne), afterPipe_eq h, cons_append]
  constructor
  · unfold isTableLine
    rw [hdrop]
    rfl
  · unfold afterPipe
    rw [hdrop, afterPipe_eq h]
    rfl

theorem cells_closed (h : isClosed row = true) : cellsOf row = ((splitCells false (afterPipe row)).dropLast).map trim := by
  unfold cellsOf
  dsimp only
  rw [h, if_pos rfl]

theorem cells_open (h : isClosed row = false) : cellsOf row = (splitCells false (afterPipe row)).map trim := by
  unfold cellsOf
  dsimp only
  rw [h, if_neg Bool.false_ne_true]

theorem pieces_length (row : JsString) : (splitCells false (afterPipe row)).length =
    (cellsOf row).length + if isClosed row then 1 else 0 := by
  have hpos := length_pos_iff.mpr (splitCells_ne_nil false (afterPipe row))
  cases hclosed : isClosed row with
  | true =>
    rw [cells_closed hclosed, if_pos rfl, length_map, length_dropLast]
    omega
  | false => rw [cells_open hclosed, if_neg Bool.false_ne_true, length_map, Nat.add_zero]

theorem pipes_of_row (h : isTableLine row = true) : (row.splitOn 124).length =
    1 + (cellsOf row).length + (if isClosed row then 1 else 0) + escapedPipes false (afterPipe row) := by
  have hcount := count_pipes false (afterPipe row)
  have hspaces : (row.takeWhile isSpace).count 124 = 0 := by
    rw [count_eq_zero]
    intro hm
    have hspace := mem_takeWhile_imp hm
    cases hspace
  rw [pieces_length] at hcount
  rw [splitOn_length]
  conv_lhs => rw [row_eq h]
  rw [count_append, hspaces, count_cons_self]
  omega

/-! ## A cell behind a row -/

structure Closing (text content : JsString) : Prop where
  split : ∀ escaped, splitCells escaped text = [32 :: (content ++ [32]), []]
  word : content.all (fun c => !isSpace c) = true
  some_ : content ≠ []

variable {content : JsString}

theorem trim_word {last : JsString} (hlast : last.all isSpace = true)
    (hword : content.all (fun c => !isSpace c) = true) (hne : content ≠ []) : trim (last ++ 32 :: (content ++ [32])) = content := by
  have hfirst : ∀ text : JsString, text ≠ [] → text.all (fun c => !isSpace c) = true → ∀ behind,
      (text ++ behind).dropWhile isSpace = text ++ behind := by
    intro text htext hall behind
    cases text with
    | nil => exact absurd rfl htext
    | cons c text =>
      have hc := (Bool.and_eq_true _ _ ▸ hall : _ ∧ _).1
      rw [cons_append, dropWhile_cons_of_neg (by simpa using hc)]
  have hdrop : (last ++ 32 :: (content ++ [32])).dropWhile isSpace = content ++ [32] := by
    rw [dropWhile_append_of_pos fun c hc => all_eq_true.mp hlast c hc, dropWhile_cons_of_pos (by decide)]
    exact hfirst content hne hword [32]
  unfold trim
  rw [hdrop, reverse_append]
  have hback := hfirst content.reverse (by simpa using hne) (by rw [all_reverse]; exact hword) []
  rw [append_nil] at hback
  show ((32 :: content.reverse).dropWhile isSpace).reverse = content
  rw [dropWhile_cons_of_pos (by decide), hback, reverse_reverse]

theorem cellsOf_append (h : isTableLine row = true) (htext : Closing text content) :
    isClosed (row ++ text) = true ∧ cellsOf (row ++ text) =
      ((splitCells false (afterPipe row)).dropLast ++
        [(splitCells false (afterPipe row)).getLast?.getD [] ++ 32 :: (content ++ [32])]).map trim := by
  have hsplit : splitCells false (afterPipe (row ++ text)) = ((splitCells false (afterPipe row)).dropLast ++
      [(splitCells false (afterPipe row)).getLast?.getD [] ++ 32 :: (content ++ [32])]) ++ [[]] := by
    rw [(tableLine_append h text).2, splitCells_append htext.split, append_assoc]
    rfl
  have hclosed : isClosed (row ++ text) = true := by
    unfold isClosed
    rw [hsplit, getLast?_concat]
    rfl
  refine ⟨hclosed, ?_⟩
  rw [cells_closed hclosed, hsplit, dropLast_concat]

theorem cell_added (h : isTableLine row = true) (htext : Closing text content) :
    (isClosed row = true → cellsOf (row ++ text) = cellsOf row ++ [content]) ∧
      (isClosed row = false → (cellsOf (row ++ text)).length = (cellsOf row).length) := by
  have hpos := length_pos_iff.mpr (splitCells_ne_nil false (afterPipe row))
  rw [(cellsOf_append h htext).2]
  constructor
  · intro hclosed
    have hlast : ((splitCells false (afterPipe row)).getLast?.getD []).all isSpace = true := hclosed
    rw [cells_closed hclosed, map_append, map_cons, map_nil, trim_word hlast htext.word htext.some_]
  intro hopen
  rw [cells_open hopen, length_map, length_map, length_append, length_dropLast,
    length_singleton]
  omega

theorem closing_cell : Closing (ofString " Cell |") (ofString "Cell") := by
  refine ⟨fun escaped => ?_, by decide, by decide⟩
  have hsame : splitCells escaped (ofString " Cell |") = splitCells false (ofString " Cell |") := by
    cases escaped
    · rfl
    · decide
  rw [hsame]
  decide

theorem closing_dashes : Closing (ofString " --- |") (ofString "---") := by
  refine ⟨fun escaped => ?_, by decide, by decide⟩
  have hsame : splitCells escaped (ofString " --- |") = splitCells false (ofString " --- |") := by
    cases escaped
    · rfl
    · decide
  rw [hsame]
  decide

end

/-! ## New rows -/

section
variable {row : JsString}

theorem cellRow_cons (m : Nat) : (32 : UInt16) :: (List.intercalate (ofString " | ") (List.replicate (m + 2) (ofString "Cell")) ++
    ofString " |") = ofString " Cell |" ++
      (32 :: (List.intercalate (ofString " | ") (List.replicate (m + 1) (ofString "Cell")) ++ ofString " |")) := by
  rw [replicate_succ, replicate_succ, intercalate_cons_cons, ← replicate_succ]
  simp only [append_assoc]
  rfl

theorem split_cell (escaped : Bool) (rest : JsString) :
    splitCells escaped (ofString " Cell |" ++ rest) = ofString " Cell " :: splitCells false rest := rfl

theorem split_cellRow (m : Nat) (escaped : Bool) :
    splitCells escaped (32 :: (List.intercalate (ofString " | ") (List.replicate (m + 1) (ofString "Cell")) ++
      ofString " |")) = List.replicate (m + 1) (ofString " Cell ") ++ [[]] := by
  induction m generalizing escaped with
  | zero => exact split_cell escaped []
  | succ m ih =>
    rw [cellRow_cons, split_cell, ih]
    rfl

theorem cellRow_table (cells : Nat) :
    isTableLine (cellRow cells) = true ∧ (cellsOf (cellRow cells)).length = max 1 cells := by
  obtain ⟨m, hm⟩ : ∃ m, max 1 cells = m + 1 := ⟨max 1 cells - 1, by omega⟩
  have hafter : afterPipe (cellRow cells) =
      32 :: (List.intercalate (ofString " | ") (List.replicate (m + 1) (ofString "Cell")) ++ ofString " |") := by
    unfold cellRow
    rw [hm]
    rfl
  have hclosed : isClosed (cellRow cells) = true := by
    unfold isClosed
    rw [hafter, split_cellRow, getLast?_concat]
    rfl
  refine ⟨rfl, ?_⟩
  rw [cells_closed hclosed, hafter, split_cellRow, dropLast_concat, length_map, length_replicate, hm]

theorem cellRow_newline (cells : Nat) : newline ∉ cellRow cells := by
  unfold cellRow
  intro h
  rcases mem_append.mp h with h | h
  · rcases mem_append.mp h with h | h
    · revert h
      decide
    generalize max 1 cells = m at h
    have hall : ∀ m, newline ∉ List.intercalate (ofString " | ") (List.replicate m (ofString "Cell")) := by
      intro m
      induction m with
      | zero => simp [List.intercalate]
      | succ m ih =>
        cases m with
        | zero => decide
        | succ m =>
          rw [replicate_succ, replicate_succ, intercalate_cons_cons, ← replicate_succ]
          intro hmem
          rcases mem_append.mp hmem with hmem | hmem
          · rcases mem_append.mp hmem with hmem | hmem
            · revert hmem
              decide
            · revert hmem
              decide
          · exact ih hmem
    exact hall m h
  · revert h
    decide

/-! ## The delimiter row -/

theorem delimiter_chars {cell : JsString} (h : isDelimiterCell cell = true) :
    cell ≠ [] ∧ ∀ c ∈ cell, c = 58 ∨ c = 45 := by
  unfold isDelimiterCell at h
  dsimp only at h
  have hdashes : ∀ dashes : JsString, (dashes.head? == some 45 &&
      (dashes.dropWhile (· == 45) == [] || dashes.dropWhile (· == 45) == [58])) = true →
        dashes ≠ [] ∧ ∀ c ∈ dashes, c = 58 ∨ c = 45 := by
    intro dashes hall
    obtain ⟨hhead, hbehind⟩ := (Bool.and_eq_true _ _).mp hall
    refine ⟨fun hnil => ?_, fun c hc => ?_⟩
    · rw [hnil] at hhead
      cases hhead
    rw [← @List.takeWhile_append_dropWhile _ (· == 45) dashes] at hc
    rcases mem_append.mp hc with hc | hc
    · exact Or.inr (by simpa using mem_takeWhile_imp hc)
    rcases (Bool.or_eq_true _ _).mp hbehind with hnil | hcolon
    · rw [beq_iff_eq.mp hnil] at hc
      cases hc
    · rw [beq_iff_eq.mp hcolon] at hc
      exact Or.inl (mem_singleton.mp hc)
  cases cell with
  | nil => cases h
  | cons c rest =>
    refine ⟨by simp, fun d hd => ?_⟩
    by_cases hcolon : (c :: rest).head? = some 58
    · rw [if_pos hcolon] at h
      rcases mem_cons.mp hd with rfl | hd
      · exact Or.inl (Option.some.inj hcolon)
      · exact (hdashes rest h).2 d hd
    · rw [if_neg hcolon] at h
      exact (hdashes (c :: rest) h).2 d hd

theorem mem_trim {c : UInt16} (h : c ∈ text) : isSpace c = true ∨ c ∈ trim text := by
  rw [← @List.takeWhile_append_dropWhile _ isSpace text] at h
  rcases mem_append.mp h with h | h
  · exact Or.inl (mem_takeWhile_imp h)
  rw [← mem_reverse, ← @List.takeWhile_append_dropWhile _ isSpace (text.dropWhile isSpace).reverse] at h
  rcases mem_append.mp h with h | h
  · exact Or.inl (mem_takeWhile_imp h)
  · exact Or.inr (mem_reverse.mpr h)

theorem split_first {escaped : Bool} {body piece next : JsString} {more : List JsString}
    (h : splitCells escaped body = piece :: next :: more) : ∃ rest, body = piece ++ 124 :: rest := by
  induction body generalizing escaped piece next more with
  | nil =>
    unfold splitCells at h
    cases h
  | cons c body ih =>
    by_cases hpipe : c = 124 ∧ escaped = false
    · obtain ⟨rfl, rfl⟩ := hpipe
      rw [splitCells_pipe] at h
      obtain ⟨rfl, -⟩ := List.cons.inj h
      exact ⟨body, rfl⟩
    · obtain ⟨first, others, hsplit, hcons⟩ := @splitCells_inside escaped c body hpipe
      rw [hcons] at h
      cases h
      obtain ⟨rest, rfl⟩ := ih hsplit
      exact ⟨rest, rfl⟩

theorem isSep_delimiter (hrow : isTableLine row = true) (hclosed : isClosed row = true) (hsome : 0 < (cellsOf row).length)
    (h : ∀ cell ∈ cellsOf row, isDelimiterCell cell = true) : isSep row = true := by
  have hlength := pieces_length row
  rw [hclosed, if_pos rfl] at hlength
  obtain ⟨piece, pieces, hpieces⟩ := exists_cons_of_ne_nil (splitCells_ne_nil false (afterPipe row))
  obtain ⟨next, more, rfl⟩ : ∃ next more, pieces = next :: more := by
    cases pieces with
    | nil =>
      rw [hpieces, length_singleton] at hlength
      omega
    | cons next more => exact ⟨next, more, rfl⟩
  obtain ⟨rest, hbody⟩ := split_first hpieces
  have hcell : isDelimiterCell (trim piece) = true := by
    refine h _ ?_
    rw [cells_closed hclosed, hpieces]
    exact mem_map_of_mem mem_cons_self
  obtain ⟨hne, hchars⟩ := delimiter_chars hcell
  have hall : ∀ c ∈ piece, isDelimiterChar c = true := by
    intro c hc
    unfold isDelimiterChar
    rcases mem_trim hc with hspace | hmem
    · rw [hspace]
      rfl
    · rcases hchars c hmem with rfl | rfl
      · decide
      · decide
  obtain ⟨first, others, rfl⟩ : ∃ first others, piece = first :: others := by
    cases piece with
    | nil => exact absurd rfl hne
    | cons first others => exact ⟨first, others, rfl⟩
  unfold isSep
  rw [afterPipe_eq hrow]
  dsimp only
  rw [hbody, takeWhile_append_of_pos hall, takeWhile_cons_of_pos (by decide)]
  simp

end

/-! ## Finding the lines -/

variable {table : List JsString}

section
variable {editor : TextEditor} {front run rest : List JsString} {line : JsString}

theorem leading_length (front : List JsString) (line : JsString) (rest : List JsString) :
    (leading (front ++ line :: rest)).length = (leading front).length + line.length + 1 + (leading rest).length := by
  rw [leading_append, length_append]
  simp only [leading, flatMap_cons, length_append, length_singleton]
  omega

theorem leading_sum (front rest : List JsString) :
    (leading (front ++ rest)).length = (leading front).length + (leading rest).length := by
  rw [leading_append, length_append]

theorem joined_length {all : List JsString} (h : all ≠ []) : (leading all).length = (joinLines all).length + 1 := by
  rw [leading_joinLines h, length_append, length_singleton]

theorem walkDown_run (hlaw : LawfulEditor editor) (hlines : ∀ l ∈ front ++ line :: (run ++ rest), newline ∉ l)
    (hline : isTableLine line = true) (hrun : ∀ l ∈ run, isTableLine l = true)
    (hrest : ∀ l, rest.head? = some l → isTableLine l = false) {fuel cursor insertAt : Nat} (hfuel : run.length + 2 ≤ fuel)
    (hfrom : (leading front).length ≤ cursor) (hto : cursor ≤ (leading front).length + line.length)
    (hinsert : insertAt = (leading front).length + line.length ∨
      cursor < (joinLines (front ++ line :: (run ++ rest))).length) :
    walkDown editor (joinLines (front ++ line :: (run ++ rest))) fuel cursor insertAt + 1 =
      (leading (front ++ line :: run)).length := by
  obtain ⟨fuel, rfl⟩ : ∃ n, fuel = n + 1 := ⟨fuel - 1, by omega⟩
  have hunfold : ∀ doc n c i, walkDown editor doc (n + 1) c i = if c < doc.length then
      (if isTableLine (editor.lineAt doc c).text then
        walkDown editor doc n ((editor.lineAt doc c).to_ + 1) (editor.lineAt doc c).to_ else i) else i :=
    fun _ _ _ _ => rfl
  have htotal := @joined_length (front ++ line :: (run ++ rest)) (by simp)
  rw [leading_length] at htotal
  induction run generalizing front line cursor insertAt fuel with
  | nil =>
    rw [leading_length, hunfold]
    rw [nil_append] at hlines htotal hinsert ⊢
    have hempty : (leading []).length = 0 := rfl
    by_cases hcursor : cursor < (joinLines (front ++ line :: rest)).length
    · rw [if_pos hcursor, hlaw.lineAt front line rest cursor hlines hfrom hto, if_pos hline]
      dsimp only
      obtain ⟨fuel, rfl⟩ : ∃ n, fuel = n + 1 := ⟨fuel - 1, by simp at hfuel; omega⟩
      rw [hunfold]
      by_cases hmore : (leading front).length + line.length + 1 < (joinLines (front ++ line :: rest)).length
      · cases rest with
        | nil =>
          rw [hempty] at htotal
          omega
        | cons next rest =>
          have hsplit : front ++ line :: next :: rest = (front ++ [line]) ++ next :: rest := by simp
          have hplace : (leading (front ++ [line])).length = (leading front).length + line.length + 1 := by
            rw [leading_length, hempty]
          have hat := hlaw.lineAt (front ++ [line]) next rest ((leading front).length + line.length + 1)
            (by rw [← hsplit]; exact hlines) (by rw [hplace]) (by rw [hplace]; omega)
          rw [if_pos hmore, hsplit, hat, hrest next rfl, if_neg Bool.false_ne_true, hempty]
      · rw [if_neg hmore, hempty]
    · rw [if_neg hcursor, hempty]
      rcases hinsert with rfl | hinsert
      · rfl
      · exact absurd hinsert hcursor
  | cons next run ih =>
    have hsplit : front ++ line :: (next :: run ++ rest) = (front ++ [line]) ++ next :: (run ++ rest) := by simp
    have hplace : (leading (front ++ [line])).length = (leading front).length + line.length + 1 := by
      rw [leading_length]
      rfl
    have hmore : (leading (next :: run ++ rest)).length = next.length + 1 + (leading (run ++ rest)).length := by
      have hlength := leading_length [] next (run ++ rest)
      rw [nil_append] at hlength
      rw [cons_append, hlength]
      simp [leading]
    have hnext := row_ne_nil (hrun next mem_cons_self)
    have hpos := length_pos_iff.mpr hnext
    have hcursor : cursor < (joinLines (front ++ line :: (next :: run ++ rest))).length := by omega
    rw [hunfold, if_pos hcursor, hlaw.lineAt front line (next :: run ++ rest) cursor hlines hfrom hto, if_pos hline]
    dsimp only
    rw [hsplit] at hlines htotal hcursor ⊢
    rw [length_cons] at hfuel
    obtain ⟨fuel, rfl⟩ : ∃ n, fuel = n + 1 := ⟨fuel - 1, by omega⟩
    have hall := @ih (front ++ [line]) next hlines (hrun next mem_cons_self)
      (fun l hl => hrun l (mem_cons_of_mem _ hl)) ((leading front).length + line.length + 1)
      ((leading front).length + line.length) (Nat.le_of_eq hplace) (by rw [hplace]; omega)
      (Or.inr (by have := @joined_length ((front ++ [line]) ++ next :: (run ++ rest)) (by simp); omega)) fuel (by omega)
      (by rw [← leading_length]; exact joined_length (by simp))
    rw [hall]
    simp

theorem blockStart_run (hlaw : LawfulEditor editor) (hlines : ∀ l ∈ front ++ run ++ line :: rest, newline ∉ l)
    (hrun : ∀ l ∈ run, isTableLine l = true) (hfront : ∀ l, front.getLast? = some l → isTableLine l = false) {fuel : Nat}
    (hfuel : run.length + 1 ≤ fuel) :
    blockStart editor (joinLines (front ++ run ++ line :: rest)) fuel (leading (front ++ run)).length =
      (leading front).length := by
  have hunfold : ∀ doc n start, blockStart editor doc (n + 1) start = if 0 < start then
      (if isTableLine (editor.lineAt doc (start - 1)).text then
        blockStart editor doc n (editor.lineAt doc (start - 1)).from_ else start) else start := fun _ _ _ => rfl
  have hback : ∀ above last, (leading (above ++ [last])).length = (leading above).length + last.length + 1 := by
    intro above last
    rw [leading_length]
    rfl
  induction run using List.reverseRecOn generalizing line rest fuel with
  | nil =>
    obtain ⟨fuel, rfl⟩ : ∃ n, fuel = n + 1 := ⟨fuel - 1, by simp at hfuel; omega⟩
    rw [append_nil] at hlines ⊢
    rw [hunfold]
    rcases eq_nil_or_concat' front with rfl | ⟨above, last, rfl⟩
    · rfl
    have hsplit : above ++ [last] ++ line :: rest = above ++ last :: (line :: rest) := by simp
    rw [hsplit] at hlines ⊢
    rw [hback, if_pos (by omega), hlaw.lineAt above last (line :: rest) _ hlines (by omega) (by omega),
      hfront last (getLast?_concat), if_neg Bool.false_ne_true]
  | append_singleton run last ih =>
    rw [length_append, length_singleton] at hfuel
    obtain ⟨fuel, rfl⟩ : ∃ n, fuel = n + 1 := ⟨fuel - 1, by omega⟩
    have hsplit : front ++ (run ++ [last]) ++ line :: rest = front ++ run ++ last :: (line :: rest) := by simp
    have hall := @ih (line :: rest) last (by rw [← hsplit]; exact hlines)
      (fun l hl => hrun l (mem_append_left _ hl)) fuel (by omega)
    rw [hsplit] at hlines ⊢
    rw [← append_assoc, hback, hunfold, if_pos (by omega),
      hlaw.lineAt (front ++ run) last (line :: rest) _ hlines (by omega) (by omega),
      if_pos (hrun last (mem_append_right _ mem_cons_self))]
    exact hall

theorem blockEnd_run (hlaw : LawfulEditor editor) (hlines : ∀ l ∈ front ++ line :: (run ++ rest), newline ∉ l)
    (hrun : ∀ l ∈ run, isTableLine l = true) (hrest : ∀ l, rest.head? = some l → isTableLine l = false) {fuel : Nat}
    (hfuel : run.length + 1 ≤ fuel) :
    blockEnd editor (joinLines (front ++ line :: (run ++ rest))) fuel ((leading front).length + line.length) + 1 =
      (leading (front ++ line :: run)).length := by
  have hunfold : ∀ doc n last, blockEnd editor doc (n + 1) last = if last < doc.length then
      (if isTableLine (editor.lineAt doc (last + 1)).text then
        blockEnd editor doc n (editor.lineAt doc (last + 1)).to_ else last) else last := fun _ _ _ => rfl
  have hplace : ∀ above last, (leading (above ++ [last])).length = (leading above).length + last.length + 1 := by
    intro above last
    rw [leading_length]
    rfl
  induction run generalizing front line fuel with
  | nil =>
    have htotal := @joined_length (front ++ line :: rest) (by simp)
    obtain ⟨fuel, rfl⟩ : ∃ n, fuel = n + 1 := ⟨fuel - 1, by simp at hfuel; omega⟩
    rw [nil_append] at hlines ⊢
    rw [leading_length] at htotal
    rw [hunfold, hplace]
    by_cases hmore : (leading front).length + line.length < (joinLines (front ++ line :: rest)).length
    · cases rest with
      | nil =>
        have hempty : (leading []).length = 0 := rfl
        omega
      | cons next rest =>
        have hsplit : front ++ line :: next :: rest = (front ++ [line]) ++ next :: rest := by simp
        have hat := hlaw.lineAt (front ++ [line]) next rest ((leading front).length + line.length + 1)
          (by rw [← hsplit]; exact hlines) (by rw [hplace]) (by rw [hplace]; omega)
        rw [if_pos hmore, hsplit, hat, hrest next rfl, if_neg Bool.false_ne_true]
    · rw [if_neg hmore]
  | cons next run ih =>
    have htotal := @joined_length (front ++ line :: (next :: run ++ rest)) (by simp)
    rw [leading_length] at htotal
    have hsplit : front ++ line :: (next :: run ++ rest) = (front ++ [line]) ++ next :: (run ++ rest) := by simp
    have hmore : (leading (next :: run ++ rest)).length = next.length + 1 + (leading (run ++ rest)).length := by
      have hlength := leading_length [] next (run ++ rest)
      rw [nil_append] at hlength
      rw [cons_append, hlength]
      simp [leading]
    rw [length_cons] at hfuel
    obtain ⟨fuel, rfl⟩ : ∃ n, fuel = n + 1 := ⟨fuel - 1, by omega⟩
    rw [hunfold, if_pos (by omega)]
    rw [hsplit] at hlines ⊢
    have hall := @ih (front ++ [line]) next hlines (fun l hl => hrun l (mem_cons_of_mem _ hl)) fuel (by omega)
    rw [hplace] at hall
    rw [hlaw.lineAt (front ++ [line]) next (run ++ rest) _ hlines (by rw [hplace]) (by rw [hplace]; omega),
      if_pos (hrun next mem_cons_self)]
    dsimp only
    rw [hplace, hall]
    simp

/-! ## The changes -/

theorem insertions_cells {doc : JsString} {offset : Nat} (hsome : table ≠ [])
    (h : offset + (joinLines table).length ≤ doc.length) : Insertions doc.length offset (cellChanges offset table) := by
  induction table generalizing offset with
  | nil => exact absurd rfl hsome
  | cons row table ih =>
    by_cases htable : table = []
    · rw [htable] at h ⊢
      have hsingle : joinLines [row] = row := by simp [joinLines, List.intercalate]
      rw [hsingle] at h
      exact ⟨Nat.le_add_right _ _, rfl, h⟩
    · rw [joinLines_cons row htable, length_append, length_cons] at h
      have hrest := @ih (offset + row.length + 1) htable (by omega)
      refine ⟨Nat.le_add_right _ _, rfl, ?_⟩
      cases table with
      | nil => exact absurd rfl htable
      | cons next table =>
        refine ⟨?_, hrest.2⟩
        dsimp only
        omega

def withCell (row : JsString) : JsString := row ++ newCell row

theorem together_cells {front tail : JsString} {table : List JsString} (hsome : table ≠ []) :
    Splice.together (front ++ (joinLines table ++ tail)) front.length (cellChanges front.length table) =
      joinLines (table.map withCell) ++ tail := by
  induction table generalizing front with
  | nil => exact absurd rfl hsome
  | cons row table ih =>
    have htake : ∀ back : JsString, ((front ++ (row ++ back)).take (front.length + row.length)).drop front.length = row := by
      intro back
      rw [take_length_add_append, take_left, drop_left]
    by_cases htable : table = []
    · have hsingle : ∀ r : JsString, joinLines [r] = r := by
        intro r
        simp [joinLines, List.intercalate]
      rw [htable]
      simp only [cellChanges, Splice.together, map_cons, map_nil, hsingle]
      rw [htake, ← append_assoc front, ← length_append, drop_left]
      rfl
    · have hdoc : front ++ (joinLines (row :: table) ++ tail) =
          (front ++ (row ++ [newline])) ++ (joinLines table ++ tail) := by
        rw [joinLines_cons row htable]
        simp
      have hnext : front.length + row.length + 1 = (front ++ (row ++ [newline])).length := by
        simp [Nat.add_assoc]
      have hrest := @ih (front ++ (row ++ [newline])) htable
      rw [← hnext, ← hdoc] at hrest
      have hmap : table.map withCell ≠ [] := by simpa using htable
      have hbreak : Splice.together (front ++ (joinLines (row :: table) ++ tail)) (front.length + row.length)
          (cellChanges (front.length + row.length + 1) table) = newline :: (joinLines (table.map withCell) ++ tail) := by
        cases table with
        | nil => exact absurd rfl htable
        | cons next table =>
          have hdrop : front ++ (joinLines (row :: next :: table) ++ tail) =
              (front ++ row) ++ newline :: (joinLines (next :: table) ++ tail) := by
            rw [joinLines_cons row htable]
            simp
          have hplace : front.length + row.length = (front ++ row).length := by rw [length_append]
          simp only [cellChanges, Splice.together] at hrest ⊢
          rw [← hrest, hdrop, hplace]
          generalize next.length = n
          rw [List.drop_take, drop_left, List.drop_take, ← drop_drop, drop_left]
          have hwidth : (front ++ row).length + 1 + n - (front ++ row).length = n + 1 := by omega
          have hwidth' : (front ++ row).length + 1 + n - ((front ++ row).length + 1) = n := by omega
          rw [hwidth, hwidth']
          rfl
      rw [map_cons, joinLines_cons _ hmap]
      show ((front ++ (joinLines (row :: table) ++ tail)).take (front.length + row.length)).drop front.length ++ newCell row ++
        Splice.together _ (front.length + row.length) _ = _
      rw [hbreak, joinLines_cons row htable, append_assoc row, htake]
      unfold withCell
      simp

end

/-! ## What the commands leave -/

theorem joinLines_split {first : List JsString} (h : first ≠ []) (rest : List JsString) :
    joinLines (first ++ rest) = joinLines first ++ if rest = [] then [] else newline :: joinLines rest := by
  by_cases hrest : rest = []
  · rw [hrest, if_pos rfl, append_nil, append_nil]
  · rw [if_neg hrest, joinLines_append first hrest, leading_joinLines h, append_assoc]
    rfl

theorem run_short {run : List JsString} (h : ∀ l ∈ run, isTableLine l = true) : 2 * run.length ≤ (leading run).length := by
  induction run with
  | nil => exact Nat.zero_le _
  | cons line run ih =>
    have hpos := length_pos_iff.mpr (row_ne_nil (h line mem_cons_self))
    have hrest := ih fun l hl => h l (mem_cons_of_mem _ hl)
    have hlength := leading_length [] line run
    rw [nil_append] at hlength
    rw [hlength, length_cons]
    omega

theorem cut_below (lines : List JsString) : ∃ run rest, lines = run ++ rest ∧ (∀ l ∈ run, isTableLine l = true) ∧
    ∀ l, rest.head? = some l → isTableLine l = false := by
  induction lines with
  | nil => exact ⟨[], [], rfl, by simp, by simp⟩
  | cons line lines ih =>
    cases hline : isTableLine line with
    | false =>
      refine ⟨[], line :: lines, rfl, by simp, fun l hl => ?_⟩
      cases hl
      exact hline
    | true =>
      obtain ⟨run, rest, rfl, hrun, hrest⟩ := ih
      refine ⟨line :: run, rest, rfl, fun l hl => ?_, hrest⟩
      rcases mem_cons.mp hl with rfl | hl
      · exact hline
      · exact hrun l hl

theorem cut_above (lines : List JsString) : ∃ rest run, lines = rest ++ run ∧ (∀ l ∈ run, isTableLine l = true) ∧
    ∀ l, rest.getLast? = some l → isTableLine l = false := by
  obtain ⟨run, rest, hlines, hrun, hrest⟩ := cut_below lines.reverse
  refine ⟨rest.reverse, run.reverse, ?_, fun l hl => hrun l (mem_reverse.mp hl), fun l hl => hrest l ?_⟩
  · rw [← reverse_append, ← hlines, reverse_reverse]
  · rw [← hl, getLast?_reverse]

section
variable {editor : TextEditor} {before above below after : List JsString} {line : JsString} {main : Nat}

/-- The cursor on a line of a table. -/
structure OnTable (before above below after : List JsString) (line : JsString) (main : Nat) : Prop where
  lines : ∀ l ∈ before ++ (above ++ line :: below) ++ after, newline ∉ l
  rows : ∀ l ∈ above ++ line :: below, isTableLine l = true
  from_ : (leading (before ++ above)).length ≤ main
  to_ : main ≤ (leading (before ++ above)).length + line.length

theorem lineAt_main (hlaw : LawfulEditor editor) (h : OnTable before above below after line main) :
    editor.lineAt (joinLines (before ++ (above ++ line :: below) ++ after)) main =
      ⟨(leading (before ++ above)).length, (leading (before ++ above)).length + line.length, line⟩ := by
  have hsplit : before ++ (above ++ line :: below) ++ after = (before ++ above) ++ line :: (below ++ after) := by simp
  rw [hsplit]
  exact hlaw.lineAt _ _ _ _ (by rw [← hsplit]; exact h.lines) h.from_ h.to_

theorem addTableRow_updated (hlaw : LawfulEditor editor) {down rest : List JsString}
    (h : OnTable before above below (down ++ rest) line main) (hdown : ∀ l ∈ down, isTableLine l = true)
    (hrest : ∀ l, rest.head? = some l → isTableLine l = false) :
    updated editor (joinLines (before ++ (above ++ line :: below) ++ (down ++ rest)))
        (addTableRow editor (joinLines (before ++ (above ++ line :: below) ++ (down ++ rest))) main) =
      joinLines (before ++ (above ++ line :: below) ++ (down ++ cellRow ((line.splitOn 124).length - 2) :: rest)) := by
  have hsplit : before ++ (above ++ line :: below) ++ (down ++ rest) =
      (before ++ above) ++ line :: ((below ++ down) ++ rest) := by simp
  have hline : isTableLine line = true := h.rows line (by simp)
  have hrun : ∀ l ∈ below ++ down, isTableLine l = true := by
    intro l hl
    rcases mem_append.mp hl with hl | hl
    · exact h.rows l (by simp [hl])
    · exact hdown l hl
  have htotal := @joined_length (before ++ (above ++ line :: below) ++ (down ++ rest)) (by simp)
  have hfuel : (below ++ down).length + 2 ≤ (joinLines (before ++ (above ++ line :: below) ++ (down ++ rest))).length + 1 := by
    have hshort := run_short hrun
    have hpos := length_pos_iff.mpr (row_ne_nil hline)
    rw [← htotal, hsplit, leading_length, leading_sum (below ++ down)]
    omega
  have hwalk := @walkDown_run editor (before ++ above) (below ++ down) rest line hlaw (by rw [← hsplit]; exact h.lines) hline
    hrun hrest _ main ((leading (before ++ above)).length + line.length) hfuel h.from_ h.to_ (Or.inl rfl)
  rw [← hsplit] at hwalk
  have hblock : (before ++ above) ++ line :: (below ++ down) = before ++ (above ++ line :: below) ++ down := by simp
  have hne : before ++ (above ++ line :: below) ++ down ≠ [] := by simp
  rw [hblock, joined_length hne] at hwalk
  have hplace := Nat.succ.inj hwalk
  unfold addTableRow
  rw [lineAt_main hlaw h]
  dsimp only
  rw [hline, hplace]
  have hdoc : joinLines (before ++ (above ++ line :: below) ++ (down ++ rest)) =
      joinLines (before ++ (above ++ line :: below) ++ down) ++ if rest = [] then [] else newline :: joinLines rest := by
    rw [← append_assoc _ down, joinLines_split hne]
  have hupdate : ∀ (doc : JsString) (place : Nat) (text : JsString), place ≤ doc.length →
      editor.update doc [⟨place, place, text⟩] = doc.take place ++ text ++ doc.drop place :=
    fun doc place text hle => hlaw.update doc [⟨place, place, text⟩] ⟨Nat.zero_le _, rfl, hle⟩
  refine (hupdate _ _ _ (by rw [hdoc, length_append]; exact Nat.le_add_right _ _)).trans ?_
  rw [hdoc, take_left, drop_left]
  have hsome : cellRow ((line.splitOn 124).length - 2) :: rest ≠ [] := by simp
  rw [← append_assoc _ down, joinLines_split hne, if_neg hsome, append_assoc]
  refine congrArg (joinLines _ ++ ·) ?_
  show newline :: (cellRow _ ++ _) = newline :: _
  refine congrArg (newline :: ·) ?_
  have hsingle : joinLines [cellRow ((line.splitOn 124).length - 2)] = cellRow ((line.splitOn 124).length - 2) := by
    simp [joinLines, List.intercalate]
  have hcons := @joinLines_split [cellRow ((line.splitOn 124).length - 2)] (by simp) rest
  rw [hsingle] at hcons
  exact hcons.symm

theorem together_from {doc : JsString} {splice : Splice UInt16} {splices : List (Splice UInt16)} {pos : Nat}
    (hpos : pos ≤ splice.start) :
    Splice.together doc 0 (splice :: splices) = doc.take pos ++ Splice.together doc pos (splice :: splices) := by
  have hfirst : doc.take pos = (doc.take splice.start).take pos := by rw [take_take, Nat.min_eq_left hpos]
  simp only [Splice.together, drop_zero]
  rw [hfirst, ← append_assoc, ← append_assoc, take_append_drop]

theorem insertions_weaken {length pos less : Nat} {splices : List (Splice UInt16)} (hle : less ≤ pos)
    (h : Insertions length pos splices) : Insertions length less splices := by
  cases splices with
  | nil => exact Nat.le_trans hle h
  | cons splice splices => exact ⟨Nat.le_trans hle h.1, h.2⟩

theorem update_cells (hlaw : LawfulEditor editor) {front tail : JsString} {block : List JsString} (hblock : block ≠ []) :
    editor.update (front ++ (joinLines block ++ tail)) (cellChanges front.length block) =
      front ++ (joinLines (block.map withCell) ++ tail) := by
  have hlength : front.length + (joinLines block).length ≤ (front ++ (joinLines block ++ tail)).length := by
    rw [length_append, length_append]
    omega
  have htogether := @together_cells front tail block hblock
  rw [hlaw.update _ _ (insertions_weaken (Nat.zero_le _) (insertions_cells hblock hlength))]
  obtain ⟨row, rows, rfl⟩ := exists_cons_of_ne_nil hblock
  refine (together_from (Nat.le_add_right _ _)).trans ?_
  rw [take_left]
  exact congrArg (front ++ ·) htogether

theorem addTableColumn_updated (hlaw : LawfulEditor editor) {front up down rest : List JsString}
    (h : OnTable (front ++ up) above below (down ++ rest) line main) (hup : ∀ l ∈ up, isTableLine l = true)
    (hdown : ∀ l ∈ down, isTableLine l = true) (hfront : ∀ l, front.getLast? = some l → isTableLine l = false)
    (hrest : ∀ l, rest.head? = some l → isTableLine l = false) :
    updated editor (joinLines (front ++ up ++ (above ++ line :: below) ++ (down ++ rest)))
        (addTableColumn editor (joinLines (front ++ up ++ (above ++ line :: below) ++ (down ++ rest))) main) =
      joinLines (front ++ (up ++ (above ++ line :: below) ++ down).map withCell ++ rest) := by
  have hline : isTableLine line = true := h.rows line (by simp)
  have hrunUp : ∀ l ∈ up ++ above, isTableLine l = true := by
    intro l hl
    rcases mem_append.mp hl with hl | hl
    · exact hup l hl
    · exact h.rows l (by simp [hl])
  have hrunDown : ∀ l ∈ below ++ down, isTableLine l = true := by
    intro l hl
    rcases mem_append.mp hl with hl | hl
    · exact h.rows l (by simp [hl])
    · exact hdown l hl
  have hdownSplit : front ++ up ++ (above ++ line :: below) ++ (down ++ rest) =
      (front ++ up ++ above) ++ line :: ((below ++ down) ++ rest) := by simp
  have hupSplit : front ++ up ++ (above ++ line :: below) ++ (down ++ rest) =
      front ++ (up ++ above) ++ line :: (below ++ (down ++ rest)) := by simp
  have hblockSplit : front ++ up ++ (above ++ line :: below) ++ (down ++ rest) =
      front ++ ((up ++ (above ++ line :: below) ++ down) ++ rest) := by simp
  have hblock : up ++ (above ++ line :: below) ++ down ≠ [] := by simp
  have htotal := @joined_length (front ++ up ++ (above ++ line :: below) ++ (down ++ rest)) (by simp)
  have hpos := length_pos_iff.mpr (row_ne_nil hline)
  have hfuelUp : (up ++ above).length + 1 ≤
      (joinLines (front ++ up ++ (above ++ line :: below) ++ (down ++ rest))).length + 1 := by
    have hshort := run_short hrunUp
    rw [← htotal, hupSplit, leading_length, leading_sum front]
    omega
  have hfuelDown : (below ++ down).length + 1 ≤
      (joinLines (front ++ up ++ (above ++ line :: below) ++ (down ++ rest))).length + 1 := by
    have hshort := run_short hrunDown
    rw [← htotal, hdownSplit, leading_length, leading_sum (below ++ down)]
    omega
  have hstart := @blockStart_run editor front (up ++ above) (below ++ (down ++ rest)) line hlaw
    (by rw [← hupSplit]; exact h.lines) hrunUp hfront _ hfuelUp
  have hlast := @blockEnd_run editor (front ++ up ++ above) (below ++ down) rest line hlaw
    (by rw [← hdownSplit]; exact h.lines) hrunDown hrest _ hfuelDown
  rw [← hupSplit, ← append_assoc front] at hstart
  rw [← hdownSplit] at hlast
  have hall : (front ++ up ++ above) ++ line :: (below ++ down) = front ++ (up ++ (above ++ line :: below) ++ down) := by simp
  rw [hall, leading_sum front (up ++ (above ++ line :: below) ++ down), joined_length hblock] at hlast
  have hstop := Nat.add_right_cancel (hlast.trans (Nat.add_assoc _ _ 1).symm)
  -- the text of the block, with what is around it
  have hdoc : joinLines (front ++ up ++ (above ++ line :: below) ++ (down ++ rest)) = leading front ++
      (joinLines (up ++ (above ++ line :: below) ++ down) ++ if rest = [] then [] else newline :: joinLines rest) := by
    rw [hblockSplit, joinLines_append front (by simp), joinLines_split hblock]
  have hslice : (joinLines (front ++ up ++ (above ++ line :: below) ++ (down ++ rest))).slice (leading front).length
      ((leading front).length + (joinLines (up ++ (above ++ line :: below) ++ down)).length) =
        joinLines (up ++ (above ++ line :: below) ++ down) := by
    rw [hdoc, slice, take_length_add_append, take_left, drop_left]
  have hlines : lines (joinLines (up ++ (above ++ line :: below) ++ down)) = up ++ (above ++ line :: below) ++ down := by
    refine lines_joinLines hblock fun l hl => h.lines l ?_
    rw [hblockSplit]
    exact mem_append_right _ (mem_append_left _ hl)
  unfold addTableColumn
  rw [lineAt_main hlaw h]
  dsimp only
  rw [hline, hstart, hstop, hslice, hlines]
  show editor.update _ _ = _
  have hmap : (up ++ (above ++ line :: below) ++ down).map withCell ≠ [] := by simp
  have hrows : (up ++ (above ++ line :: below) ++ down).map withCell ++ rest ≠ [] := by simp
  rw [hdoc, update_cells hlaw hblock, ← joinLines_split hmap, ← joinLines_append front hrows]
  exact congrArg joinLines (append_assoc _ _ _).symm

end

/-! ## Tables that stay tables -/

def RowAdded (columns : Nat) (before table after : List JsString) (doc : JsString) : Prop :=
  ∃ row, newline ∉ row ∧ IsTable columns (table ++ [row]) ∧ doc = joinLines (before ++ (table ++ [row]) ++ after)

/-- The same table with one more cell in each row, a delimiter in the delimiter row and only there, and the lines around
it. -/
def ColumnAdded (columns : Nat) (before table after : List JsString) (doc : JsString) : Prop :=
  ∃ rows, (∀ row ∈ rows, newline ∉ row) ∧ IsTable (columns + 1) rows ∧ rows.length = table.length ∧
    (∀ i old new, table[i]? = some old → rows[i]? = some new →
      ∃ cell, cellsOf new = cellsOf old ++ [cell] ∧ (isDelimiterCell cell = true ↔ i = 1)) ∧
    doc = joinLines (before ++ rows ++ after)

def CountsCells (columns : Nat) (line : JsString) : Prop :=
  (if isClosed line then 1 else 0) + escapedPipes false (afterPipe line) = 1 ∨
    columns = 1 ∧ (if isClosed line then 1 else 0) + escapedPipes false (afterPipe line) = 0

section
variable {editor : TextEditor} {before above below after : List JsString} {line : JsString} {main columns : Nat}

theorem counts_iff (hline : isTableLine line = true) (hsome : 0 < columns) (hcells : (cellsOf line).length = columns) :
    max 1 ((line.splitOn 124).length - 2) = columns ↔ CountsCells columns line := by
  rw [pipes_of_row hline, hcells]
  unfold CountsCells
  generalize (if isClosed line then 1 else 0) = closed
  omega

theorem table_append {row : JsString} (h : IsTable columns table) (hrow : isTableLine row = true)
    (hcells : (cellsOf row).length = columns) : IsTable columns (table ++ [row]) := by
  obtain ⟨delimiter, hdelimiter, hall⟩ := h.delimiter
  refine ⟨h.some_, fun r hr => ?_, fun r hr => ?_, delimiter, ?_, hall⟩
  · rcases mem_append.mp hr with hr | hr
    · exact h.piped r hr
    · rw [mem_singleton.mp hr]
      exact hrow
  · rcases mem_append.mp hr with hr | hr
    · exact h.cells r hr
    · rw [mem_singleton.mp hr]
      exact hcells
  · rw [getElem?_append_left (List.getElem?_eq_some_iff.mp hdelimiter).1]
    exact hdelimiter

theorem row_added_iff (hlaw : LawfulEditor editor) (h : OnTable before above below after line main)
    (htable : IsTable columns (above ++ line :: below))
    (hmaximal : ∀ l, after.head? = some l → isTableLine l = true → (cellsOf l).length ≠ columns) :
    RowAdded columns before (above ++ line :: below) after
        (updated editor (joinLines (before ++ (above ++ line :: below) ++ after))
          (addTableRow editor (joinLines (before ++ (above ++ line :: below) ++ after)) main)) ↔
      (∀ l, after.head? = some l → isTableLine l = false) ∧ CountsCells columns line := by
  have hline : isTableLine line = true := h.rows line (by simp)
  have hcounts := counts_iff hline htable.some_ (htable.cells line (by simp))
  obtain ⟨hpiped, hcells⟩ := cellRow_table ((line.splitOn 124).length - 2)
  have hnewline := cellRow_newline ((line.splitOn 124).length - 2)
  have hlines := h.lines
  obtain ⟨down, rest, rfl, hdown, hrest⟩ := cut_below after
  rw [addTableRow_updated hlaw h hdown hrest]
  generalize cellRow ((line.splitOn 124).length - 2) = added at *
  generalize htableName : above ++ line :: below = table at *
  constructor
  · rintro ⟨row, hrow, hadded, hjoined⟩
    have hsame : before ++ table ++ (down ++ added :: rest) = before ++ (table ++ [row]) ++ (down ++ rest) := by
      have hleft := @lines_joinLines (before ++ table ++ (down ++ added :: rest)) (by simp) fun l hl => ?_
      · have hright := @lines_joinLines (before ++ (table ++ [row]) ++ (down ++ rest)) (by simp) fun l hl => ?_
        · rw [← hleft, hjoined, hright]
        simp only [mem_append, mem_singleton] at hl hlines
        rcases hl with (hl | hl | rfl) | hl
        · exact hlines l (Or.inl (Or.inl hl))
        · exact hlines l (Or.inl (Or.inr hl))
        · exact hrow
        · exact hlines l (Or.inr hl)
      · simp only [mem_append, mem_cons] at hl hlines
        rcases hl with (hl | hl) | hl | rfl | hl
        · exact hlines l (Or.inl (Or.inl hl))
        · exact hlines l (Or.inl (Or.inr hl))
        · exact hlines l (Or.inr (Or.inl hl))
        · exact hnewline
        · exact hlines l (Or.inr (Or.inr hl))
    have hcancel : down ++ added :: rest = row :: (down ++ rest) := by
      have hassoc : before ++ (table ++ [row]) ++ (down ++ rest) = before ++ table ++ (row :: (down ++ rest)) := by simp
      rw [hassoc] at hsame
      exact append_cancel_left hsame
    have hrowCells : (cellsOf row).length = columns := hadded.cells row (mem_append_right _ mem_cons_self)
    cases down with
    | nil =>
      obtain ⟨rfl, -⟩ := List.cons.inj hcancel
      exact ⟨hrest, hcounts.mp (hcells.symm.trans hrowCells)⟩
    | cons first down =>
      obtain ⟨rfl, -⟩ := List.cons.inj hcancel
      exact absurd hrowCells (hmaximal first rfl (hdown first mem_cons_self))
  · rintro ⟨hnone, hcount⟩
    have hempty : down = [] := by
      cases down with
      | nil => rfl
      | cons first down =>
        have hfalse := hnone first rfl
        rw [hdown first mem_cons_self] at hfalse
        cases hfalse
    rw [hempty]
    refine ⟨added, hnewline, table_append htable hpiped (hcells.trans (hcounts.mpr hcount)), ?_⟩
    simp

/-! ## Columns -/

theorem withCell_newline {row : JsString} (h : newline ∉ row) : newline ∉ withCell row := by
  intro hm
  rcases mem_append.mp hm with hm | hm
  · exact h hm
  · unfold newCell at hm
    revert hm
    cases isSep row <;> decide

theorem map_withCell_eq {rows : List JsString} (h : rows.map withCell = rows) : rows = [] := by
  cases rows with
  | nil => rfl
  | cons row rows =>
    have hlength := congrArg List.length (List.cons.inj h).1
    unfold withCell newCell at hlength
    rw [length_append] at hlength
    cases hsep : isSep row with
    | true =>
      rw [hsep, if_pos rfl] at hlength
      have hseven : (ofString " --- |").length = 6 := by decide
      omega
    | false =>
      rw [hsep, if_neg Bool.false_ne_true] at hlength
      have hseven : (ofString " Cell |").length = 7 := by decide
      omega

theorem withCell_closed {row : JsString} (hrow : isTableLine row = true) (h : isClosed row = true) :
    cellsOf (withCell row) = cellsOf row ++ [if isSep row then ofString "---" else ofString "Cell"] := by
  unfold withCell newCell
  cases isSep row with
  | true => exact (cell_added hrow closing_dashes).1 h
  | false => exact (cell_added hrow closing_cell).1 h

theorem withCell_open {row : JsString} (hrow : isTableLine row = true) (h : isClosed row = false) :
    (cellsOf (withCell row)).length = (cellsOf row).length := by
  unfold withCell newCell
  cases isSep row with
  | true => exact (cell_added hrow closing_dashes).2 h
  | false => exact (cell_added hrow closing_cell).2 h

theorem newCell_delimiter (sep : Bool) :
    isDelimiterCell (if sep then ofString "---" else ofString "Cell") = sep := by
  cases sep <;> decide

structure Appendable (table : List JsString) : Prop where
  closed : ∀ row ∈ table, isClosed row = true
  data : ∀ i row, table[i]? = some row → i ≠ 1 → isSep row = false

theorem appendable_iff (h : IsTable columns table) :
    Appendable table ↔ ∀ i old, table[i]? = some old →
      ∃ cell, cellsOf (withCell old) = cellsOf old ++ [cell] ∧ (isDelimiterCell cell = true ↔ i = 1) := by
  constructor
  · intro ⟨hclosed, hdata⟩ i old hold
    have hmem := mem_of_getElem? hold
    refine ⟨_, withCell_closed (h.piped old hmem) (hclosed old hmem), ?_⟩
    rw [newCell_delimiter]
    by_cases hi : i = 1
    · obtain ⟨row, hrow, hall⟩ := h.delimiter
      rw [hi, hrow] at hold
      obtain rfl := Option.some.inj hold
      have hsome := h.some_
      rw [← h.cells row hmem] at hsome
      exact iff_of_true (isSep_delimiter (h.piped row hmem) (hclosed row hmem) hsome hall) hi
    · rw [hdata i old hold hi]
      exact iff_of_false Bool.false_ne_true hi
  · intro hall
    have hclosed : ∀ row ∈ table, isClosed row = true := by
      intro row hmem
      obtain ⟨i, hi⟩ := getElem?_of_mem hmem
      obtain ⟨cell, hcell, -⟩ := hall i row hi
      cases hopen : isClosed row with
      | true => rfl
      | false =>
        have hlength := withCell_open (h.piped row hmem) hopen
        rw [hcell, length_append, length_singleton] at hlength
        omega
    refine ⟨hclosed, fun i row hi hne => ?_⟩
    have hmem := mem_of_getElem? hi
    obtain ⟨cell, hcell, hiff⟩ := hall i row hi
    rw [withCell_closed (h.piped row hmem) (hclosed row hmem)] at hcell
    have hsame := (List.cons.inj (append_cancel_left hcell)).1
    rw [← hsame, newCell_delimiter] at hiff
    exact Bool.eq_false_iff.mpr fun hsep => hne (hiff.mp hsep)

theorem table_withCell (h : IsTable columns table) (happend : Appendable table) :
    IsTable (columns + 1) (table.map withCell) := by
  have hall := (appendable_iff h).mp happend
  refine ⟨Nat.succ_pos _, fun row hrow => ?_, fun row hrow => ?_, ?_⟩
  · obtain ⟨old, hold, rfl⟩ := mem_map.mp hrow
    exact (tableLine_append (h.piped old hold) _).1
  · obtain ⟨old, hold, rfl⟩ := mem_map.mp hrow
    rw [withCell_closed (h.piped old hold) (happend.closed old hold), length_append, h.cells old hold,
      length_singleton]
  obtain ⟨row, hrow, hcells⟩ := h.delimiter
  obtain ⟨cell, hcell, hiff⟩ := hall 1 row hrow
  refine ⟨withCell row, by rw [getElem?_map, hrow]; rfl, fun other hother => ?_⟩
  rw [hcell] at hother
  rcases mem_append.mp hother with hother | hother
  · exact hcells other hother
  · rw [mem_singleton.mp hother]
    exact hiff.mpr rfl

theorem column_added_iff (hlaw : LawfulEditor editor) (h : OnTable before above below after line main)
    (htable : IsTable columns (above ++ line :: below)) :
    ColumnAdded columns before (above ++ line :: below) after
        (updated editor (joinLines (before ++ (above ++ line :: below) ++ after))
          (addTableColumn editor (joinLines (before ++ (above ++ line :: below) ++ after)) main)) ↔
      (∀ l, before.getLast? = some l → isTableLine l = false) ∧ (∀ l, after.head? = some l → isTableLine l = false) ∧
        Appendable (above ++ line :: below) := by
  have hlines := h.lines
  obtain ⟨down, rest, rfl, hdown, hrest⟩ := cut_below after
  obtain ⟨front, up, rfl, hup, hfront⟩ := cut_above before
  rw [addTableColumn_updated hlaw h hup hdown hfront hrest]
  have hne : above ++ line :: below ≠ [] := by simp
  generalize above ++ line :: below = table at *
  have hnew : ∀ l ∈ front ++ (up ++ table ++ down).map withCell ++ rest, newline ∉ l := by
    intro l hl
    rcases mem_append.mp hl with hl | hl
    · rcases mem_append.mp hl with hl | hl
      · exact hlines l (by simp [hl])
      obtain ⟨old, hold, rfl⟩ := mem_map.mp hl
      refine withCell_newline (hlines old ?_)
      simp only [mem_append] at hold ⊢
      rcases hold with (hold | hold) | hold
      · exact Or.inl (Or.inl (Or.inr hold))
      · exact Or.inl (Or.inr hold)
      · exact Or.inr (Or.inl hold)
    · exact hlines l (by simp [hl])
  constructor
  · rintro ⟨rows, hrows, -, hlength, hcells, hjoined⟩
    have hsome : rows ≠ [] := by
      intro hnil
      rw [hnil] at hlength
      exact hne (eq_nil_of_length_eq_zero hlength.symm)
    have hsame : front ++ (up ++ table ++ down).map withCell ++ rest = front ++ up ++ rows ++ (down ++ rest) := by
      have hleft := @lines_joinLines (front ++ (up ++ table ++ down).map withCell ++ rest) (by simp [hne]) hnew
      have hright := @lines_joinLines (front ++ up ++ rows ++ (down ++ rest)) (by simp [hsome]) fun l hl => by
        rcases mem_append.mp hl with hl | hl
        · rcases mem_append.mp hl with hl | hl
          · exact hlines l (mem_append_left _ (mem_append_left _ hl))
          · exact hrows l hl
        · exact hlines l (mem_append_right _ hl)
      rw [← hleft, hjoined, hright]
    have hcut : up.map withCell ++ (table.map withCell ++ (down.map withCell ++ rest)) = up ++ (rows ++ (down ++ rest)) := by
      simp only [map_append, append_assoc] at hsame
      exact append_cancel_left hsame
    obtain ⟨hupSame, hcut⟩ := append_inj hcut (length_map _)
    obtain ⟨htableSame, hcut⟩ := append_inj hcut ((length_map _).trans hlength.symm)
    obtain ⟨hdownSame, -⟩ := append_inj hcut (length_map _)
    obtain rfl := map_withCell_eq hupSame
    obtain rfl := map_withCell_eq hdownSame
    rw [append_nil]
    refine ⟨hfront, hrest, (appendable_iff htable).mpr fun i old hold => ?_⟩
    refine hcells i old (withCell old) hold ?_
    rw [← htableSame, getElem?_map, hold]
    rfl
  · rintro ⟨habove, hbelow, happend⟩
    have hupEmpty : up = [] := by
      rcases eq_nil_or_concat' up with hnil | ⟨others, last, rfl⟩
      · exact hnil
      · have hfalse := habove last (by rw [← append_assoc, getLast?_concat])
        rw [hup last (mem_append_right _ mem_cons_self)] at hfalse
        cases hfalse
    have hdownEmpty : down = [] := by
      cases down with
      | nil => rfl
      | cons first down =>
        have hfalse := hbelow first rfl
        rw [hdown first mem_cons_self] at hfalse
        cases hfalse
    rw [hupEmpty, hdownEmpty, nil_append, append_nil, append_nil, nil_append]
    refine ⟨table.map withCell, fun row hrow => hnew row ?_, table_withCell htable happend, length_map _, ?_, rfl⟩
    · rw [hupEmpty, hdownEmpty, nil_append, append_nil]
      exact mem_append_left _ (mem_append_right _ hrow)
    intro i old new hold hnewRow
    rw [getElem?_map, hold] at hnewRow
    cases hnewRow
    exact (appendable_iff htable).mp happend i old hold

end

/-! ## An editor -/

def plainEditor : TextEditor where
  lineAt doc pos :=
    let start := pos - ((doc.take pos).reverse.takeWhile (· != newline)).length
    let stop := pos + ((doc.drop pos).takeWhile (· != newline)).length
    ⟨start, stop, doc.slice start stop⟩
  update doc changes := Splice.together doc 0 changes

theorem takeWhile_line {back : JsString} (h : newline ∉ text) (hback : back = [] ∨ ∃ rest, back = newline :: rest) :
    (text ++ back).takeWhile (· != newline) = text := by
  have hnil : back.takeWhile (· != newline) = [] := by
    rcases hback with rfl | ⟨rest, rfl⟩
    · rfl
    · exact takeWhile_cons_of_neg (by simp)
  rw [takeWhile_append_of_pos, hnil, append_nil]
  intro c hc
  rw [bne_iff_ne]
  rintro rfl
  exact h hc

theorem plainEditor_lawful : LawfulEditor plainEditor := by
  refine ⟨fun before line after pos hlines hfrom hto => ?_, fun _ _ _ => rfl⟩
  have hline : newline ∉ line := hlines line (by simp)
  obtain ⟨tail, hdoc, htail⟩ : ∃ tail, joinLines (before ++ line :: after) = leading before ++ (line ++ tail) ∧
      (tail = [] ∨ ∃ rest, tail = newline :: rest) := by
    rw [joinLines_append before (by simp)]
    by_cases hafter : after = []
    · refine ⟨[], ?_, Or.inl rfl⟩
      rw [hafter]
      simp [joinLines, List.intercalate]
    · exact ⟨newline :: joinLines after, by rw [joinLines_cons line hafter], Or.inr ⟨_, rfl⟩⟩
  have hfront : (leading before).reverse = [] ∨ ∃ rest, (leading before).reverse = newline :: rest := by
    rcases eq_nil_or_concat' before with rfl | ⟨above, last, rfl⟩
    · exact Or.inl rfl
    · refine Or.inr ⟨(leading above ++ last).reverse, ?_⟩
      rw [leading_append]
      simp [leading]
  obtain ⟨k, rfl⟩ : ∃ k, pos = (leading before).length + k := ⟨pos - (leading before).length, by omega⟩
  have hk : k ≤ line.length := by omega
  have htake : (joinLines (before ++ line :: after)).take ((leading before).length + k) = leading before ++ line.take k := by
    rw [hdoc, take_length_add_append, take_append_of_le_length hk]
  have hdrop : (joinLines (before ++ line :: after)).drop ((leading before).length + k) = line.drop k ++ tail := by
    rw [hdoc, drop_length_add_append, drop_append_of_le_length hk]
  have hbefore : (((leading before ++ line.take k).reverse.takeWhile (· != newline))).length = k := by
    rw [reverse_append, takeWhile_line (fun hm => hline (mem_of_mem_take (mem_reverse.mp hm))) hfront,
      length_reverse, length_take, Nat.min_eq_left hk]
  have hafter : ((line.drop k ++ tail).takeWhile (· != newline)).length = line.length - k := by
    rw [takeWhile_line (fun hm => hline (mem_of_mem_drop hm)) htail, length_drop]
  have hstop : (leading before).length + k + (line.length - k) = (leading before).length + line.length := by omega
  have htext : (joinLines (before ++ line :: after)).slice (leading before).length ((leading before).length + line.length) =
      line := by
    rw [hdoc, slice, take_length_add_append, take_left, drop_left]
  unfold plainEditor
  dsimp only
  rw [htake, hdrop, hbefore, hafter, Nat.add_sub_cancel, hstop, htext]

/-! ## The commands -/

/-- The row and column commands leave a table exactly if the cursor's line counts its cells, every row has its outer
pipe, no data is taken for a delimiter row, and no line next to the table is taken for one of its rows. -/
theorem table_commands_iff {editor : TextEditor} (hlaw : LawfulEditor editor) (columns : Nat)
    (before above below after : List JsString) (line : JsString) (main : Nat)
    (hcursor : OnTable before above below after line main) (htable : IsTable columns (above ++ line :: below))
    (hmaximal : ∀ l, after.head? = some l → isTableLine l = true → (cellsOf l).length ≠ columns) :
    let doc := joinLines (before ++ (above ++ line :: below) ++ after)
    (RowAdded columns before (above ++ line :: below) after (updated editor doc (addTableRow editor doc main)) ↔
      (∀ l, after.head? = some l → isTableLine l = false) ∧ CountsCells columns line) ∧
    (ColumnAdded columns before (above ++ line :: below) after (updated editor doc (addTableColumn editor doc main)) ↔
      (∀ l, before.getLast? = some l → isTableLine l = false) ∧ (∀ l, after.head? = some l → isTableLine l = false) ∧
        Appendable (above ++ line :: below)) :=
  ⟨row_added_iff hlaw hcursor htable hmaximal, column_added_iff hlaw hcursor htable⟩

theorem two_columns : IsTable 2 ([] ++ ofString "|A|B|" :: [ofString "|-|-|"]) ∧
    OnTable [] [] [ofString "|-|-|"] [] (ofString "|A|B|") 0 :=
  ⟨⟨by decide, by decide, by decide, ofString "|-|-|", by decide, by decide⟩, ⟨by decide, by decide, by decide, by decide⟩⟩

theorem commands_two_columns :
    let doc := joinLines ([] ++ ([] ++ ofString "|A|B|" :: [ofString "|-|-|"]) ++ [])
    RowAdded 2 [] ([] ++ ofString "|A|B|" :: [ofString "|-|-|"]) []
        (updated plainEditor doc (addTableRow plainEditor doc 0)) ↔
      (∀ l, ([] : List JsString).head? = some l → isTableLine l = false) ∧ CountsCells 2 (ofString "|A|B|") :=
  (table_commands_iff plainEditor_lawful 2 [] [] [ofString "|-|-|"] [] (ofString "|A|B|") 0 two_columns.2 two_columns.1
    (by simp)).1

theorem open_columns : IsTable 2 ([] ++ ofString "|A|B" :: [ofString "|-|-"]) ∧
    OnTable [] [] [ofString "|-|-"] [] (ofString "|A|B") 0 :=
  ⟨⟨by decide, by decide, by decide, ofString "|-|-", by decide, by decide⟩, ⟨by decide, by decide, by decide, by decide⟩⟩

/-- A header row without its outer pipe gets a row of one cell below two columns. -/
theorem open_row_miscounted : ¬ ∀ editor, LawfulEditor editor → ∀ columns before above below after line main,
    OnTable before above below after line main → IsTable columns (above ++ line :: below) →
      (∀ l, after.head? = some l → isTableLine l = true → (cellsOf l).length ≠ columns) →
        let doc := joinLines (before ++ (above ++ line :: below) ++ after)
        RowAdded columns before (above ++ line :: below) after (updated editor doc (addTableRow editor doc main)) ∧
          ColumnAdded columns before (above ++ line :: below) after
            (updated editor doc (addTableColumn editor doc main)) := by
  intro h
  have hboth := h plainEditor plainEditor_lawful 2 [] [] [ofString "|-|-"] [] (ofString "|A|B") 0 open_columns.2
    open_columns.1 (by simp)
  have hcounts := (row_added_iff plainEditor_lawful open_columns.2 open_columns.1 (by simp)).mp hboth.1
  exact absurd hcounts.2 (by unfold CountsCells; decide)

end Marks.PipeTables
