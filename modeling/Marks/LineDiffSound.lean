import Mathlib.Data.List.Chain
import Marks.LineDiff
import Marks.LinesSound

/-! # The difference is an edit script

The loop over the table follows a script that keeps a longest common subsequence. Whatever is pushed, the chunks have
its lines in its order. -/

namespace Marks

open JsString List

/-! ## Chunks -/

abbrev ScriptLine := ChunkKind × JsString

def pushAll (chunks : List LineDiffChunk) (script : List ScriptLine) : List LineDiffChunk :=
  script.foldl (fun chunks step => pushChunk chunks step.1 step.2) chunks

def scriptOf (chunks : List LineDiffChunk) : List ScriptLine :=
  chunks.flatMap fun chunk => chunk.lines.map fun line => (chunk.kind, line)

structure Chunked (chunks : List LineDiffChunk) : Prop where
  filled : ∀ chunk ∈ chunks, chunk.lines ≠ []
  different : chunks.IsChain fun a b => a.kind ≠ b.kind

def linesBut (kind : ChunkKind) (chunks : List LineDiffChunk) : List JsString :=
  (chunks.filter fun chunk => chunk.kind != kind).flatMap (·.lines)

def scriptBut (kind : ChunkKind) (script : List ScriptLine) : List JsString :=
  (script.filter fun step => step.1 != kind).map (·.2)

theorem linesBut_eq (kind : ChunkKind) (chunks : List LineDiffChunk) :
    linesBut kind chunks = scriptBut kind (scriptOf chunks) := by
  induction chunks with
  | nil => rfl
  | cons chunk chunks ih =>
    have hsplit : scriptOf (chunk :: chunks) = (chunk.lines.map fun line => (chunk.kind, line)) ++ scriptOf chunks := rfl
    have hfirst : scriptBut kind (chunk.lines.map fun line => (chunk.kind, line)) =
        if chunk.kind != kind then chunk.lines else [] := by
      unfold scriptBut
      have hkinds : ((fun step : ScriptLine => step.1 != kind) ∘ fun line => (chunk.kind, line)) =
          fun _ => chunk.kind != kind := rfl
      rw [filter_map, map_map, hkinds]
      by_cases hkind : chunk.kind != kind
      · rw [if_pos hkind, filter_eq_self.mpr (fun _ _ => hkind)]
        exact map_id _
      · rw [if_neg hkind, filter_eq_nil_iff.mpr (fun _ _ => hkind)]
        rfl
    have happend : ∀ a b, scriptBut kind (a ++ b) = scriptBut kind a ++ scriptBut kind b := by
      intro a b
      rw [scriptBut, filter_append, map_append]
      rfl
    rw [hsplit, happend, hfirst, ← ih, linesBut, filter_cons]
    by_cases hkind : chunk.kind != kind
    · rw [if_pos hkind, if_pos hkind]
      rfl
    · rw [if_neg hkind, if_neg hkind]
      rfl

theorem pushChunk_script (chunks : List LineDiffChunk) (kind : ChunkKind) (line : JsString) :
    scriptOf (pushChunk chunks kind line) = scriptOf chunks ++ [(kind, line)] := by
  have happend : ∀ a b, scriptOf (a ++ b) = scriptOf a ++ scriptOf b := fun a b => flatMap_append
  have hnew : scriptOf [⟨kind, [line]⟩] = [(kind, line)] := rfl
  unfold pushChunk
  cases hlast : chunks.getLast? with
  | none =>
    dsimp only
    rw [happend, hnew]
  | some last =>
    dsimp only
    by_cases hkind : last.kind = kind
    · obtain ⟨start, rfl⟩ := getLast?_eq_some_iff.mp hlast
      rw [if_pos hkind, dropLast_concat, happend, happend, append_assoc, ← hkind]
      simp [scriptOf]
    · rw [if_neg hkind, happend, hnew]

variable {chunks : List LineDiffChunk}

theorem Chunked.push (h : Chunked chunks) (kind : ChunkKind) (line : JsString) :
    Chunked (pushChunk chunks kind line) := by
  obtain ⟨hfilled, hdifferent⟩ := h
  unfold pushChunk
  cases hlast : chunks.getLast? with
  | none =>
    rw [getLast?_eq_none_iff.mp hlast]
    exact ⟨by simp, List.IsChain.singleton _⟩
  | some last =>
    dsimp only
    obtain ⟨start, rfl⟩ := getLast?_eq_some_iff.mp hlast
    by_cases hkind : last.kind = kind
    · rw [if_pos hkind, dropLast_concat]
      refine ⟨fun chunk hchunk => ?_, ?_⟩
      · rcases mem_append.mp hchunk with hchunk | hchunk
        · exact hfilled chunk (by simp [hchunk])
        · rw [mem_singleton.mp hchunk]
          simp
      · rw [isChain_append] at hdifferent ⊢
        refine ⟨hdifferent.1, List.IsChain.singleton _, fun a ha b hb => ?_⟩
        have hb' : b = { last with lines := last.lines ++ [line] } := by simpa using hb.symm
        rw [hb']
        exact hdifferent.2.2 a ha last (by simp)
    · rw [if_neg hkind]
      refine ⟨fun chunk hchunk => ?_, ?_⟩
      · rcases mem_append.mp hchunk with hchunk | hchunk
        · exact hfilled chunk hchunk
        · rw [mem_singleton.mp hchunk]
          simp
      · rw [isChain_append]
        refine ⟨hdifferent, List.IsChain.singleton _, fun a ha b hb => ?_⟩
        have hb' : b = ⟨kind, [line]⟩ := by simpa using hb.symm
        have ha' : a = last := by simpa using ha.symm
        rw [hb', ha']
        exact hkind

theorem pushAll_spec (script : List ScriptLine) (h : Chunked chunks) :
    Chunked (pushAll chunks script) ∧ scriptOf (pushAll chunks script) = scriptOf chunks ++ script := by
  induction script generalizing chunks with
  | nil => exact ⟨h, (append_nil _).symm⟩
  | cons step script ih =>
    obtain ⟨hchunked, hscript⟩ := ih (h.push step.1 step.2)
    refine ⟨hchunked, ?_⟩
    have hunfold : pushAll chunks (step :: script) = pushAll (pushChunk chunks step.1 step.2) script := rfl
    rw [hunfold, hscript, pushChunk_script, append_assoc]
    rfl

theorem chunked_nil : Chunked [] := ⟨by simp, List.IsChain.nil⟩

theorem pushAll_append (chunks : List LineDiffChunk) (first second : List ScriptLine) :
    pushAll chunks (first ++ second) = pushAll (pushAll chunks first) second := foldl_append

theorem pushChunks_eq (chunks : List LineDiffChunk) (kind : ChunkKind) (all : List JsString) :
    pushChunks chunks kind all = pushAll chunks (all.map fun line => (kind, line)) := by
  rw [pushChunks, pushAll, foldl_map]

/-! ## The table -/

theorem tails_head (right : List JsString) (f : List JsString → Nat) : (right.tails.map f).headD 0 = f right := by
  cases right <;> rfl

theorem fillRow_eq (line : JsString) (left right : List JsString) :
    fillRow line right (right.tails.map (lcsLength left)) = right.tails.map (lcsLength (line :: left)) := by
  induction right with
  | nil =>
    show [0] = [lcsLength (line :: left) []]
    rw [lcsLength_nil_right]
  | cons other right ih =>
    have htails : (other :: right).tails = (other :: right) :: right.tails := tails_cons _ _
    have hunfold : ∀ below, fillRow line (other :: right) below =
        (if line = other then below.tail.headD 0 + 1
          else max (below.headD 0) ((fillRow line right below.tail).headD 0)) :: fillRow line right below.tail :=
      fun below => rfl
    rw [htails, map_cons, map_cons, hunfold, tail_cons, ih, tails_head, tails_head, headD_cons]
    congr 1
    by_cases heq : line = other
    · rw [if_pos heq, heq, lcsLength_same]
    · rw [if_neg heq, lcsLength_different heq]

theorem fillRows_eq (left right : List JsString) :
    fillRows right left = left.tails.map fun rest => right.tails.map (lcsLength rest) := by
  induction left with
  | nil =>
    have hnil : right.tails.map (lcsLength ([] : List JsString)) = List.replicate (right.length + 1) 0 := by
      rw [eq_replicate_iff, length_map, length_tails]
      refine ⟨rfl, fun n hn => ?_⟩
      obtain ⟨rest, -, rfl⟩ := mem_map.mp hn
      exact lcsLength_nil_left rest
    show [List.replicate (right.length + 1) 0] = [right.tails.map (lcsLength [])]
    rw [hnil]
  | cons line left ih =>
    have hunfold : fillRows right (line :: left) = fillRow line right ((fillRows right left).headD []) :: fillRows right left :=
      rfl
    have hhead : (left.tails.map fun rest => right.tails.map (lcsLength rest)).headD [] = right.tails.map (lcsLength left) := by
      cases left <;> rfl
    rw [hunfold, ih, hhead, fillRow_eq]
    rfl

variable {i j : Nat}

theorem tableCell_eq {left right : List JsString} (hi : i ≤ left.length) (hj : j ≤ right.length) :
    tableCell (fillRows right left) i j = lcsLength (left.drop i) (right.drop j) := by
  have htails : ∀ (list : List JsString) (k : Nat), k ≤ list.length → list.tails[k]? = some (list.drop k) := by
    intro list k hk
    rw [getElem?_eq_getElem (by rw [length_tails]; omega), getElem_tails]
  have hrow : (left.tails.map fun rest => right.tails.map (lcsLength rest)).getD i [] =
      right.tails.map (lcsLength (left.drop i)) := by
    rw [getD_eq_getElem?_getD, getElem?_map, htails left i hi]
    rfl
  rw [tableCell, fillRows_eq, hrow, getD_eq_getElem?_getD, getElem?_map, htails right j hj]
  rfl

/-! ## The script of the table -/

def lineScript : List JsString → List JsString → List ScriptLine
  | [], right => right.map fun line => (.added, line)
  | a :: left, [] => (a :: left).map fun line => (.removed, line)
  | a :: left, b :: right =>
    if a = b then (.equal, a) :: lineScript left right
    else if lcsLength left (b :: right) < lcsLength (a :: left) right then (.added, b) :: lineScript (a :: left) right
    else (.removed, a) :: lineScript left (b :: right)
termination_by left right => left.length + right.length

section
variable {left right : List JsString} {a b : JsString}

theorem lineScript_nil_left (right : List JsString) : lineScript [] right = right.map fun line => (.added, line) := by
  rw [lineScript]

theorem lineScript_nil_right (left : List JsString) : lineScript left [] = left.map fun line => (.removed, line) := by
  cases left with
  | nil =>
    rw [lineScript]
    rfl
  | cons a left => rw [lineScript]

theorem lineScript_same (a : JsString) (left right : List JsString) :
    lineScript (a :: left) (a :: right) = (.equal, a) :: lineScript left right := by
  rw [lineScript, if_pos rfl]

theorem lineScript_added (h : a ≠ b) (hless : lcsLength left (b :: right) < lcsLength (a :: left) right) :
    lineScript (a :: left) (b :: right) = (.added, b) :: lineScript (a :: left) right := by
  rw [lineScript, if_neg h, if_pos hless]

theorem lineScript_removed (h : a ≠ b) (hless : ¬ lcsLength left (b :: right) < lcsLength (a :: left) right) :
    lineScript (a :: left) (b :: right) = (.removed, a) :: lineScript left (b :: right) := by
  rw [lineScript, if_neg h, if_neg hless]

theorem drop_cases (list : List JsString) (i : Nat) :
    (list.length ≤ i ∧ list.drop i = [] ∧ list[i]? = none) ∨
      (i < list.length ∧ ∃ line, list[i]? = some line ∧ list.getD i [] = line ∧
        list.drop i = line :: list.drop (i + 1)) := by
  by_cases hi : i < list.length
  · refine Or.inr ⟨hi, list[i], getElem?_eq_getElem hi, ?_, drop_eq_getElem_cons hi⟩
    rw [getD_eq_getElem?_getD, getElem?_eq_getElem hi]
    rfl
  · exact Or.inl ⟨by omega, drop_eq_nil_of_le (by omega), getElem?_eq_none (by omega)⟩

theorem diffTable_eq (chunks : List LineDiffChunk) (hi : i ≤ left.length) (hj : j ≤ right.length) :
    diffTable (fillRows right left) left right i j chunks =
      pushAll chunks (lineScript (left.drop i) (right.drop j)) := by
  induction i, j, chunks using diffTable.induct (fillRows right left) left right with
  | case1 i j chunks hmore hsame ih =>
    obtain ⟨hil, hjr, heq⟩ := hsame
    rw [diffTable, if_pos hmore, if_pos ⟨hil, hjr, heq⟩, ih (by omega) (by omega)]
    rcases drop_cases left i with ⟨hend, -⟩ | ⟨-, line, hline, hget, hleft⟩
    · omega
    rcases drop_cases right j with ⟨hend, -⟩ | ⟨-, other, hother, -, hright⟩
    · omega
    rw [hline, hother] at heq
    cases heq
    rw [hleft, hright, lineScript_same, hget]
    rfl
  | case2 i j chunks hmore hdifferent hadd ih =>
    rw [diffTable, if_pos hmore, if_neg hdifferent, if_pos hadd, ih (by omega) (by omega)]
    obtain ⟨hjr, hor⟩ := hadd
    rcases drop_cases right j with ⟨hend, -⟩ | ⟨-, other, hother, hget, hright⟩
    · omega
    rcases drop_cases left i with ⟨hend, hnil, -⟩ | ⟨hil, line, hline, -, hleft⟩
    · rw [hnil, hright, lineScript_nil_left, lineScript_nil_left, hget]
      rfl
    have hless := hor.resolve_left (by omega)
    rw [tableCell_eq (by omega) (by omega), tableCell_eq (by omega) (by omega), hleft, hright] at hless
    have hne : line ≠ other := by
      rintro rfl
      exact hdifferent ⟨hil, hjr, hline.trans hother.symm⟩
    rw [hleft, hright, lineScript_added hne hless, hget]
    rfl
  | case3 i j chunks hmore hdifferent hadd ih =>
    have hil : i < left.length := by
      by_contra hend
      exact hadd ⟨by omega, Or.inl (by omega)⟩
    rw [diffTable, if_pos hmore, if_neg hdifferent, if_neg hadd, ih (by omega) (by omega)]
    rcases drop_cases left i with ⟨hend, -⟩ | ⟨-, line, hline, hget, hleft⟩
    · omega
    rcases drop_cases right j with ⟨hend, hnil, -⟩ | ⟨hjr, other, hother, -, hright⟩
    · rw [hnil, hleft, lineScript_nil_right, lineScript_nil_right, hget]
      rfl
    have hne : line ≠ other := by
      rintro rfl
      exact hdifferent ⟨hil, hjr, hline.trans hother.symm⟩
    have hless : ¬ lcsLength (left.drop (i + 1)) (other :: right.drop (j + 1)) <
        lcsLength (line :: left.drop (i + 1)) (right.drop (j + 1)) := by
      intro hless
      refine hadd ⟨hjr, Or.inr ?_⟩
      rw [tableCell_eq (by omega) (by omega), tableCell_eq (by omega) (by omega), hleft, hright]
      exact hless
    rw [hleft, hright, lineScript_removed hne hless, hget]
    rfl
  | case4 i j chunks hmore =>
    rw [not_or] at hmore
    rw [diffTable, if_neg (not_or.mpr hmore), drop_eq_nil_of_le (by omega), drop_eq_nil_of_le (by omega),
      lineScript_nil_left]
    rfl

theorem scriptBut_cons (kind : ChunkKind) (step : ScriptLine) (script : List ScriptLine) :
    scriptBut kind (step :: script) = (if step.1 = kind then [] else [step.2]) ++ scriptBut kind script := by
  unfold scriptBut
  rw [filter_cons]
  by_cases hkind : step.1 = kind
  · rw [if_pos hkind, if_neg (by simp [hkind])]
    rfl
  · rw [if_neg hkind, if_pos (by simp [hkind])]
    rfl

theorem scriptBut_same (kind : ChunkKind) (all : List JsString) : scriptBut kind (all.map fun line => (kind, line)) = [] := by
  simp [scriptBut]

theorem scriptBut_other {kind other : ChunkKind} (h : other ≠ kind) (all : List JsString) :
    scriptBut kind (all.map fun line => (other, line)) = all := by
  induction all with
  | nil => rfl
  | cons line all ih => rw [map_cons, scriptBut_cons, if_neg h, ih, singleton_append]

theorem lineScript_spec (left right : List JsString) : scriptBut .added (lineScript left right) = left ∧
    scriptBut .removed (lineScript left right) = right ∧
    ((lineScript left right).filter fun step => step.1 == .equal).length = lcsLength left right := by
  induction left, right using lineScript.induct with
  | case1 right =>
    rw [lineScript_nil_left, lcsLength_nil_left]
    exact ⟨scriptBut_same _ _, scriptBut_other (by decide) _, by simp⟩
  | case2 a left =>
    rw [lineScript_nil_right, lcsLength_nil_right]
    exact ⟨scriptBut_other (by decide) _, scriptBut_same _ _, by simp⟩
  | case3 left b right ih =>
    obtain ⟨hleft, hright, hequal⟩ := ih
    rw [lineScript_same, lcsLength_same, scriptBut_cons, scriptBut_cons, hleft, hright]
    refine ⟨rfl, rfl, ?_⟩
    rw [← hequal]
    simp
  | case4 a left b right hne hless ih =>
    obtain ⟨hleft, hright, hequal⟩ := ih
    rw [lineScript_added hne hless, lcsLength_different hne, Nat.max_eq_right (Nat.le_of_lt hless), scriptBut_cons,
      scriptBut_cons, hleft, hright]
    refine ⟨rfl, rfl, ?_⟩
    rw [← hequal]
    simp
  | case5 a left b right hne hless ih =>
    obtain ⟨hleft, hright, hequal⟩ := ih
    rw [lineScript_removed hne hless, lcsLength_different hne, Nat.max_eq_left (Nat.le_of_not_lt hless), scriptBut_cons,
      scriptBut_cons, hleft, hright]
    refine ⟨rfl, rfl, ?_⟩
    rw [← hequal]
    simp

end

/-! ## Both paths -/

def equalLines (chunks : List LineDiffChunk) : List JsString :=
  (chunks.filter fun chunk => chunk.kind == .equal).flatMap (·.lines)

def LongestCommon (length : Nat) (left right : List JsString) : Prop :=
  (∃ common : List JsString, common.Sublist left ∧ common.Sublist right ∧ common.length = length) ∧
    ∀ common : List JsString, common.Sublist left → common.Sublist right → common.length ≤ length

structure EditScript (before after : JsString) (chunks : List LineDiffChunk) : Prop where
  chunked : Chunked chunks
  before_eq : joinLines (linesBut .added chunks) = before
  after_eq : joinLines (linesBut .removed chunks) = after

theorem equalLines_eq (chunks : List LineDiffChunk) :
    equalLines chunks = ((scriptOf chunks).filter fun step => step.1 == .equal).map (·.2) := by
  induction chunks with
  | nil => rfl
  | cons chunk chunks ih =>
    have hsplit : scriptOf (chunk :: chunks) = (chunk.lines.map fun line => (chunk.kind, line)) ++ scriptOf chunks := rfl
    have hkinds : ((fun step : ScriptLine => step.1 == .equal) ∘ fun line => (chunk.kind, line)) =
        fun _ => chunk.kind == .equal := rfl
    rw [hsplit, filter_append, map_append, ← ih, filter_map, map_map, hkinds, equalLines,
      filter_cons]
    by_cases hkind : chunk.kind == .equal
    · rw [if_pos hkind, filter_eq_self.mpr (fun _ _ => hkind), flatMap_cons]
      congr 1
      exact (map_id _).symm
    · rw [if_neg hkind, filter_eq_nil_iff.mpr (fun _ _ => hkind)]
      rfl

theorem sublist_equal {kind : ChunkKind} (h : kind ≠ .equal) (script : List ScriptLine) :
    ((script.filter fun step => step.1 == .equal).map (·.2)).Sublist (scriptBut kind script) := by
  refine List.Sublist.map _ ?_
  induction script with
  | nil => exact List.Sublist.refl _
  | cons step script ih =>
    rw [filter_cons, filter_cons]
    by_cases hequal : step.1 == .equal
    · have hother : step.1 != kind := by
        rw [beq_iff_eq] at hequal
        rw [hequal, bne_iff_ne]
        exact Ne.symm h
      rw [if_pos hequal, if_pos hother]
      exact ih.cons_cons _
    · rw [if_neg hequal]
      by_cases hother : step.1 != kind
      · rw [if_pos hother]
        exact ih.cons _
      · rw [if_neg hother]
        exact ih

theorem editScript_of {before after : JsString} {script : List ScriptLine} (hleft : scriptBut .added script = lines before)
    (hright : scriptBut .removed script = lines after) : EditScript before after (pushAll [] script) := by
  obtain ⟨hchunked, hscript⟩ := pushAll_spec script chunked_nil
  have hall : scriptOf (pushAll [] script) = script := hscript
  refine ⟨hchunked, ?_, ?_⟩
  · rw [linesBut_eq, hall, hleft, joinLines_lines]
  · rw [linesBut_eq, hall, hright, joinLines_lines]

theorem diffEnds_eq (left right : List JsString) : ∃ script, diffEnds left right = pushAll [] script ∧
    scriptBut .added script = left ∧ scriptBut .removed script = right := by
  have hstart := @commonPrefix_le _ _ left right
  have hlast := @commonSuffix_le _ _ left right (commonPrefix left right)
  have hsame := @take_commonPrefix _ _ left right
  have hbehind := drop_commonSuffix hstart.1 hstart.2
  unfold diffEnds
  dsimp only
  generalize commonPrefix left right = start at *
  generalize commonSuffix start left right = last at *
  have hmiddle : ∀ list : List JsString, start ≤ list.length → last ≤ list.length - start →
      list.take start ++ ((list.take (list.length - last)).drop start ++ list.drop (list.length - last)) = list := by
    intro list hfrom hto
    have hfirst : list.take start = (list.take (list.length - last)).take start := by
      rw [take_take, Nat.min_eq_left (by omega)]
    rw [hfirst, ← append_assoc, take_append_drop, take_append_drop]
  refine ⟨(left.take start).map (fun line => (.equal, line)) ++
    (((left.take (left.length - last)).drop start).map (fun line => (.removed, line)) ++
    (((right.take (right.length - last)).drop start).map (fun line => (.added, line)) ++
      (left.drop (left.length - last)).map fun line => (.equal, line))), ?_, ?_, ?_⟩
  · rw [pushAll_append, pushAll_append, pushAll_append, ← pushChunks_eq, ← pushChunks_eq, ← pushChunks_eq, ← pushChunks_eq]
  · have happend : ∀ a b, scriptBut .added (a ++ b) = scriptBut .added a ++ scriptBut .added b := by
      intro a b
      rw [scriptBut, filter_append, map_append]
      rfl
    rw [happend, happend, happend, scriptBut_other (by decide), scriptBut_other (by decide), scriptBut_same,
      scriptBut_other (by decide), nil_append, hmiddle left hstart.1 hlast.1]
  · have happend : ∀ a b, scriptBut .removed (a ++ b) = scriptBut .removed a ++ scriptBut .removed b := by
      intro a b
      rw [scriptBut, filter_append, map_append]
      rfl
    rw [happend, happend, happend, scriptBut_other (by decide), scriptBut_same, scriptBut_other (by decide),
      scriptBut_other (by decide), nil_append, hsame, hbehind, hmiddle right hstart.2 hlast.2]

/-- The difference of two texts is an edit script, and one that keeps the most where there is a table. -/
theorem lineDiff_faithful (before after : JsString) : EditScript before after (lineDiff before after) ∧
    ((lines before).length * (lines after).length ≤ maxTableCells →
      LongestCommon (equalLines (lineDiff before after)).length (lines before) (lines after)) := by
  unfold lineDiff
  dsimp only
  by_cases hlarge : maxTableCells < (lines before).length * (lines after).length
  · rw [if_pos hlarge]
    obtain ⟨script, hscript, hleft, hright⟩ := diffEnds_eq (lines before) (lines after)
    rw [hscript]
    exact ⟨editScript_of hleft hright, fun hsmall => absurd hsmall (Nat.not_le_of_gt hlarge)⟩
  · rw [if_neg hlarge, diffTable_eq [] (Nat.zero_le _) (Nat.zero_le _), drop_zero, drop_zero]
    obtain ⟨hleft, hright, hequal⟩ := lineScript_spec (lines before) (lines after)
    refine ⟨editScript_of hleft hright, fun _ => ?_⟩
    have hall : scriptOf (pushAll [] (lineScript (lines before) (lines after))) = lineScript (lines before) (lines after) :=
      (pushAll_spec _ chunked_nil).2
    have hlength : (equalLines (pushAll [] (lineScript (lines before) (lines after)))).length =
        lcsLength (lines before) (lines after) := by
      rw [equalLines_eq, hall, length_map, hequal]
    refine ⟨⟨equalLines (pushAll [] (lineScript (lines before) (lines after))), ?_, ?_, rfl⟩, fun common hl hr => ?_⟩
    · rw [equalLines_eq, hall]
      have hkept := sublist_equal (by decide : ChunkKind.added ≠ .equal) (lineScript (lines before) (lines after))
      rw [hleft] at hkept
      exact hkept
    · rw [equalLines_eq, hall]
      have hkept := sublist_equal (by decide : ChunkKind.removed ≠ .equal) (lineScript (lines before) (lines after))
      rw [hright] at hkept
      exact hkept
    · rw [hlength]
      exact length_le_lcsLength hl hr

end Marks
