import Marks.Operations
import Marks.ReportSound

/-! # Lines that are shifted

The shift finds its headings with an expression of its own, whose lines also end at the other line terminators. What it
changes is said here line by line. -/

namespace Marks

open JsString List

/-! ## Marks of a line -/

variable {line behind : JsString} {indent level : Nat}

theorem hashesAt_eq_some :
    hashesAt line = some (indent, level, behind) ↔
      atxMarks line = some (indent, level, behind) ∧ 1 ≤ run isGap behind := by
  rw [hashesAt, Option.filter_eq_some_iff]
  simp
  intro _
  exact Iff.rfl

theorem gap_cons (h : 1 ≤ run isGap behind) : ∃ c rest, behind = c :: rest ∧ isGap c = true := by
  cases behind with
  | nil => exact absurd h (by simp [run])
  | cons c rest =>
    cases hc : isGap c with
    | true => exact ⟨c, rest, rfl, hc⟩
    | false =>
      rw [run_zero hc] at h
      exact absurd h (by omega)

variable {c : UInt16}

theorem run_gap_cons {rest : JsString} (h : isGap c = true) : 1 ≤ run isGap (c :: rest) := by
  rw [run, takeWhile_cons_of_pos h, length_cons]
  omega

theorem hashesAt_append
    (h : hashesAt line = some (indent, level, behind)) (more : JsString) :
    hashesAt (line ++ more) = some (indent, level, behind ++ more) := by
  obtain ⟨hmarks, hgap⟩ := hashesAt_eq_some.mp h
  obtain ⟨c, rest, rfl, hc⟩ := gap_cons hgap
  exact hashesAt_eq_some.mpr ⟨atxMarks_append hmarks (by simp) more, run_gap_cons hc⟩

theorem hashesAt_terminator {more : JsString} (hc : isLineTerminator c = true)
    (h : hashesAt line = none) : hashesAt (line ++ c :: more) = none := by
  cases hwhole : hashesAt (line ++ c :: more) with
  | none => rfl
  | some found =>
    exfalso
    obtain ⟨indent, level, behind⟩ := found
    obtain ⟨hmarks, hgap⟩ := hashesAt_eq_some.mp hwhole
    obtain ⟨hsplit, hindent, hpos, hle, hhead⟩ := atxMarks_eq_some.mp hmarks
    obtain ⟨g, rest, rfl, hg⟩ := gap_cons hgap
    -- the marks and the gap are in front of the terminator
    have hfront : ∃ tail, line = (List.replicate indent 32 ++ List.replicate level 35 ++ [g]) ++ tail := by
      have hplain : (List.replicate indent (32 : UInt16) ++ List.replicate level 35 ++ [g]).all
          (!isLineTerminator ·) = true := by
        refine all_eq_true.mpr fun d hd => ?_
        rcases mem_append.mp hd with hd | hd
        · rcases mem_append.mp hd with hd | hd
          · rw [eq_of_mem_replicate hd]
            rfl
          · rw [eq_of_mem_replicate hd]
            rfl
        · rw [mem_singleton.mp hd, gap_unbroken hg]
          rfl
      have hsplit' : line ++ c :: more = (List.replicate indent 32 ++ List.replicate level 35 ++ [g]) ++ rest := by
        rw [hsplit]
        simp
      rcases append_eq_append_iff.mp hsplit' with ⟨a, ha, hb⟩ | ⟨a, ha, hb⟩
      · cases a with
        | nil => exact ⟨[], by rw [append_nil] at ha ⊢; exact ha.symm⟩
        | cons d a =>
          obtain ⟨rfl, -⟩ := List.cons.inj hb
          have hmem := all_eq_true.mp hplain c (by rw [ha]; simp)
          rw [hc] at hmem
          cases hmem
      · exact ⟨a, ha⟩
    obtain ⟨tail, htail⟩ := hfront
    have hline : hashesAt line = some (indent, level, g :: tail) := by
      refine hashesAt_eq_some.mpr ⟨atxMarks_eq_some.mpr ⟨by rw [htail]; simp, hindent, hpos, hle, ?_⟩, run_gap_cons hg⟩
      exact hhead
    rw [h] at hline
    cases hline

/-! ### Levels -/

def opposite : ShiftDirection → ShiftDirection
  | .promote => .demote
  | .demote => .promote

def InRange (direction : ShiftDirection) (level : Nat) : Prop :=
  1 ≤ shiftedLevel direction level ∧ shiftedLevel direction level ≤ 6

theorem shiftedLevel_opposite {direction : ShiftDirection} (h : InRange direction level) :
    shiftedLevel (opposite direction) (shiftedLevel direction level) = level := by
  cases direction with
  | promote =>
    have hpos : 1 ≤ level - 1 := h.1
    show level - 1 + 1 = level
    omega
  | demote => rfl

theorem opposite_inRange {direction : ShiftDirection} (h : InRange direction level) (hpos : 1 ≤ level)
    (hle : level ≤ 6) : InRange (opposite direction) (shiftedLevel direction level) := by
  unfold InRange
  rw [shiftedLevel_opposite h]
  exact ⟨hpos, hle⟩

def Marked (direction : ShiftDirection) (line : JsString) : Prop :=
  ∃ indent level behind, hashesAt line = some (indent, level, behind) ∧ InRange direction level

theorem shiftLine_eq {direction : ShiftDirection}
    (h : hashesAt line = some (indent, level, behind)) (hrange : InRange direction level) :
    shiftLine direction line =
      List.replicate indent 32 ++ (List.replicate (shiftedLevel direction level) 35 ++ behind) := by
  obtain ⟨hmarks, -⟩ := hashesAt_eq_some.mp h
  obtain ⟨hline, -⟩ := atxMarks_eq_some.mp hmarks
  have hnot : ¬ (shiftedLevel direction level < 1 ∨ 6 < shiftedLevel direction level) := by
    have := hrange.1
    have := hrange.2
    omega
  have htake : line.take indent = List.replicate indent 32 := by
    rw [hline, take_append_of_le_length (by simp), take_of_length_le (by simp)]
  unfold shiftLine
  rw [h]
  dsimp only
  rw [if_neg hnot, htake, append_assoc]

theorem shiftLine_none {direction : ShiftDirection} (h : hashesAt line = none) :
    shiftLine direction line = line := by
  unfold shiftLine
  rw [h]

theorem hashesAt_shiftLine {direction : ShiftDirection}
    (h : hashesAt line = some (indent, level, behind)) (hrange : InRange direction level) :
    hashesAt (shiftLine direction line) = some (indent, shiftedLevel direction level, behind) := by
  obtain ⟨hmarks, hgap⟩ := hashesAt_eq_some.mp h
  obtain ⟨-, hindent, -, -, hhead⟩ := atxMarks_eq_some.mp hmarks
  rw [shiftLine_eq h hrange]
  exact hashesAt_eq_some.mpr ⟨atxMarks_eq_some.mpr ⟨rfl, hindent, hrange.1, hrange.2, hhead⟩, hgap⟩

theorem Marked.opposite {direction : ShiftDirection} (h : Marked direction line) :
    Marked (opposite direction) (shiftLine direction line) ∧
      shiftLine (Marks.opposite direction) (shiftLine direction line) = line := by
  obtain ⟨indent, level, behind, hline, hrange⟩ := h
  obtain ⟨hmarks, -⟩ := hashesAt_eq_some.mp hline
  obtain ⟨hsplit, -, hpos, hle, -⟩ := atxMarks_eq_some.mp hmarks
  have hshifted := hashesAt_shiftLine hline hrange
  have hback := opposite_inRange hrange hpos hle
  refine ⟨⟨_, _, _, hshifted, hback⟩, ?_⟩
  rw [shiftLine_eq hshifted hback, shiftedLevel_opposite hrange]
  exact hsplit.symm

theorem shiftLine_append {direction : ShiftDirection} (h : Marked direction line) (more : JsString) :
    shiftLine direction (line ++ more) = shiftLine direction line ++ more := by
  obtain ⟨indent, level, behind, hline, hrange⟩ := h
  rw [shiftLine_eq hline hrange, shiftLine_eq (hashesAt_append hline more) hrange]
  simp

theorem Marked.append {direction : ShiftDirection} (h : Marked direction line) (more : JsString) :
    Marked direction (line ++ more) := by
  obtain ⟨indent, level, behind, hline, hrange⟩ := h
  exact ⟨_, _, _, hashesAt_append hline more, hrange⟩

/-! ## Lines with shifted ones -/

def Grown (direction : ShiftDirection) (before after count : Nat) : Prop :=
  match direction with
  | .promote => after + count = before
  | .demote => after = before + count

variable {a b m n : Nat}

theorem Grown.add {direction : ShiftDirection} {c d : Nat} (h : Grown direction a b m) (h' : Grown direction c d n) :
    Grown direction (a + c) (b + d) (m + n) := by
  cases direction with
  | promote =>
    have h : b + m = a := h
    have h' : d + n = c := h'
    show b + d + (m + n) = a + c
    omega
  | demote =>
    have h : b = a + m := h
    have h' : d = c + n := h'
    show b + d = a + c + (m + n)
    omega

theorem grown_zero {direction : ShiftDirection} (a : Nat) : Grown direction a a 0 := by
  cases direction <;> rfl

theorem Grown.count_eq {direction : ShiftDirection} (h : Grown direction a b m) (h' : Grown direction a b n) :
    m = n := by
  cases direction with
  | promote =>
    have h : b + m = a := h
    have h' : b + n = a := h'
    omega
  | demote =>
    have h : b = a + m := h
    have h' : b = a + n := h'
    omega

theorem shiftLine_grown {direction : ShiftDirection} (h : Marked direction line) :
    Grown direction line.length (shiftLine direction line).length 1 := by
  obtain ⟨indent, level, behind, hline, hrange⟩ := h
  obtain ⟨hmarks, -⟩ := hashesAt_eq_some.mp hline
  obtain ⟨hsplit, -, hpos, -, -⟩ := atxMarks_eq_some.mp hmarks
  have hlength := congrArg List.length hsplit
  rw [shiftLine_eq hline hrange]
  simp only [length_append, length_replicate] at hlength ⊢
  have hlow := hrange.1
  cases direction with
  | promote =>
    have hlow : 1 ≤ level - 1 := hlow
    show indent + (level - 1 + behind.length) + 1 = line.length
    omega
  | demote =>
    show indent + (level + 1 + behind.length) = line.length + 1
    omega

def shiftLines (direction : ShiftDirection) (numbers : List Nat) : List JsString → Nat → List JsString
  | [], _ => []
  | source :: rest, number =>
    (if number ∈ numbers then shiftLine direction source else source) ::
      shiftLines direction numbers rest (number + 1)

def MarkedAt (direction : ShiftDirection) (numbers : List Nat) (all : List JsString) (number : Nat) : Prop :=
  ∀ i line, all[i]? = some line → number + i ∈ numbers → Marked direction line

variable {s : JsString}

section
variable {direction : ShiftDirection} {numbers : List Nat} {number : Nat} {all : List JsString} {source : JsString}

theorem shiftLines_cons (direction : ShiftDirection) (numbers : List Nat) (source : JsString) (rest : List JsString)
    (number : Nat) :
    shiftLines direction numbers (source :: rest) number =
      (if number ∈ numbers then shiftLine direction source else source) ::
        shiftLines direction numbers rest (number + 1) := rfl

variable {rest : List JsString}

theorem MarkedAt.head (h : MarkedAt direction numbers (source :: rest) number)
    (hmem : number ∈ numbers) : Marked direction source := h 0 source rfl hmem

theorem MarkedAt.tail (h : MarkedAt direction numbers (source :: rest) number) :
    MarkedAt direction numbers rest (number + 1) := by
  intro i line hline hmem
  refine h (i + 1) line hline ?_
  rw [← Nat.add_assoc, Nat.add_right_comm]
  exact hmem

theorem MarkedAt.append (h : MarkedAt direction numbers (all ++ rest) number) :
    MarkedAt direction numbers rest (number + all.length) := by
  induction all generalizing number with
  | nil => exact h
  | cons source all ih =>
    have htail := ih h.tail
    rw [Nat.add_right_comm, Nat.add_assoc] at htail
    exact htail

theorem shiftLines_append (all rest : List JsString) (number : Nat) :
    shiftLines direction numbers (all ++ rest) number =
      shiftLines direction numbers all number ++ shiftLines direction numbers rest (number + all.length) := by
  induction all generalizing number with
  | nil => rfl
  | cons source all ih =>
    rw [cons_append, shiftLines_cons, shiftLines_cons, ih, cons_append, length_cons,
      Nat.add_right_comm, Nat.add_assoc]

theorem shiftLines_length (all : List JsString) (number : Nat) :
    (shiftLines direction numbers all number).length = all.length := by
  induction all generalizing number with
  | nil => rfl
  | cons source all ih => rw [shiftLines_cons, length_cons, length_cons, ih]

theorem shiftLines_outside (h : ∀ n ∈ numbers, n < number ∨ number + all.length ≤ n) :
    shiftLines direction numbers all number = all := by
  induction all generalizing number with
  | nil => rfl
  | cons source all ih =>
    have hnot : number ∉ numbers := by
      intro hmem
      rcases h number hmem with hlt | hle
      · omega
      · rw [length_cons] at hle
        omega
    rw [shiftLines_cons, if_neg hnot, ih]
    intro n hn
    rcases h n hn with hlt | hle
    · exact Or.inl (by omega)
    · rw [length_cons] at hle
      exact Or.inr (by omega)

theorem shiftLine_no_newline (h : newline ∉ source) : newline ∉ shiftLine direction source := by
  cases hline : hashesAt source with
  | none =>
    rw [shiftLine_none hline]
    exact h
  | some found =>
    intro hmem
    obtain ⟨indent, level, behind⟩ := found
    obtain ⟨hmarks, -⟩ := hashesAt_eq_some.mp hline
    obtain ⟨hsplit, -⟩ := atxMarks_eq_some.mp hmarks
    unfold shiftLine at hmem
    rw [hline] at hmem
    dsimp only at hmem
    split at hmem
    · exact h hmem
    rcases mem_append.mp hmem with hmem | hmem
    · rcases mem_append.mp hmem with hmem | hmem
      · exact h (mem_of_mem_take hmem)
      · cases eq_of_mem_replicate hmem
    · exact h (by rw [hsplit]; simp [hmem])

theorem shiftLines_no_newline (h : ∀ line ∈ all, newline ∉ line) :
    ∀ line ∈ shiftLines direction numbers all number, newline ∉ line := by
  induction all generalizing number with
  | nil => exact h
  | cons source all ih =>
    rw [forall_mem_cons] at h
    rw [shiftLines_cons, forall_mem_cons]
    refine ⟨?_, ih h.2⟩
    split
    · exact shiftLine_no_newline h.1
    · exact h.1

theorem shiftLines_opposite (h : MarkedAt direction numbers all number) :
    MarkedAt (opposite direction) numbers (shiftLines direction numbers all number) number ∧
      shiftLines (opposite direction) numbers (shiftLines direction numbers all number) number = all := by
  induction all generalizing number with
  | nil => exact ⟨fun i line hline => absurd hline (by simp [shiftLines]), rfl⟩
  | cons source all ih =>
    obtain ⟨hmarked, hback⟩ := ih h.tail
    rw [shiftLines_cons, shiftLines_cons, hback]
    by_cases hmem : number ∈ numbers
    · rw [if_pos hmem, if_pos hmem, (h.head hmem).opposite.2]
      refine ⟨fun i line hline hnumber => ?_, rfl⟩
      cases i with
      | zero =>
        obtain rfl : shiftLine direction source = line := Option.some.inj hline
        exact (h.head hmem).opposite.1
      | succ i =>
        refine hmarked i line hline ?_
        rw [Nat.add_assoc, Nat.add_comm 1]
        exact hnumber
    · rw [if_neg hmem, if_neg hmem]
      refine ⟨fun i line hline hnumber => ?_, rfl⟩
      cases i with
      | zero => exact absurd hnumber hmem
      | succ i =>
        refine hmarked i line hline ?_
        rw [Nat.add_assoc, Nat.add_comm 1]
        exact hnumber

theorem joinLines_single (source : JsString) : joinLines [source] = source := by
  simp [joinLines, List.intercalate]

theorem joinLines_break (hs : s = [] ∨ s.head? = some newline) :
    joinLines (line :: behindBreak s) = line ++ s := by
  cases s with
  | nil => rw [append_nil]; exact joinLines_single line
  | cons c s =>
    have hc : c = newline := Option.some.inj (hs.resolve_left (by simp))
    show joinLines (line :: lines s) = _
    rw [joinLines_cons line (lines_ne_nil s), joinLines_lines, hc]

theorem joinLines_shiftLines (hne : all ≠ []) (hall : ∀ line ∈ all, newline ∉ line)
    (hmarked : MarkedAt direction numbers all number) (hwithin : ∀ n ∈ numbers, n < number + all.length)
    (tail : JsString) :
    joinLines (shiftLines direction numbers (lines (joinLines all ++ tail)) number) =
      joinLines (shiftLines direction numbers all number) ++ tail := by
  induction all generalizing number with
  | nil => exact absurd rfl hne
  | cons source rest ih =>
    rw [forall_mem_cons] at hall
    cases rest with
    | nil =>
      obtain ⟨line, s, rfl, hline, hs⟩ := break_exists tail
      have hfirst : newline ∉ source ++ line := by
        rw [mem_append, not_or]
        exact ⟨hall.1, hline⟩
      have hrest : shiftLines direction numbers (behindBreak s) (number + 1) = behindBreak s :=
        shiftLines_outside fun n hn => Or.inl (hwithin n hn)
      rw [joinLines_single, ← append_assoc, lines_break hfirst hs, shiftLines_cons, hrest, joinLines_break hs,
        shiftLines_cons]
      by_cases hmem : number ∈ numbers
      · rw [if_pos hmem, if_pos hmem, shiftLine_append (hmarked.head hmem), append_assoc]
        exact congrArg (· ++ _) (joinLines_single _).symm
      · rw [if_neg hmem, if_neg hmem, append_assoc]
        exact congrArg (· ++ _) (joinLines_single _).symm
    | cons next rest =>
      have hjoin : joinLines (source :: next :: rest) = _ := joinLines_cons source (by simp)
      have hne' : shiftLines direction numbers (lines (joinLines (next :: rest) ++ tail)) (number + 1) ≠ [] := by
        intro hnil
        have := congrArg List.length hnil
        rw [shiftLines_length, length_nil] at this
        exact lines_ne_nil _ (length_eq_zero_iff.mp this)
      have hne'' : shiftLines direction numbers (next :: rest) (number + 1) ≠ [] := by
        rw [shiftLines_cons]
        simp
      rw [hjoin, append_assoc, cons_append, lines_append hall.1, shiftLines_cons, joinLines_cons _ hne',
        ih (by simp) hall.2 hmarked.tail (fun n hn => by have := hwithin n hn; rw [length_cons] at this; omega),
        shiftLines_cons direction numbers source, joinLines_cons _ hne'', append_assoc, cons_append]

end

/-! ## The lines of the expression -/

theorem shiftLine_found {direction : ShiftDirection} (h : (hashesAt line).isSome = true)
    (more : JsString) : shiftLine direction (line ++ more) = shiftLine direction line ++ more := by
  obtain ⟨⟨indent, level, behind⟩, hline⟩ := Option.isSome_iff_exists.mp h
  by_cases hrange : InRange direction level
  · exact shiftLine_append ⟨indent, level, behind, hline, hrange⟩ more
  have hnot : shiftedLevel direction level < 1 ∨ 6 < shiftedLevel direction level := by
    rcases Nat.lt_or_ge (shiftedLevel direction level) 1 with hlt | hge
    · exact Or.inl hlt
    · rcases Nat.lt_or_ge 6 (shiftedLevel direction level) with hlt | hle
      · exact Or.inr hlt
      · exact absurd ⟨hge, hle⟩ hrange
  unfold shiftLine
  rw [hline, hashesAt_append hline]
  dsimp only
  rw [if_pos hnot, if_pos hnot]

theorem shiftLine_terminator (direction : ShiftDirection) (hc : isLineTerminator c = true)
    (line : JsString) :
    shiftLine direction (line ++ [c]) = shiftLine direction line ++ [c] ∧
      (hashesAt (line ++ [c])).map (·.2.1) = (hashesAt line).map (·.2.1) := by
  cases hline : hashesAt line with
  | none =>
    have hwhole : hashesAt (line ++ [c]) = none := hashesAt_terminator hc hline
    rw [shiftLine_none hwhole, shiftLine_none hline, hwhole]
    exact ⟨rfl, rfl⟩
  | some found =>
    rw [shiftLine_found (by rw [hline]; rfl), hashesAt_append hline]
    exact ⟨rfl, rfl⟩

theorem terminated_ne_nil (s : JsString) : terminated s ≠ [] := by
  cases s with
  | nil => simp [terminated]
  | cons c s =>
    unfold terminated
    split
    · simp
    · split <;> simp

theorem terminated_cons (hc : isLineTerminator c = false) (s : JsString) :
    ∃ first rest, terminated s = first :: rest ∧ terminated (c :: s) = (c :: first) :: rest := by
  obtain ⟨first, rest, hs⟩ := exists_cons_of_ne_nil (terminated_ne_nil s)
  refine ⟨first, rest, hs, ?_⟩
  rw [terminated, hc, if_neg Bool.false_ne_true, hs]

theorem terminated_terminator (hc : isLineTerminator c = true) (s : JsString) :
    terminated (c :: s) = [c] :: terminated s := by
  rw [terminated, if_pos hc]

theorem terminated_flatten (s : JsString) : (terminated s).flatten = s := by
  induction s with
  | nil => rfl
  | cons c s ih =>
    cases hc : isLineTerminator c with
    | true => rw [terminated_terminator hc, flatten_cons, ih]; rfl
    | false =>
      obtain ⟨first, rest, hs, heq⟩ := terminated_cons hc s
      rw [hs, flatten_cons] at ih
      rw [heq, flatten_cons, cons_append, ih]

theorem terminated_first (s : JsString) :
    ∃ first rest, terminated s = first :: rest ∧ s = first ++ rest.flatten ∧
      (rest = [] ∨ ∃ line c, first = line ++ [c] ∧ isLineTerminator c = true) := by
  obtain ⟨first, rest, hs⟩ := exists_cons_of_ne_nil (terminated_ne_nil s)
  have hflat := terminated_flatten s
  rw [hs, flatten_cons] at hflat
  refine ⟨first, rest, hs, hflat.symm, ?_⟩
  clear hflat
  induction s generalizing first rest with
  | nil =>
    have hnil : [[]] = first :: rest := hs
    exact Or.inl (List.cons.inj hnil).2.symm
  | cons c s ih =>
    cases hc : isLineTerminator c with
    | true =>
      rw [terminated_terminator hc] at hs
      exact Or.inr ⟨[], c, (List.cons.inj hs).1.symm, hc⟩
    | false =>
      obtain ⟨head, tail, htail, heq⟩ := terminated_cons hc s
      rw [heq] at hs
      obtain ⟨hfirst, hrest⟩ := List.cons.inj hs
      rcases ih head tail htail with hnil | ⟨line, d, hhead, hd⟩
      · exact Or.inl (by rw [← hrest, hnil])
      · exact Or.inr ⟨c :: line, d, by rw [← hfirst, hhead]; rfl, hd⟩

theorem terminated_line (line s : JsString) :
    ∃ start last, terminated line = start ++ [last] ∧
      terminated (line ++ newline :: s) = start ++ (last ++ [newline]) :: terminated s := by
  induction line with
  | nil => exact ⟨[], [], rfl, terminated_terminator rfl s⟩
  | cons c line ih =>
    obtain ⟨start, last, hline, hwhole⟩ := ih
    cases hc : isLineTerminator c with
    | true =>
      refine ⟨[c] :: start, last, ?_, ?_⟩
      · rw [terminated_terminator hc, hline]
        rfl
      · rw [cons_append, terminated_terminator hc, hwhole]
        rfl
    | false =>
      obtain ⟨first, rest, hsplit, heq⟩ := terminated_cons hc line
      obtain ⟨first', rest', hsplit', heq'⟩ := terminated_cons hc (line ++ newline :: s)
      rw [hline] at hsplit
      rw [hwhole] at hsplit'
      rw [cons_append, heq, heq']
      cases start with
      | nil =>
        obtain ⟨rfl, rfl⟩ := List.cons.inj hsplit
        obtain ⟨rfl, rfl⟩ := List.cons.inj hsplit'
        exact ⟨[], c :: last, rfl, rfl⟩
      | cons head start =>
        obtain ⟨rfl, rfl⟩ := List.cons.inj hsplit
        obtain ⟨rfl, rfl⟩ := List.cons.inj hsplit'
        exact ⟨(c :: head) :: start, last, rfl, rfl⟩

def shiftedText (direction : ShiftDirection) (s : JsString) : JsString := (terminated s).flatMap (shiftLine direction)

section
variable {direction : ShiftDirection}

theorem shiftedText_line (line s : JsString) :
    shiftedText direction (line ++ newline :: s) = shiftedText direction line ++ newline :: shiftedText direction s := by
  obtain ⟨start, last, hline, hwhole⟩ := terminated_line line s
  have hlast := (shiftLine_terminator direction (c := newline) rfl last).1
  rw [shiftedText, shiftedText, hline, hwhole, flatMap_append, flatMap_append, flatMap_cons, hlast,
    flatMap_cons, flatMap_nil, append_nil]
  simp [shiftedText]

theorem depths_line (line s : JsString) : depths (line ++ newline :: s) = depths line ++ depths s := by
  obtain ⟨start, last, hline, hwhole⟩ := terminated_line line s
  have hlast := (shiftLine_terminator .demote (c := newline) rfl last).2
  rw [depths, depths, hline, hwhole, filterMap_append, filterMap_append, filterMap_cons, hlast,
    filterMap_cons, filterMap_nil]
  cases (hashesAt last).map (·.2.1) with
  | none => simp [depths]
  | some level => simp [depths]

theorem shiftedText_lines (direction : ShiftDirection) {all : List JsString} (hne : all ≠ []) :
    shiftedText direction (joinLines all) = joinLines (all.map (shiftedText direction)) ∧
      depths (joinLines all) = all.flatMap depths := by
  induction all with
  | nil => exact absurd rfl hne
  | cons source rest ih =>
    cases rest with
    | nil =>
      rw [joinLines_single, map_singleton, joinLines_single]
      simp
    | cons next rest =>
      obtain ⟨hchanged, hdepths⟩ := ih (by simp)
      have hmapped : (next :: rest).map (shiftedText direction) ≠ [] := by simp
      have hjoin := joinLines_cons (shiftedText direction source) hmapped
      rw [joinLines_cons source (by simp), shiftedText_line, depths_line, hchanged, hdepths]
      exact ⟨hjoin.symm, rfl⟩

theorem shiftedText_grown (h : ∀ level ∈ depths s, InRange direction level) :
    Grown direction s.length (shiftedText direction s).length (depths s).length := by
  have hall : ∀ parts : List JsString, (∀ level ∈ parts.filterMap fun line => (hashesAt line).map (·.2.1),
      InRange direction level) → Grown direction parts.flatten.length (parts.flatMap (shiftLine direction)).length
        (parts.filterMap fun line => (hashesAt line).map (·.2.1)).length := by
    intro parts
    induction parts with
    | nil => exact fun _ => grown_zero 0
    | cons line parts ih =>
      intro h
      rw [flatten_cons, flatMap_cons, length_append, length_append]
      cases hline : hashesAt line with
      | none =>
        have hnone : (hashesAt line).map (·.2.1) = none := by rw [hline]; rfl
        rw [filterMap_cons, hnone] at h ⊢
        rw [shiftLine_none hline]
        have hzero : Grown direction line.length line.length 0 := grown_zero line.length
        have hgrown := hzero.add (ih h)
        rw [Nat.zero_add] at hgrown
        exact hgrown
      | some found =>
        obtain ⟨indent, level, behind⟩ := found
        have hsome : (hashesAt line).map (·.2.1) = some level := by rw [hline]; rfl
        rw [filterMap_cons, hsome] at h ⊢
        dsimp only at h ⊢
        rw [forall_mem_cons] at h
        have hgrown := (shiftLine_grown ⟨indent, level, behind, hline, h.1⟩).add (ih h.2)
        rw [Nat.add_comm 1] at hgrown
        exact hgrown
  have hgrown := hall (terminated s) h
  rw [terminated_flatten] at hgrown
  exact hgrown

theorem shiftedText_unfound {parts : List JsString} (h : (parts.filterMap fun line => (hashesAt line).map (·.2.1)) = []) :
    parts.flatMap (shiftLine direction) = parts.flatten := by
  have hnone := filterMap_eq_nil_iff.mp h
  induction parts with
  | nil => rfl
  | cons line parts ih =>
    rw [forall_mem_cons] at hnone
    have hrest := filterMap_eq_nil_iff.mpr hnone.2
    rw [flatMap_cons, flatten_cons, shiftLine_none (Option.map_eq_none_iff.mp hnone.1), ih hrest hnone.2]

theorem shiftedText_none (h : depths s = []) : shiftedText direction s = s := by
  rw [shiftedText, shiftedText_unfound h, terminated_flatten]

theorem shiftedText_one (direction : ShiftDirection) (h : (hashesAt line).isSome = true) :
    1 ≤ (depths line).length ∧ ((depths line).length = 1 → shiftedText direction line = shiftLine direction line) := by
  obtain ⟨first, rest, hsplit, hline, hfirst⟩ := terminated_first line
  have hmarks : (hashesAt first).isSome = true := by
    rcases hfirst with rfl | ⟨start, c, rfl, hc⟩
    · rw [flatten_nil, append_nil] at hline
      rw [← hline]
      exact h
    cases hstart : hashesAt start with
    | none =>
      rw [hline, append_assoc, singleton_append, hashesAt_terminator hc hstart] at h
      cases h
    | some found =>
      rw [hashesAt_append hstart]
      rfl
  obtain ⟨⟨indent, level, behind⟩, hfound⟩ := Option.isSome_iff_exists.mp hmarks
  have hdepths : depths line = level :: rest.filterMap fun line => (hashesAt line).map (·.2.1) := by
    have hsome : (hashesAt first).map (·.2.1) = some level := by rw [hfound]; rfl
    rw [depths, hsplit, filterMap_cons, hsome]
  rw [hdepths]
  refine ⟨by simp, fun hone => ?_⟩
  rw [length_cons] at hone
  have hnone := length_eq_zero_iff.mp (Nat.succ.inj hone)
  rw [shiftedText, hsplit, flatMap_cons, shiftedText_unfound hnone, ← shiftLine_found hmarks, ← hline]

end

/-! ## The two edits -/

def countIn (numbers : List Nat) (all : List JsString) (number : Nat) : Nat :=
  (List.range' number all.length).countP (· ∈ numbers)

section
variable {direction : ShiftDirection} {numbers : List Nat} {number : Nat} {all : List JsString}

theorem countIn_cons (numbers : List Nat) (source : JsString) (rest : List JsString) (number : Nat) :
    countIn numbers (source :: rest) number =
      (if number ∈ numbers then 1 else 0) + countIn numbers rest (number + 1) := by
  rw [countIn, length_cons, range'_succ, countP_cons, Nat.add_comm]
  simp only [decide_eq_true_eq]
  rfl

theorem countIn_eq (hnodup : numbers.Nodup) (hwithin : ∀ n ∈ numbers, number ≤ n ∧ n < number + all.length) :
    countIn numbers all number = numbers.length := by
  have hperm : ((List.range' number all.length).filter (· ∈ numbers)).Perm numbers := by
    refine (perm_ext_iff_of_nodup ((nodup_range').filter _) hnodup).mpr fun n => ?_
    rw [mem_filter, mem_range'_1, decide_eq_true_eq]
    exact ⟨fun h => h.2, fun h => ⟨hwithin n h, h⟩⟩
  rw [countIn, countP_eq_length_filter, hperm.length_eq]

theorem shiftLines_grown (h : MarkedAt direction numbers all number) :
    Grown direction (leading all).length (leading (shiftLines direction numbers all number)).length
      (countIn numbers all number) := by
  induction all generalizing number with
  | nil => exact grown_zero 0
  | cons source rest ih =>
    rw [shiftLines_cons, leading_cons_length, leading_cons_length, countIn_cons]
    refine Grown.add ?_ (ih h.tail)
    by_cases hmem : number ∈ numbers
    · rw [if_pos hmem, if_pos hmem]
      exact (shiftLine_grown (h.head hmem)).add (grown_zero 1)
    · rw [if_neg hmem, if_neg hmem]
      exact grown_zero _

theorem joinLines_grown (hne : all ≠ []) (h : MarkedAt direction numbers all number) :
    Grown direction (joinLines all).length (joinLines (shiftLines direction numbers all number)).length
      (countIn numbers all number) := by
  have hne' : shiftLines direction numbers all number ≠ [] := by
    intro hnil
    have := congrArg List.length hnil
    rw [shiftLines_length] at this
    exact hne (length_eq_zero_iff.mp this)
  have hgrown := shiftLines_grown h
  rw [leading_joinLines hne, leading_joinLines hne', length_append, length_append] at hgrown
  cases direction with
  | promote =>
    have hgrown : _ + 1 + _ = _ + 1 := hgrown
    show _ + _ = _
    omega
  | demote =>
    have hgrown : _ + 1 = _ + 1 + _ := hgrown
    show _ = _ + _
    omega

theorem countIn_le (h : ∀ i line, all[i]? = some line → number + i ∈ numbers → (hashesAt line).isSome = true) :
    countIn numbers all number ≤ (all.flatMap depths).length := by
  induction all generalizing number with
  | nil => exact Nat.le_refl 0
  | cons source rest ih =>
    have hrest : countIn numbers rest (number + 1) ≤ (rest.flatMap depths).length := ih fun i line hline hmem =>
      h (i + 1) line hline (by rw [← Nat.add_assoc, Nat.add_right_comm]; exact hmem)
    rw [countIn_cons, flatMap_cons, length_append]
    by_cases hmem : number ∈ numbers
    · have hone := (shiftedText_one .demote (h 0 source rfl hmem)).1
      rw [if_pos hmem]
      omega
    · rw [if_neg hmem]
      omega

theorem map_shiftedText (h : ∀ i line, all[i]? = some line → number + i ∈ numbers → (hashesAt line).isSome = true)
    (hcount : (all.flatMap depths).length = countIn numbers all number) :
    all.map (shiftedText direction) = shiftLines direction numbers all number := by
  induction all generalizing number with
  | nil => rfl
  | cons source rest ih =>
    have hrest : ∀ i line, rest[i]? = some line → number + 1 + i ∈ numbers → (hashesAt line).isSome = true :=
      fun i line hline hmem => h (i + 1) line hline (by rw [← Nat.add_assoc, Nat.add_right_comm]; exact hmem)
    have hle := countIn_le hrest
    rw [countIn_cons, flatMap_cons, length_append] at hcount
    rw [map_cons, shiftLines_cons]
    by_cases hmem : number ∈ numbers
    · obtain ⟨hpos, hone⟩ := shiftedText_one direction (h 0 source rfl hmem)
      rw [if_pos hmem] at hcount ⊢
      rw [hone (by omega), ih hrest (by omega)]
    · rw [if_neg hmem] at hcount ⊢
      have hnone : depths source = [] := length_eq_zero_iff.mp (by omega)
      rw [shiftedText_none hnone, ih hrest (by omega)]

theorem shiftedText_iff (hne : all ≠ []) (hrange : ∀ level ∈ depths (joinLines all), InRange direction level)
    (hfound : ∀ i line, all[i]? = some line → number + i ∈ numbers → (hashesAt line).isSome = true)
    (hmarked : MarkedAt direction numbers all number) (hnodup : numbers.Nodup)
    (hwithin : ∀ n ∈ numbers, number ≤ n ∧ n < number + all.length) :
    shiftedText direction (joinLines all) = joinLines (shiftLines direction numbers all number) ↔
      (depths (joinLines all)).length = numbers.length := by
  have hcount := countIn_eq hnodup hwithin
  obtain ⟨hchanged, hdepths⟩ := shiftedText_lines direction hne
  constructor
  · intro h
    have hgrown := shiftedText_grown hrange
    have hlines := joinLines_grown hne hmarked
    rw [h] at hgrown
    rw [← hcount]
    exact hgrown.count_eq hlines
  · intro h
    rw [hdepths, ← hcount] at h
    rw [hchanged, map_shiftedText hfound h]

end

end Marks
