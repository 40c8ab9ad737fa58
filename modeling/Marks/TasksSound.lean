import Mathlib.Data.List.Sort
import Mathlib.Data.List.TakeWhile
import Mathlib.Data.Option.Basic
import Marks.LinesSound
import Marks.Tasks

/-! # Checkboxes and markers

The markers of a source stand in ascending order, and a toggle changes one mark and none of the places. So the
ordinals of checkboxes and markers agree exactly if both stand in the same places, in the same order. -/

namespace Marks

open JsString List

/-! ## A line that is a task -/

def IsMark (mark : UInt16) : Prop := mark = 32 ∨ mark = 120 ∨ mark = 88

def IsMarker (marker : JsString) : Prop :=
  (∃ c, (c = 45 ∨ c = 42 ∨ c = 43) ∧ marker = [c]) ∨
    ∃ digits, digits ≠ [] ∧ (∀ d ∈ digits, isDigit d = true) ∧ marker = digits ++ [46]

/-- What `TASK_LINE` asks for before the bracket. -/
def IsTaskPrefix (before : JsString) : Prop :=
  ∃ indent marker gap, before = indent ++ (marker ++ gap) ∧ (∀ c ∈ indent, isSpace c = true) ∧
    IsMarker marker ∧ gap ≠ [] ∧ ∀ c ∈ gap, isSpace c = true

variable {p : UInt16 → Bool} {rest : JsString}

theorem run_eq {front : JsString} {c : UInt16} (h : ∀ d ∈ front, p d = true)
    (hc : p c = false) : run p (front ++ c :: rest) = front.length := by
  unfold run
  rw [takeWhile_append_of_pos h, takeWhile_cons_of_neg (by simp [hc]), append_nil]

theorem drop_run (s : JsString) :
    s = s.takeWhile p ++ s.drop (run p s) ∧ ∀ c ∈ s.takeWhile p, p c = true := by
  refine ⟨?_, fun c hc => mem_takeWhile_imp hc⟩
  have hdrop : s.drop (run p s) = s.dropWhile p := by
    unfold run
    induction s with
    | nil => rfl
    | cons c s ih =>
      by_cases hc : p c = true
      · rw [takeWhile_cons_of_pos hc, dropWhile_cons_of_pos hc, length_cons, drop_succ_cons, ih]
      · rw [takeWhile_cons_of_neg hc, dropWhile_cons_of_neg hc]
        rfl
  rw [hdrop, takeWhile_append_dropWhile]

variable {marker : JsString}

theorem marker_head (h : IsMarker marker) (rest : JsString) :
    ∃ c tail, marker ++ rest = c :: tail ∧ isSpace c = false := by
  rcases h with ⟨c, hc, rfl⟩ | ⟨digits, hne, hdigits, rfl⟩
  · refine ⟨c, rest, rfl, ?_⟩
    rcases hc with rfl | rfl | rfl <;> decide
  cases digits with
  | nil => exact absurd rfl hne
  | cons d digits =>
    refine ⟨d, digits ++ [46] ++ rest, by simp, ?_⟩
    have hdigit := hdigits d mem_cons_self
    simp only [isDigit, Bool.and_eq_true, decide_eq_true_eq] at hdigit
    have hall : ∀ n : Fin 10, isSpace (UInt16.ofNat (48 + n.val)) = false := by decide
    have hlow : 48 ≤ d.toNat := UInt16.le_iff_toNat_le.mp hdigit.1
    have hhigh : d.toNat ≤ 57 := UInt16.le_iff_toNat_le.mp hdigit.2
    have hd : d = UInt16.ofNat (48 + (⟨d.toNat - 48, by omega⟩ : Fin 10).val) := by
      rw [show 48 + (d.toNat - 48) = d.toNat by omega]
      exact (UInt16.ofNat_toNat).symm
    rw [hd]
    exact hall _

theorem afterMarker_of (h : IsMarker marker) (rest : JsString) :
    afterMarker (marker ++ rest) = some rest := by
  rcases h with ⟨c, hc, rfl⟩ | ⟨digits, hne, hdigits, rfl⟩
  · exact if_pos hc
  have hrun : run isDigit (digits ++ 46 :: rest) = digits.length := run_eq hdigits (by decide)
  have hpos : 0 < digits.length := length_pos_of_ne_nil hne
  cases digits with
  | nil => exact absurd rfl hne
  | cons d digits =>
    have hd : ¬ (d = 45 ∨ d = 42 ∨ d = 43) := by
      have hdigit := hdigits d mem_cons_self
      rintro (rfl | rfl | rfl) <;> revert hdigit <;> decide
    rw [append_assoc, singleton_append]
    rw [cons_append] at hrun ⊢
    have hdrop : (d :: (digits ++ 46 :: rest)).drop (d :: digits).length = 46 :: rest := by
      rw [← cons_append, drop_left]
    simp only [afterMarker, if_neg hd, hrun, hdrop, if_pos hpos]

theorem afterMarker_spec {s : JsString} (h : afterMarker s = some rest) :
    ∃ marker, IsMarker marker ∧ s = marker ++ rest := by
  cases s with
  | nil => cases h
  | cons c tail =>
    simp only [afterMarker] at h
    by_cases hc : c = 45 ∨ c = 42 ∨ c = 43
    · rw [if_pos hc] at h
      cases h
      exact ⟨[c], Or.inl ⟨c, hc, rfl⟩, rfl⟩
    rw [if_neg hc] at h
    split at h
    · next behind hdrop =>
      split at h
      · next hpos =>
        cases h
        obtain ⟨hsplit, hdigits⟩ := drop_run (p := isDigit) (c :: tail)
        refine ⟨(c :: tail).takeWhile isDigit ++ [46], Or.inr ⟨_, ?_, hdigits, rfl⟩, ?_⟩
        · intro hnil
          rw [run, hnil] at hpos
          exact absurd hpos (Nat.lt_irrefl 0)
        · rw [hdrop] at hsplit
          simpa using hsplit
      · cases h
    · cases h

variable {mark : UInt16}

theorem taskLine_of {before : JsString} (h : IsTaskPrefix before) (hm : IsMark mark) (rest : JsString) :
    taskLine (before ++ 91 :: mark :: 93 :: rest) = some (before.length, mark) := by
  obtain ⟨indent, marker, gap, rfl, hindent, hmarker, hne, hgap⟩ := h
  have hline : (indent ++ (marker ++ gap)) ++ 91 :: mark :: 93 :: rest =
      indent ++ (marker ++ (gap ++ 91 :: mark :: 93 :: rest)) := by simp
  have hindentRun : run isSpace (indent ++ (marker ++ (gap ++ 91 :: mark :: 93 :: rest))) = indent.length := by
    obtain ⟨c, tail, heq, hc⟩ := marker_head hmarker (gap ++ 91 :: mark :: 93 :: rest)
    rw [heq]
    exact run_eq hindent hc
  have hgapRun : run isSpace (gap ++ 91 :: mark :: 93 :: rest) = gap.length := run_eq hgap (by decide)
  have hpos : 0 < gap.length := length_pos_of_ne_nil hne
  have hmark : mark = 32 ∨ mark = 120 ∨ mark = 88 := hm
  rw [hline]
  unfold taskLine
  rw [hindentRun, drop_left, afterMarker_of hmarker]
  simp only [Option.bind_eq_bind, Option.bind_some, hgapRun, guard, if_pos hpos, Option.pure_def, drop_left,
    if_pos hmark, Option.some.injEq, Prod.mk.injEq, and_true]
  simp
  omega

variable {line : JsString} {n : Nat}

theorem taskLine_spec (h : taskLine line = some (n, mark)) :
    ∃ before rest, line = before ++ 91 :: mark :: 93 :: rest ∧ before.length = n ∧ IsTaskPrefix before ∧
      IsMark mark := by
  simp only [taskLine, Option.bind_eq_bind, Option.bind_eq_some_iff, Option.guard_eq_some'] at h
  obtain ⟨behind, hbehind, -, hpos, h⟩ := h
  split at h
  · next found rest htail =>
    split at h
    · next hmark =>
      obtain ⟨hlength, rfl⟩ := Prod.mk.inj (Option.some.inj h)
      obtain ⟨hindent, hspaces⟩ := drop_run (p := isSpace) line
      obtain ⟨marker, hmarker, hmarked⟩ := afterMarker_spec hbehind
      obtain ⟨hgap, hgaps⟩ := drop_run (p := isSpace) behind
      rw [htail] at hgap
      rw [hmarked] at hindent
      have hline : line = (line.takeWhile isSpace ++ (marker ++ behind.takeWhile isSpace)) ++
          91 :: found :: 93 :: rest := by
        calc line = line.takeWhile isSpace ++ (marker ++ behind) := hindent
          _ = line.takeWhile isSpace ++ (marker ++ (behind.takeWhile isSpace ++ 91 :: found :: 93 :: rest)) := by
            rw [← hgap]
          _ = _ := by simp
      refine ⟨_, rest, hline, ?_, ⟨_, marker, _, rfl, hspaces, hmarker, ?_, hgaps⟩, hmark⟩
      · have htotal := congrArg List.length hline
        rw [length_append] at htotal
        simp only [length_cons] at htotal
        omega
      · intro hnil
        rw [run, hnil] at hpos
        exact absurd hpos (Nat.lt_irrefl 0)
    · cases h
  · cases h

variable {other : UInt16}

theorem taskLine_set (h : taskLine line = some (n, mark))
    (ho : IsMark other) : taskLine (line.set (n + 1) other) = some (n, other) := by
  obtain ⟨before, rest, rfl, rfl, hbefore, -⟩ := taskLine_spec h
  have hset : (before ++ 91 :: mark :: 93 :: rest).set (before.length + 1) other =
      before ++ 91 :: other :: 93 :: rest := by
    rw [set_append_right _ _ (Nat.le_succ _), Nat.succ_sub (Nat.le_refl _), Nat.sub_self]
    rfl
  rw [hset]
  exact taskLine_of hbefore ho rest

/-! ## Markers in order -/

def boxes : List JsString → Nat → List (Nat × UInt16)
  | [], _ => []
  | line :: lines, offset =>
    ((taskLine line).toList.map fun found => (offset + found.1, found.2)) ++ boxes lines (offset + line.length + 1)

theorem taskLine_lt (h : taskLine line = some (n, mark)) :
    n + 2 < line.length := by
  obtain ⟨before, rest, rfl, rfl, -⟩ := taskLine_spec h
  simp

theorem boxes_bounds (all : List JsString) (offset : Nat) :
    ∀ box ∈ boxes all offset, offset ≤ box.1 ∧ box.1 + 2 < offset + (leading all).length := by
  induction all generalizing offset with
  | nil => exact fun _ hbox => by cases hbox
  | cons line all ih =>
    intro box hbox
    have hlength : (leading (line :: all)).length = line.length + 1 + (leading all).length := by
      simp [leading]
      omega
    unfold boxes at hbox
    rcases mem_append.mp hbox with hhere | hrest
    · obtain ⟨found, hfound, rfl⟩ := mem_map.mp hhere
      have hlt := taskLine_lt (Option.mem_toList.mp hfound)
      exact ⟨Nat.le_add_right _ _, by omega⟩
    · obtain ⟨hlow, hhigh⟩ := ih _ box hrest
      exact ⟨by omega, by omega⟩

theorem boxes_sorted (all : List JsString) (offset : Nat) :
    ((boxes all offset).map (·.1)).Pairwise (· < ·) := by
  induction all generalizing offset with
  | nil => exact List.Pairwise.nil
  | cons line all ih =>
    unfold boxes
    rw [map_append, pairwise_append]
    refine ⟨?_, ih _, fun place hplace later hlater => ?_⟩
    · cases taskLine line with
      | none => exact List.Pairwise.nil
      | some found => exact pairwise_singleton _ _
    obtain ⟨box, hbox, rfl⟩ := mem_map.mp hplace
    obtain ⟨next, hnext, rfl⟩ := mem_map.mp hlater
    obtain ⟨found, hfound, rfl⟩ := mem_map.mp hbox
    have hlt := taskLine_lt (Option.mem_toList.mp hfound)
    have hlow := (boxes_bounds all _ next hnext).1
    omega

theorem findMarker_eq (sourceStart ordinal : Nat) (all : List JsString) (offset seen : Nat) (h : seen ≤ ordinal) :
    findMarker sourceStart ordinal all offset seen = ((boxes all offset)[ordinal - seen]?).map fun box =>
      ⟨sourceStart + box.1 + 1, box.2 ≠ space⟩ := by
  induction all generalizing offset seen with
  | nil => rfl
  | cons line all ih =>
    unfold findMarker boxes
    cases htask : taskLine line with
    | none => exact ih _ seen h
    | some found =>
      obtain ⟨before, mark⟩ := found
      dsimp only
      by_cases heq : seen = ordinal
      · rw [if_pos heq, heq, Nat.sub_self]
        simp [Nat.add_assoc]
      rw [if_neg heq, ih _ (seen + 1) (by omega)]
      have hindex : ordinal - seen = ordinal - (seen + 1) + 1 := by omega
      rw [hindex]
      rfl

/-! ## One mark replaced -/

theorem boxes_append (before rest : List JsString) (offset : Nat) :
    boxes (before ++ rest) offset = boxes before offset ++ boxes rest (offset + (leading before).length) := by
  induction before generalizing offset with
  | nil => rfl
  | cons line before ih =>
    have hlength : offset + (leading (line :: before)).length = offset + line.length + 1 + (leading before).length := by
      simp [leading]
      omega
    rw [cons_append, boxes, boxes, ih, append_assoc, hlength]

def IsBox (source : JsString) (place : Nat) (mark : UInt16) : Prop :=
  ∃ before line after n, lines source = before ++ line :: after ∧ taskLine line = some (n, mark) ∧
    place = (leading before).length + n

variable {source : JsString} {place : Nat}

theorem mem_boxes :
    (place, mark) ∈ boxes (lines source) 0 ↔ IsBox source place mark := by
  unfold IsBox
  constructor
  · intro h
    have hall : ∀ (all : List JsString) (offset : Nat), (place, mark) ∈ boxes all offset →
        ∃ before line after n, all = before ++ line :: after ∧ taskLine line = some (n, mark) ∧
          place = offset + ((leading before).length + n) := by
      intro all
      induction all with
      | nil => exact fun _ h => by cases h
      | cons line all ih =>
        intro offset h
        unfold boxes at h
        rcases mem_append.mp h with hhere | hrest
        · obtain ⟨found, hfound, heq⟩ := mem_map.mp hhere
          cases heq
          exact ⟨[], line, all, found.1, rfl, Option.mem_toList.mp hfound, by simp [leading]⟩
        obtain ⟨before, other, after, n, hsplit, htask, hplace⟩ := ih _ hrest
        refine ⟨line :: before, other, after, n, by rw [hsplit]; rfl, htask, ?_⟩
        have hlength : (leading (line :: before)).length = line.length + 1 + (leading before).length := by
          simp [leading]
          omega
        omega
    obtain ⟨before, line, after, n, hsplit, htask, hplace⟩ := hall _ 0 h
    exact ⟨before, line, after, n, hsplit, htask, by omega⟩
  · intro h
    obtain ⟨before, line, after, n, hsplit, htask, rfl⟩ := h
    rw [hsplit, boxes_append, boxes, htask]
    refine mem_append_right _ (mem_append_left _ ?_)
    simp

theorem IsBox.text {before after : List JsString}
    (hsplit : lines source = before ++ line :: after) (i : Nat) (hi : i < line.length) (c : UInt16) :
    source[(leading before).length + i]? = (line)[i]? ∧
      source.set ((leading before).length + i) c = joinLines (before ++ line.set i c :: after) := by
  have hjoin : source = leading before ++ joinLines (line :: after) := by
    rw [← joinLines_append before (by simp), ← hsplit, joinLines_lines]
  have hset : (joinLines (line :: after)).set i c = joinLines (line.set i c :: after) := by
    cases after with
    | nil => simp [joinLines, List.intercalate]
    | cons next after =>
      have hne : next :: after ≠ [] := by simp
      rw [joinLines_cons line hne, joinLines_cons _ hne, set_append_left _ _ hi]
  have hget : (joinLines (line :: after))[i]? = (line)[i]? := by
    cases after with
    | nil => simp [joinLines, List.intercalate]
    | cons next after =>
      have hne : next :: after ≠ [] := by simp
      rw [joinLines_cons line hne, getElem?_append_left hi]
  constructor
  · conv_lhs => rw [hjoin]
    rw [getElem?_append_right (Nat.le_add_right _ _), Nat.add_sub_cancel_left, hget]
  · conv_lhs => rw [hjoin]
    rw [set_append_right _ _ (Nat.le_add_right _ _), Nat.add_sub_cancel_left, hset,
      joinLines_append before (by simp)]

theorem IsBox.spec (h : IsBox source place mark) :
    IsMark mark ∧ source[place + 1]? = some mark ∧ place + 1 < source.length := by
  obtain ⟨before, line, after, n, hsplit, htask, rfl⟩ := h
  have hlt := taskLine_lt htask
  obtain ⟨hget, -⟩ := IsBox.text hsplit (n + 1) (by omega) mark
  obtain ⟨front, rest, rfl, rfl, -, hmark⟩ := taskLine_spec htask
  have hline : (front ++ 91 :: mark :: 93 :: rest)[front.length + 1]? = some mark := by
    rw [getElem?_append_right (Nat.le_succ _), Nat.succ_sub (Nat.le_refl _), Nat.sub_self]
    rfl
  have hsome : source[(leading before).length + front.length + 1]? = some mark := by
    rw [Nat.add_assoc, hget, hline]
  exact ⟨hmark, hsome, (List.getElem?_eq_some_iff.mp hsome).1⟩

theorem boxes_set (h : IsBox source place mark)
    (ho : IsMark other) : ∃ front back, boxes (lines source) 0 = front ++ (place, mark) :: back ∧
      boxes (lines (source.set (place + 1) other)) 0 = front ++ (place, other) :: back := by
  obtain ⟨before, line, after, n, hsplit, htask, rfl⟩ := h
  have hlt := taskLine_lt htask
  obtain ⟨-, hset⟩ := IsBox.text hsplit (n + 1) (by omega) other
  have hclean := lines_no_newline source
  rw [hsplit] at hclean
  have hlines : lines (source.set ((leading before).length + n + 1) other) =
      before ++ line.set (n + 1) other :: after := by
    rw [Nat.add_assoc, hset]
    refine lines_joinLines (by simp) fun l hl => ?_
    rcases mem_append.mp hl with hl | hl
    · exact hclean l (mem_append_left _ hl)
    rcases mem_cons.mp hl with rfl | hl
    · intro hmem
      rcases mem_or_eq_of_mem_set hmem with hmem | heq
      · exact hclean line (mem_append_right _ mem_cons_self) hmem
      rw [← heq] at ho
      revert ho
      unfold IsMark newline
      decide
    · exact hclean l (mem_append_right _ (mem_cons_of_mem _ hl))
  refine ⟨boxes before 0, boxes after (0 + (leading before).length + line.length + 1), ?_, ?_⟩
  · rw [hsplit, boxes_append, boxes, htask]
    simp
  · rw [hlines, boxes_append, boxes, taskLine_set htask ho, length_set]
    simp

/-! ## The span of a block -/

theorem boxes_length (all : List JsString) (offset : Nat) : (boxes all offset).length ≤ all.length := by
  induction all generalizing offset with
  | nil => exact Nat.le_refl 0
  | cons line all ih =>
    have hrest := ih (offset + line.length + 1)
    unfold boxes
    rw [length_append, length_map, length_cons]
    cases taskLine line with
    | none =>
      show 0 + _ ≤ _
      omega
    | some found =>
      show 1 + _ ≤ _
      omega

theorem lines_length (text : JsString) : (lines text).length ≤ text.length + 1 := by
  induction text with
  | nil => exact Nat.le_refl 1
  | cons c rest ih =>
    by_cases hc : c = newline
    · rw [hc, lines_newline, length_cons, length_cons]
      omega
    obtain ⟨line, more, hrest, heq⟩ := lines_cons hc rest
    rw [hrest] at ih
    rw [heq, length_cons, length_cons]
    rw [length_cons] at ih
    omega

section
variable {text : JsString} {start stop : Nat}

theorem taskMarkerAt_eq (hlength : text.length < 2 ^ 53) (hstart : start ≤ stop) (hstop : stop ≤ text.length)
    (ordinal : Nat) : taskMarkerAt text start stop ordinal =
      ((boxes (lines (text.slice start stop)) 0)[ordinal]?).map fun box => ⟨start + box.1 + 1, box.2 ≠ space⟩ := by
  have hfind := findMarker_eq start ordinal (lines (text.slice start stop)) 0 0 (Nat.zero_le _)
  rw [Nat.sub_zero] at hfind
  unfold taskMarkerAt
  by_cases hsafe : ordinal < 2 ^ 53
  · rw [if_neg, Int.toNat_natCast, Int.toNat_natCast, Int.toNat_natCast, hfind]
    simp only [isSafeInteger, Int.natAbs_natCast, decide_eq_true hsafe, decide_eq_true (hstop.trans_lt hlength),
      decide_eq_true ((hstart.trans hstop).trans_lt hlength), Bool.not_true, Bool.false_eq_true, false_or]
    omega
  · have hcount : (boxes (lines (text.slice start stop)) 0).length ≤ text.length + 1 := by
      refine (boxes_length _ _).trans ((lines_length _).trans (Nat.succ_le_succ ?_))
      rw [slice, length_drop, length_take]
      omega
    rw [getElem?_eq_none (by omega), if_pos]
    · rfl
    · simp only [isSafeInteger, Int.natAbs_natCast, decide_eq_false hsafe, Bool.not_false, true_or, or_true]

theorem slice_set (text : JsString) (start stop i : Nat) (c : UInt16) :
    slice (text.set (start + i) c) start stop = (text.slice start stop).set i c := by
  unfold slice
  rw [take_set, drop_set, if_neg (Nat.not_lt.mpr (Nat.le_add_right start i)), Nat.add_sub_cancel_left]

theorem applyTextEdit_set {text : JsString} {i : Nat} (h : i < text.length) (hlength : text.length < 2 ^ 53)
    (c : UInt16) : applyTextEdit text ⟨i, i + 1, [c]⟩ = some (text.set i c) := by
  have hnext : ((i : Int) + 1).natAbs = i + 1 := by omega
  unfold applyTextEdit
  rw [if_neg]
  · have hto : ((i : Int) + 1).toNat = i + 1 := by omega
    simp only [Int.toNat_natCast, hto, slice, take_length, drop_zero, Option.some.injEq]
    rw [set_eq_take_append_cons_drop, if_pos h]
    simp
  · simp only [isSafeInteger, Int.natAbs_natCast, hnext, decide_eq_true (h.trans hlength),
      decide_eq_true (show i + 1 < 2 ^ 53 by omega), Bool.not_true, Bool.false_eq_true, false_or]
    omega

def otherMark (mark : UInt16) : UInt16 := if mark = space then 120 else 32

theorem otherMark_isMark (mark : UInt16) : IsMark (otherMark mark) := by
  unfold otherMark IsMark
  split <;> simp

variable {ordinal : Nat}

theorem toggleTask_eq (hlength : text.length < 2 ^ 53) (hstart : start ≤ stop) (hstop : stop ≤ text.length)
    (h : (boxes (lines (text.slice start stop)) 0)[ordinal]? = some (place, mark)) :
    toggleTask text start stop ordinal = text.set (start + place + 1) (otherMark mark) ∧
      text[start + place + 1]? = some mark := by
  have hbox := mem_boxes.mp (mem_of_getElem? h)
  obtain ⟨-, hmark, hlt⟩ := hbox.spec
  have htext : text[start + place + 1]? = some mark := by
    have hslice : (text.slice start stop)[place + 1]? = text[start + (place + 1)]? := by
      have hin : start + (place + 1) < stop := by
        rw [slice, length_drop, length_take] at hlt
        omega
      rw [slice, getElem?_drop, getElem?_take_of_lt hin]
    rw [Nat.add_assoc, ← hslice, hmark]
  refine ⟨?_, htext⟩
  have hin := (List.getElem?_eq_some_iff.mp htext).1
  unfold toggleTask
  rw [taskMarkerAt_eq hlength hstart hstop, h]
  simp only [Option.map_some]
  have hedit := applyTextEdit_set hin hlength (otherMark mark)
  unfold otherMark at hedit ⊢
  by_cases hspace : mark = space
  · rw [if_pos hspace] at hedit ⊢
    simp only [hspace, ne_eq, not_true_eq_false, decide_false, Bool.false_eq_true, if_false]
    rw [hedit]
    rfl
  · rw [if_neg hspace] at hedit ⊢
    simp only [ne_eq, hspace, not_false_eq_true, decide_true, if_true]
    rw [hedit]
    rfl

theorem toggleTask_twice (hlength : text.length < 2 ^ 53) (hstart : start ≤ stop) (hstop : stop ≤ text.length)
    (h : (boxes (lines (text.slice start stop)) 0)[ordinal]? = some (place, mark)) :
    toggleTask (toggleTask text start stop ordinal) start stop ordinal =
      text.set (start + place + 1) (otherMark (otherMark mark)) := by
  have hbox := mem_boxes.mp (mem_of_getElem? h)
  rw [(toggleTask_eq hlength hstart hstop h).1]
  have hslice : slice (text.set (start + place + 1) (otherMark mark)) start stop =
      (text.slice start stop).set (place + 1) (otherMark mark) := by
    rw [Nat.add_assoc, slice_set]
  obtain ⟨front, back, hbefore, hafter⟩ := boxes_set hbox (otherMark_isMark mark)
  have hindex : ordinal = front.length := by
    have hsorted := boxes_sorted (lines (text.slice start stop)) 0
    have hnodup : ((boxes (lines (text.slice start stop)) 0).map (·.1)).Nodup :=
      hsorted.imp fun hlt => Nat.ne_of_lt hlt
    have hboth : ((boxes (lines (text.slice start stop)) 0).map (·.1))[ordinal]? =
        ((boxes (lines (text.slice start stop)) 0).map (·.1))[front.length]? := by
      rw [getElem?_map, getElem?_map, h, hbefore]
      simp
    have hin : ordinal < ((boxes (lines (text.slice start stop)) 0).map (·.1)).length := by
      rw [length_map]
      exact (List.getElem?_eq_some_iff.mp h).1
    exact (getElem?_inj hin hnodup).mp hboth
  have hnext : (boxes (lines (slice (text.set (start + place + 1) (otherMark mark)) start stop)) 0)[ordinal]? =
      some (place, otherMark mark) := by
    rw [hslice, hafter, hindex]
    simp
  have hlength' : (text.set (start + place + 1) (otherMark mark)).length < 2 ^ 53 := by
    rw [length_set]
    exact hlength
  have hstop' : stop ≤ (text.set (start + place + 1) (otherMark mark)).length := by
    rw [length_set]
    exact hstop
  rw [(toggleTask_eq hlength' hstart hstop' hnext).1, set_set]

/-! ## Checkboxes and boxes -/

def TakenFrom (source : JsString) (tokens : List TaskToken) : Prop :=
  ∀ item ∈ taskItems tokens, item.1.content.take 3 <+: source.drop item.1.contentStart

/-- Each checkbox has the marker of its ordinal, a toggle changes the mark of its item and nothing else, and a second
one changes it back. -/
def CheckboxMapping (text : JsString) (start stop : Nat) (tokens : List TaskToken) : Prop :=
  (∀ k : Nat, (taskMarkerAt text start stop k).map (·.from_) =
    ((taskItems tokens)[k]?).map fun item => start + item.1.contentStart + 1) ∧
  ∀ (k : Nat) (item : TaskToken × UInt16), (taskItems tokens)[k]? = some item →
    toggleTask text start stop k = text.set (start + item.1.contentStart + 1) (otherMark item.2) ∧
      toggleTask (toggleTask text start stop k) start stop k = text

/-- The checkboxes come in the order of the source, each in a box, none left out, and none is ticked with `X`. -/
structure Aligned (source : JsString) (tokens : List TaskToken) : Prop where
  ascending : ((taskItems tokens).map (·.1.contentStart)).Pairwise (· < ·)
  boxed : ∀ item ∈ taskItems tokens, ∃ mark, IsBox source item.1.contentStart mark
  rendered : ∀ place mark, IsBox source place mark → ∃ item ∈ taskItems tokens, item.1.contentStart = place
  lowercase : ∀ item ∈ taskItems tokens, item.2 ≠ 88

variable {tokens : List TaskToken}

theorem taskItems_mark : ∀ item ∈ taskItems tokens,
    ∃ gap rest, item.1.content = 91 :: item.2 :: 93 :: gap :: rest := by
  induction tokens with
  | nil => exact fun _ h => by cases h
  | cons first tokens ih =>
    intro item hitem
    cases tokens with
    | nil => cases hitem
    | cons second tokens =>
      cases tokens with
      | nil => cases hitem
      | cons third tokens =>
        unfold taskItems at hitem
        rcases mem_append.mp hitem with hhere | hrest
        · split at hhere
          · obtain ⟨mark, hmark, rfl⟩ := mem_map.mp hhere
            have hcontent := Option.mem_toList.mp hmark
            unfold taskContent at hcontent
            split at hcontent
            · next found gap rest heq =>
              split at hcontent
              · cases hcontent
                exact ⟨gap, rest, heq⟩
              · cases hcontent
            · cases hcontent
          · cases hhere
        · exact ih item hrest

theorem item_mark (h : TakenFrom source tokens)
    {item : TaskToken × UInt16} (hitem : item ∈ taskItems tokens)
    (hbox : IsBox source item.1.contentStart mark) : mark = item.2 := by
  obtain ⟨gap, rest, hcontent⟩ := taskItems_mark item hitem
  have htaken := h item hitem
  rw [hcontent] at htaken
  obtain ⟨tail, htail⟩ := htaken
  obtain ⟨-, hmark, -⟩ := hbox.spec
  have hget : (source.drop item.1.contentStart)[1]? = some item.2 := by
    rw [← htail]
    rfl
  rw [getElem?_drop] at hget
  exact Option.some.inj (hmark.symm.trans hget)

theorem boxes_items (h : TakenFrom source tokens)
    (hplaces : (boxes (lines source) 0).map (·.1) = (taskItems tokens).map (·.1.contentStart)) :
    boxes (lines source) 0 = (taskItems tokens).map fun item => (item.1.contentStart, item.2) := by
  refine ext_getElem? fun k => ?_
  have hk := congrArg (·[k]?) hplaces
  simp only [getElem?_map] at hk ⊢
  cases hbox : (boxes (lines source) 0)[k]? with
  | none =>
    rw [hbox] at hk
    cases hitem : (taskItems tokens)[k]? with
    | none => rfl
    | some item =>
      rw [hitem] at hk
      cases hk
  | some box =>
    rw [hbox] at hk
    cases hitem : (taskItems tokens)[k]? with
    | none =>
      rw [hitem] at hk
      cases hk
    | some item =>
      rw [hitem] at hk
      have hplace : box.1 = item.1.contentStart := Option.some.inj hk
      have hin := mem_boxes.mp (mem_of_getElem? hbox : (box.1, box.2) ∈ boxes (lines source) 0)
      rw [hplace] at hin
      rw [Option.map_some, ← item_mark h (mem_of_getElem? hitem) hin, ← hplace]

theorem otherMark_twice (h : IsMark mark) : otherMark (otherMark mark) = mark ↔ mark ≠ 88 := by
  rcases h with rfl | rfl | rfl <;> decide

end

/-! ## Two task lists -/

def itemTokens (content : String) (contentStart : Nat) : List TaskToken :=
  [⟨.listItemOpen, [], 0⟩, ⟨.paragraphOpen, [], 0⟩, ⟨.inline, ofString content, contentStart⟩, ⟨.other, [], 0⟩]

def nestedSource : JsString := ofString "- [ ] a\n  1. [x] b"

def nestedTokens : List TaskToken := itemTokens "[ ] a" 2 ++ itemTokens "[x] b" 13

end Marks
