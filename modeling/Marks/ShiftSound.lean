import Marks.SectionsSound
import Marks.ShiftLinesSound

/-! # Shifting a section

A line that both the shift and the analyser take for a heading is reported with the other level. So the shift changes
headings only where it finds no more of them than are reported. -/

namespace Marks

open JsString List

/-! ## The report of shifted lines -/

structure HeadingLine where
  level : Nat
  text : JsString
  line : Nat
deriving DecidableEq, Repr

def OutlineEntry.said (entry : OutlineEntry) : HeadingLine := ⟨entry.level, entry.text, entry.line⟩

def HeadingLine.shifted (direction : ShiftDirection) (numbers : List Nat) (heading : HeadingLine) : HeadingLine :=
  if heading.line ∈ numbers then { heading with level := shiftedLevel direction heading.level } else heading

theorem withoutReturn_append {a b : JsString} (h : b ≠ []) : withoutReturn (a ++ b) = a ++ withoutReturn b := by
  unfold withoutReturn
  rw [getLast?_append_of_ne_nil _ h, dropLast_append_of_ne_nil h]
  split <;> rfl

variable {behind : JsString} {indent level : Nat}

theorem hashesAt_withoutReturn {line : JsString}
    (h : hashesAt line = some (indent, level, behind)) :
    atxMarks (withoutReturn line) = some (indent, level, withoutReturn behind) := by
  obtain ⟨hmarks, hgap⟩ := hashesAt_eq_some.mp h
  obtain ⟨hsplit, hindent, hpos, hle, hhead⟩ := atxMarks_eq_some.mp hmarks
  obtain ⟨c, rest, rfl, hc⟩ := gap_cons hgap
  refine atxMarks_eq_some.mpr ⟨?_, hindent, hpos, hle, ?_⟩
  · rw [hsplit, withoutReturn_append (by simp), withoutReturn_append (by simp)]
  cases rest with
  | nil =>
    unfold withoutReturn
    split
    · simp
    · exact hhead
  | cons d rest =>
    have hcons : withoutReturn (c :: d :: rest) = c :: withoutReturn (d :: rest) :=
      withoutReturn_append (a := [c]) (by simp)
    rw [hcons]
    exact hhead

variable {from_ : Nat}

theorem entryOf_marks {line : JsString} {number : Nat}
    (h : hashesAt line = some (indent, level, behind)) :
    entryOf from_ number line =
      (spaced endsHeading (withoutReturn behind)).map fun found => ⟨level, trim found.2, from_, number⟩ := by
  have hmarks := hashesAt_withoutReturn h
  unfold entryOf headingMatch
  rw [hmarks]
  show (((spaced endsHeading (withoutReturn behind)).bind _).map _ : Option OutlineEntry) = _
  cases spaced endsHeading (withoutReturn behind) <;> rfl

variable {entry : OutlineEntry}

theorem hashesAt_of_entry {line : JsString} {number : Nat}
    (h : entryOf from_ number line = some entry) :
    ∃ indent behind, hashesAt line = some (indent, entry.level, behind) := by
  obtain ⟨⟨indent, level, found⟩, hfound, rfl⟩ := Option.map_eq_some_iff.mp h
  obtain ⟨i, l, behind, hmarks, hgap, -⟩ := headingMatch_isSome.mp (Option.isSome_iff_exists.mpr ⟨_, hfound⟩)
  obtain ⟨b, gap, hmarks', -⟩ := headingMatch_eq_some.mp hfound
  rw [hmarks] at hmarks'
  cases hmarks'
  obtain ⟨more, hmore, -⟩ := withoutReturn_split line
  have hline := hashesAt_append (hashesAt_eq_some.mpr ⟨hmarks, hgap⟩) more
  rw [← hmore] at hline
  exact ⟨_, _, hline⟩

section
variable {direction : ShiftDirection} {numbers : List Nat} {number : Nat} {all : List JsString} {line : JsString}

theorem Marked.entryOf (h : Marked direction line) (hmem : number ∈ numbers) (from_ to_ : Nat) :
    (entryOf to_ number (shiftLine direction line)).map OutlineEntry.said =
      ((Marks.entryOf from_ number line).map OutlineEntry.said).map (·.shifted direction numbers) := by
  obtain ⟨indent, level, behind, hline, hrange⟩ := h
  rw [entryOf_marks (hashesAt_shiftLine hline hrange), entryOf_marks hline]
  cases spaced endsHeading (withoutReturn behind) with
  | none => rfl
  | some found =>
    refine congrArg some ?_
    show (⟨shiftedLevel direction level, trim found.2, number⟩ : HeadingLine) =
      HeadingLine.shifted direction numbers ⟨level, trim found.2, number⟩
    rw [HeadingLine.shifted, if_pos hmem]

theorem Marked.markerAt (h : Marked direction line) (from_ to_ : Nat) :
    markerAt 0 to_ (shiftLine direction line) = none ∧ markerAt 0 from_ line = none := by
  obtain ⟨indent, level, behind, hline, hrange⟩ := h
  rw [Marks.markerAt, Marks.markerAt, if_pos (Nat.zero_le _), if_pos (Nat.zero_le _),
    marks_fence (hashesAt_withoutReturn hline), marks_fence (hashesAt_withoutReturn (hashesAt_shiftLine hline hrange))]
  exact ⟨rfl, rfl⟩

theorem Marked.head (h : Marked direction line) : line.head? ≠ some 45 := by
  obtain ⟨indent, level, behind, hline, -⟩ := h
  obtain ⟨hmarks, -⟩ := hashesAt_eq_some.mp hline
  obtain ⟨rfl, -, hpos, -⟩ := atxMarks_eq_some.mp hmarks
  obtain ⟨n, rfl⟩ : ∃ n, level = n + 1 := ⟨level - 1, by omega⟩
  cases indent with
  | zero =>
    intro heq
    cases heq
  | succ m =>
    intro heq
    cases heq

theorem outline_shifted (h : MarkedAt direction numbers all number) (from_ to_ : Nat) (fence : Option Fence) :
    (outline 0 (shiftLines direction numbers all number) to_ number fence).map OutlineEntry.said =
      ((outline 0 all from_ number fence).map OutlineEntry.said).map (·.shifted direction numbers) := by
  induction all generalizing number from_ to_ fence with
  | nil => rfl
  | cons source rest ih =>
    rw [shiftLines_cons, outline_cons, outline_cons, map_append, map_append, map_append]
    by_cases hmem : number ∈ numbers
    · obtain ⟨hto, hfrom⟩ := (h.head hmem).markerAt from_ to_
      rw [if_pos hmem, hto, hfrom, ih h.tail]
      refine congrArg (· ++ _) ?_
      by_cases hopen : fence = none
      · have hentry := (h.head hmem).entryOf hmem from_ to_
        rw [if_pos ⟨Nat.zero_le _, hopen, rfl⟩, if_pos ⟨Nat.zero_le _, hopen, rfl⟩]
        rw [← Option.toList_map, hentry, Option.toList_map, Option.toList_map]
      · rw [if_neg (fun hc => hopen hc.2.1), if_neg (fun hc => hopen hc.2.1)]
        rfl
    · have hmarker : ∀ at_, markerAt 0 at_ source = fenceMarker (withoutReturn source) := fun at_ =>
        if_pos (Nat.zero_le at_)
      rw [if_neg hmem, hmarker, hmarker, ih h.tail]
      refine congrArg (· ++ _) ?_
      by_cases hopen : fence = none ∧ fenceMarker (withoutReturn source) = none
      · rw [if_pos ⟨Nat.zero_le _, hopen⟩, if_pos ⟨Nat.zero_le _, hopen⟩]
        unfold entryOf
        cases headingMatch (withoutReturn source) with
        | none => rfl
        | some found =>
          show [(⟨found.2.1, trim found.2.2, number⟩ : HeadingLine)] =
            [HeadingLine.shifted direction numbers ⟨found.2.1, trim found.2.2, number⟩]
          rw [HeadingLine.shifted, if_neg hmem]
      · rw [if_neg (fun hc => hopen hc.2), if_neg (fun hc => hopen hc.2)]
        rfl

theorem closes_shiftLines (h : MarkedAt direction numbers all number) :
    closes (shiftLines direction numbers all number) = closes all := by
  induction all generalizing number with
  | nil => rfl
  | cons source rest ih =>
    have hline : ∀ mark, (if number ∈ numbers then shiftLine direction source else source) = dashes ++ mark ↔
        source = dashes ++ mark := by
      intro mark
      by_cases hmem : number ∈ numbers
      · rw [if_pos hmem]
        constructor
        · intro heq
          exact absurd (by rw [heq]; rfl) (h.head hmem).opposite.1.head
        · intro heq
          exact absurd (by rw [heq]; rfl) (h.head hmem).head
      · rw [if_neg hmem]
    have hbare := hline []
    have hreturn := hline [13]
    rw [append_nil] at hbare
    have hb : ((if number ∈ numbers then shiftLine direction source else source) == dashes) = (source == dashes) := by
      rw [Bool.eq_iff_iff, beq_iff_eq, beq_iff_eq]
      exact hbare
    have hr : ((if number ∈ numbers then shiftLine direction source else source) == dashes ++ [13]) =
        (source == dashes ++ [13]) := by
      rw [Bool.eq_iff_iff, beq_iff_eq, beq_iff_eq]
      exact hreturn
    have ih := ih h.tail
    rw [shiftLines_cons]
    cases rest with
    | nil => exact hb
    | cons next rest =>
      rw [shiftLines_cons] at ih ⊢
      show (_ == dashes || _ == dashes ++ [13] || closes (_ :: _)) = (_ == dashes || _ == dashes ++ [13] || closes _)
      rw [hb, hr, ih]

end

variable {i : Nat} {source : JsString}

theorem HeadingAt.entries_shifted {direction : ShiftDirection} {numbers : List Nat} {text other : JsString}
    {before after : List JsString}
    (h : HeadingAt text i entry before source after) (hi : i < maxItems)
    (hleast : ∀ n ∈ numbers, before.length + 1 ≤ n) (hmem : before.length + 1 ∈ numbers)
    (hmarked : MarkedAt direction numbers (lines text) 1)
    (hother : lines other = shiftLines direction numbers (lines text) 1) :
    (entries other).map OutlineEntry.said =
      ((entries text).map OutlineEntry.said).map (·.shifted direction numbers) := by
  have hbefore : shiftLines direction numbers before 1 = before := shiftLines_outside fun n hn => by
    have := hleast n hn
    exact Or.inr (by omega)
  rw [h.split] at hmarked
  have hrest := hmarked.append
  rw [Nat.add_comm 1] at hrest
  have hlines : lines other = before ++ shiftLine direction source :: shiftLines direction numbers after (before.length + 2) := by
    rw [hother, h.split, shiftLines_append, hbefore, Nat.add_comm 1, shiftLines_cons, if_pos hmem]
  have hsource := hrest.head hmem
  have hafter : MarkedAt direction numbers after (before.length + 2) := hrest.tail
  have hentry := hsource.entryOf hmem (leading before).length (leading before).length
  rw [h.entry] at hentry
  obtain ⟨found, hfound, hsaid⟩ := Option.map_eq_some_iff.mp hentry
  have hplace := h.replace hlines hfound fun hopen => by rw [closes_shiftLines hafter]; exact hopen
  have hbody := h.bodyOf_eq_of_le hplace
  rw [hplace.entries_split hi, h.entries_split hi, hbody]
  simp only [map_append, map_cons, map_take]
  have hearlier : ((outline (bodyOf text) before 0 1 none).map OutlineEntry.said).map (·.shifted direction numbers) =
      (outline (bodyOf text) before 0 1 none).map OutlineEntry.said := by
    rw [map_map]
    refine map_congr_left fun entry hentry => ?_
    have hline : entry.line < before.length + 1 := by
      obtain ⟨j, hj⟩ := getElem?_of_mem hentry
      obtain ⟨start, line, tail, hsplit, -, -, -, -, -, hline⟩ := outline_at hj
      have hlength := congrArg List.length hsplit
      rw [length_append, length_cons] at hlength
      rw [entryOf_line hline]
      omega
    show HeadingLine.shifted direction numbers entry.said = entry.said
    rw [HeadingLine.shifted, if_neg]
    intro hmem
    have := hleast _ hmem
    have hsame : entry.said.line = entry.line := rfl
    omega
  rw [hearlier, outline_shifted hafter ((leading before).length + (source.length + 1)), hsaid]

/-! ## The part that is read -/

theorem lines_tail (a tail : JsString) :
    ∃ start last x more, lines a = start ++ [last] ∧ lines (a ++ tail) = start ++ (last ++ x) :: more := by
  have hall : ∀ all : List JsString, all ≠ [] → (∀ line ∈ all, newline ∉ line) →
      ∃ start last x more, all = start ++ [last] ∧ lines (joinLines all ++ tail) = start ++ (last ++ x) :: more := by
    intro all
    induction all with
    | nil => exact fun hne => absurd rfl hne
    | cons source rest ih =>
      intro _ hlines
      rw [forall_mem_cons] at hlines
      cases rest with
      | nil =>
        obtain ⟨line, s, rfl, hline, hs⟩ := break_exists tail
        refine ⟨[], source, line, behindBreak s, rfl, ?_⟩
        rw [joinLines_single, ← append_assoc, lines_break _ hs]
        · rfl
        · rw [mem_append, not_or]
          exact ⟨hlines.1, hline⟩
      | cons next rest =>
        obtain ⟨start, last, x, more, hsplit, hwhole⟩ := ih (by simp) hlines.2
        refine ⟨source :: start, last, x, more, by rw [hsplit]; rfl, ?_⟩
        rw [joinLines_cons source (by simp), append_assoc, cons_append, lines_append hlines.1, hwhole]
        rfl
  have h := hall (lines a) (lines_ne_nil a) (lines_no_newline a)
  rw [joinLines_lines] at h
  exact h

variable {least : Nat}

section
variable {direction : ShiftDirection} {numbers : List Nat} {number : Nat} {text : JsString}

theorem MarkedAt.extend (h : MarkedAt direction numbers (lines text) number)
    (hwithin : ∀ n ∈ numbers, n < number + (lines text).length) (tail : JsString) :
    MarkedAt direction numbers (lines (text ++ tail)) number := by
  obtain ⟨start, last, x, more, hlines, hwhole⟩ := lines_tail text tail
  intro i line hline hmem
  rw [hlines] at h hwithin
  rw [hwhole] at hline
  have hlt := hwithin _ hmem
  rw [length_append, length_singleton] at hlt
  rcases Nat.lt_or_ge i start.length with hi | hi
  · rw [getElem?_append_left hi] at hline
    exact h i line (by rw [getElem?_append_left hi]; exact hline) hmem
  have hsame : i = start.length := by omega
  subst hsame
  rw [getElem?_append_right (Nat.le_refl _), Nat.sub_self] at hline
  obtain rfl : last ++ x = line := Option.some.inj hline
  exact (h start.length last (by simp) hmem).append x

theorem entries_lines (h : entry ∈ entries text) :
    ∃ line from_, (lines text)[entry.line - 1]? = some line ∧ 1 ≤ entry.line ∧ entry.line < 1 + (lines text).length ∧
      entryOf from_ entry.line line = some entry := by
  obtain ⟨i, hi⟩ := getElem?_of_mem h
  obtain ⟨-, before, source, after, hat⟩ := headingAt_of hi
  have hnumber := entryOf_line hat.entry
  have hentry := hat.entry
  rw [← hnumber] at hentry
  refine ⟨source, _, ?_, by omega, ?_, hentry⟩
  · rw [hat.split, hnumber]
    simp
  · rw [hat.split, length_append, length_cons]
    omega

theorem marked_of_entries (h : ∀ n ∈ numbers, ∃ entry ∈ entries text, entry.line = n ∧ InRange direction entry.level) :
    MarkedAt direction numbers (lines text) 1 ∧ ∀ n ∈ numbers, 1 ≤ n ∧ n < 1 + (lines text).length := by
  constructor
  · intro i line hline hmem
    obtain ⟨entry, hentry, hnumber, hrange⟩ := h _ hmem
    obtain ⟨source, from_, hsource, -, -, hfound⟩ := entries_lines hentry
    rw [hnumber, Nat.add_sub_cancel_left, hline] at hsource
    cases hsource
    obtain ⟨indent, behind, hmarks⟩ := hashesAt_of_entry hfound
    exact ⟨_, _, _, hmarks, hrange⟩
  · intro n hn
    obtain ⟨entry, hentry, rfl, -⟩ := h n hn
    obtain ⟨-, -, -, hpos, hlt, -⟩ := entries_lines hentry
    exact ⟨hpos, hlt⟩

theorem entries_reread {width other : Nat} (hnodup : numbers.Nodup) (hleast : least ∈ numbers)
    (hmin : ∀ n ∈ numbers, least ≤ n)
    (hfound : ∀ n ∈ numbers, ∃ entry ∈ entries (text.take width), entry.line = n ∧ InRange direction entry.level)
    (hgrown : Grown direction width other numbers.length) :
    (entries ((joinLines (shiftLines direction numbers (lines text) 1)).take other)).map OutlineEntry.said =
      ((entries (text.take width)).map OutlineEntry.said).map (·.shifted direction numbers) := by
  obtain ⟨hmarked, hwithin⟩ := marked_of_entries hfound
  have hne := lines_ne_nil (text.take width)
  have hwhole := joinLines_shiftLines hne (lines_no_newline _) hmarked (fun n hn => (hwithin n hn).2) (text.drop width)
  rw [joinLines_lines, take_append_drop] at hwhole
  have hlength := joinLines_grown hne hmarked
  rw [joinLines_lines, countIn_eq hnodup hwithin, length_take] at hlength
  have hcut : (joinLines (shiftLines direction numbers (lines text) 1)).take other =
      joinLines (shiftLines direction numbers (lines (text.take width)) 1) := by
    rw [hwhole]
    by_cases hlong : width ≤ text.length
    · rw [Nat.min_eq_left hlong] at hlength
      have hother : (joinLines (shiftLines direction numbers (lines (text.take width)) 1)).length = other := by
        cases direction with
        | promote =>
          have hgrown : other + numbers.length = width := hgrown
          have hlength : _ + numbers.length = width := hlength
          omega
        | demote =>
          have hgrown : other = width + numbers.length := hgrown
          have hlength : _ = width + numbers.length := hlength
          omega
      rw [← hother, take_left]
    · rw [Nat.min_eq_right (by omega)] at hlength
      rw [drop_eq_nil_of_le (by omega), append_nil]
      refine take_of_length_le ?_
      cases direction with
      | promote =>
        have hgrown : other + numbers.length = width := hgrown
        have hlength : _ + numbers.length = text.length := hlength
        omega
      | demote =>
        have hgrown : other = width + numbers.length := hgrown
        have hlength : _ = text.length + numbers.length := hlength
        omega
  have hlines : lines (joinLines (shiftLines direction numbers (lines (text.take width)) 1)) =
      shiftLines direction numbers (lines (text.take width)) 1 := by
    refine lines_joinLines ?_ (shiftLines_no_newline (lines_no_newline _))
    intro hnil
    have hzero := congrArg List.length hnil
    rw [shiftLines_length] at hzero
    exact hne (length_eq_zero_iff.mp hzero)
  obtain ⟨entry, hentry, hline, -⟩ := hfound least hleast
  obtain ⟨i, hi⟩ := getElem?_of_mem hentry
  obtain ⟨hlt, before, source, after, hat⟩ := headingAt_of hi
  have hnumber := entryOf_line hat.entry
  rw [hline] at hnumber
  rw [hcut]
  exact hat.entries_shifted hlt (by rw [← hnumber]; exact hmin) (by rw [← hnumber]; exact hleast) hmarked hlines

end

/-! ## The operation -/

theorem shiftHeadingDepth_ok {text result : JsString} {heading : IntelligenceHeading} {direction : ShiftDirection} :
    shiftHeadingDepth text heading direction = .ok result ↔
      ¬ (direction = .promote ∧ heading.level = 1) ∧ depths (text.slice heading.sectionFrom heading.sectionTo) ≠ [] ∧
        (∀ level ∈ depths (text.slice heading.sectionFrom heading.sectionTo), InRange direction level) ∧
        heading.sectionFrom ≤ heading.sectionTo ∧ heading.sectionTo ≤ text.length ∧
        result = text.take heading.sectionFrom ++
          shiftedText direction (text.slice heading.sectionFrom heading.sectionTo) ++ text.drop heading.sectionTo := by
  unfold shiftHeadingDepth
  generalize text.slice heading.sectionFrom heading.sectionTo = part
  by_cases htop : direction = .promote ∧ heading.level = 1
  · rw [if_pos htop]
    exact ⟨fun h => absurd h (by simp [throw, throwThe, MonadExceptOf.throw]), fun h => absurd htop h.1⟩
  rw [if_neg htop]
  dsimp only
  have hrange : (depths part).any (fun level =>
      decide (shiftedLevel direction level < 1 ∨ 6 < shiftedLevel direction level)) = false ↔
      ∀ level ∈ depths part, InRange direction level := by
    rw [any_eq_false]
    refine forall₂_congr fun level _ => ?_
    rw [decide_eq_true_eq, InRange]
    omega
  cases hunsafe : (depths part).any (fun level =>
      decide (shiftedLevel direction level < 1 ∨ 6 < shiftedLevel direction level)) with
  | true =>
    rw [Bool.or_true, if_pos rfl]
    refine ⟨fun h => absurd h (by simp [throw, throwThe, MonadExceptOf.throw]), fun h => ?_⟩
    rw [hrange.mpr h.2.2.1] at hunsafe
    cases hunsafe
  | false =>
    have hall := hrange.mp hunsafe
    cases hdepths : depths part with
    | nil =>
      exact ⟨fun h => absurd h (by simp [throw, throwThe, MonadExceptOf.throw]), fun h => absurd rfl h.2.1⟩
    | cons level rest =>
      rw [hdepths] at hall
      have hchanged : ((level :: rest).any fun level =>
          decide (1 ≤ shiftedLevel direction level ∧ shiftedLevel direction level ≤ 6)) = true := by
        have hlevel : 1 ≤ shiftedLevel direction level ∧ shiftedLevel direction level ≤ 6 :=
          hall level mem_cons_self
        rw [any_cons, decide_eq_true hlevel, Bool.true_or]
      rw [hchanged, isEmpty_cons, Bool.false_or, if_neg Bool.false_ne_true, if_pos rfl]
      unfold replaceRange
      by_cases hvalid : heading.sectionTo < heading.sectionFrom ∨ text.length < heading.sectionTo
      · rw [if_pos hvalid]
        refine ⟨fun h => absurd h (by simp [throw, throwThe, MonadExceptOf.throw]), fun h => ?_⟩
        obtain ⟨-, -, -, hle, hle', -⟩ := h
        omega
      · rw [if_neg hvalid]
        constructor
        · intro h
          exact ⟨htop, by simp, hall, by omega, by omega, (Except.ok.inj h).symm⟩
        · rintro ⟨-, -, -, -, -, rfl⟩
          rfl

/-! ### There and back -/

inductive Lined : List JsString → Prop
  | last {line : JsString} (h : unbroken line = true) : Lined [line]
  | cons {line : JsString} {c : UInt16} {rest : List JsString} (h : unbroken line = true)
      (hc : isLineTerminator c = true) (hrest : Lined rest) : Lined ((line ++ [c]) :: rest)

theorem lined_terminated (s : JsString) : Lined (terminated s) := by
  induction s with
  | nil => exact .last rfl
  | cons c s ih =>
    cases hc : isLineTerminator c with
    | true =>
      rw [terminated_terminator hc]
      have hempty : unbroken [] = true := rfl
      exact .cons hempty hc ih
    | false =>
      obtain ⟨first, rest, hs, heq⟩ := terminated_cons hc s
      rw [hs] at ih
      rw [heq]
      cases ih with
      | last h => exact .last (unbroken_cons.mpr ⟨hc, h⟩)
      | cons h hd hrest =>
        rename_i line d
        have hline : unbroken (c :: line) = true := unbroken_cons.mpr ⟨hc, h⟩
        exact .cons hline hd hrest

variable {parts : List JsString}

theorem terminated_of_lined (h : Lined parts) : terminated parts.flatten = parts := by
  have hfront : ∀ {line : JsString}, unbroken line = true → ∀ {s first rest}, terminated s = first :: rest →
      terminated (line ++ s) = (line ++ first) :: rest := by
    intro line
    induction line with
    | nil => exact fun _ _ _ _ hs => hs
    | cons c line ih =>
      intro hline s first rest hs
      obtain ⟨hc, hline⟩ := unbroken_cons.mp hline
      obtain ⟨head, tail, htail, heq⟩ := terminated_cons hc (line ++ s)
      rw [ih hline hs] at htail
      cases htail
      rw [cons_append, heq]
      rfl
  induction h with
  | last hline =>
    have hnil : terminated [] = [[]] := rfl
    have h := hfront hline hnil
    rw [append_nil] at h
    rw [flatten_cons, flatten_nil, append_nil]
    exact h
  | cons hline hc hrest ih =>
    rw [flatten_cons, append_assoc, singleton_append]
    refine hfront hline ?_
    rw [terminated_terminator hc, ih]

theorem shiftLine_unbroken {direction : ShiftDirection} {line : JsString} (h : unbroken line = true) :
    unbroken (shiftLine direction line) = true := by
  cases hline : hashesAt line with
  | none =>
    rw [shiftLine_none hline]
    exact h
  | some found =>
    obtain ⟨indent, level, behind⟩ := found
    by_cases hrange : InRange direction level
    · obtain ⟨hmarks, -⟩ := hashesAt_eq_some.mp hline
      obtain ⟨rfl, -⟩ := atxMarks_eq_some.mp hmarks
      rw [shiftLine_eq hline hrange]
      refine unbroken_append.mpr ⟨(unbroken_append.mp h).1, unbroken_append.mpr ⟨?_, ?_⟩⟩
      · exact all_eq_true.mpr fun c hc => by rw [eq_of_mem_replicate hc]; rfl
      · exact (unbroken_append.mp (unbroken_append.mp h).2).2
    · have hnot : shiftedLevel direction level < 1 ∨ 6 < shiftedLevel direction level := by
        unfold InRange at hrange
        omega
      unfold shiftLine
      rw [hline]
      dsimp only
      rw [if_pos hnot]
      exact h

theorem lined_shifted {direction : ShiftDirection} (h : Lined parts) :
    Lined (parts.map (shiftLine direction)) := by
  induction h with
  | last hline => exact .last (shiftLine_unbroken hline)
  | cons hline hc hrest ih =>
    rw [map_cons, (shiftLine_terminator _ hc _).1]
    exact .cons (shiftLine_unbroken hline) hc ih

theorem shiftedText_back {direction : ShiftDirection} {s : JsString} (h : ∀ level ∈ depths s, InRange direction level) :
    depths (shiftedText direction s) = (depths s).map (shiftedLevel direction) ∧
      shiftedText (opposite direction) (shiftedText direction s) = s ∧
      ∀ level ∈ depths (shiftedText direction s), InRange (opposite direction) level := by
  have hterminated : terminated (shiftedText direction s) = (terminated s).map (shiftLine direction) := by
    rw [shiftedText, flatMap_def]
    exact terminated_of_lined (lined_shifted (lined_terminated s))
  have hparts : ∀ parts : List JsString, (∀ level ∈ parts.filterMap fun line => (hashesAt line).map (·.2.1),
      InRange direction level) →
      ((parts.map (shiftLine direction)).filterMap fun line => (hashesAt line).map (·.2.1)) =
          (parts.filterMap fun line => (hashesAt line).map (·.2.1)).map (shiftedLevel direction) ∧
        (parts.map (shiftLine direction)).flatMap (shiftLine (opposite direction)) = parts.flatten ∧
        ∀ level ∈ (parts.map (shiftLine direction)).filterMap (fun line => (hashesAt line).map (·.2.1)),
          InRange (opposite direction) level := by
    intro parts
    induction parts with
    | nil => exact fun _ => ⟨rfl, rfl, fun level hlevel => absurd hlevel (by simp)⟩
    | cons line parts ih =>
      intro h
      rw [map_cons, flatMap_cons, flatten_cons]
      cases hline : hashesAt line with
      | none =>
        have hnone : (hashesAt line).map (·.2.1) = none := by rw [hline]; rfl
        rw [filterMap_cons, hnone] at h
        obtain ⟨hdepths, hback, hrange⟩ := ih h
        rw [shiftLine_none hline, shiftLine_none hline, filterMap_cons, filterMap_cons, hnone, hback]
        exact ⟨hdepths, rfl, hrange⟩
      | some found =>
        obtain ⟨indent, level, behind⟩ := found
        have hsome : (hashesAt line).map (·.2.1) = some level := by rw [hline]; rfl
        rw [filterMap_cons, hsome] at h
        rw [forall_mem_cons] at h
        obtain ⟨hdepths, hback, hrange⟩ := ih h.2
        have hmarked : Marked direction line := ⟨indent, level, behind, hline, h.1⟩
        obtain ⟨hmarks, -⟩ := hashesAt_eq_some.mp hline
        obtain ⟨-, -, hpos, hle, -⟩ := atxMarks_eq_some.mp hmarks
        have hshifted : (hashesAt (shiftLine direction line)).map (·.2.1) = some (shiftedLevel direction level) := by
          rw [hashesAt_shiftLine hline h.1]
          rfl
        rw [filterMap_cons, filterMap_cons, hshifted, hsome, hmarked.opposite.2, hback, hdepths]
        refine ⟨rfl, rfl, ?_⟩
        dsimp only
        rw [forall_mem_cons, ← hdepths]
        exact ⟨opposite_inRange h.1 hpos hle, hrange⟩
  obtain ⟨hdepths, hback, hrange⟩ := hparts (terminated s) h
  rw [terminated_flatten] at hback
  refine ⟨?_, ?_, ?_⟩
  · rw [depths, hterminated]
    exact hdepths
  · rw [shiftedText, hterminated]
    exact hback
  · rw [depths, hterminated]
    exact hrange

def shiftedHeading (heading : IntelligenceHeading) (direction : ShiftDirection) (before after : Nat) :
    IntelligenceHeading :=
  { heading with
    level := shiftedLevel direction heading.level
    sectionTo := heading.sectionTo + after - before }

theorem shiftHeadingDepth_back {text result : JsString} {heading : IntelligenceHeading} {direction : ShiftDirection}
    (hlevel : 1 ≤ heading.level) (h : shiftHeadingDepth text heading direction = .ok result) :
    shiftHeadingDepth result (shiftedHeading heading direction text.length result.length) (opposite direction) =
      .ok text := by
  obtain ⟨htop, hne, hrange, hle, hle', rfl⟩ := shiftHeadingDepth_ok.mp h
  obtain ⟨hdepths, hback, hrange'⟩ := shiftedText_back hrange
  generalize hpart : text.slice heading.sectionFrom heading.sectionTo = part at hne hrange hdepths hback hrange' ⊢
  have hstart : (text.take heading.sectionFrom).length = heading.sectionFrom := length_take_of_le (by omega)
  have htext : text = text.take heading.sectionFrom ++ part ++ text.drop heading.sectionTo := by
    have hfront : text.take heading.sectionTo = text.take heading.sectionFrom ++ part := by
      rw [← hpart, slice]
      conv_lhs => rw [← take_append_drop heading.sectionFrom (text.take heading.sectionTo)]
      rw [take_take, Nat.min_eq_left hle]
    rw [← hfront, take_append_drop]
  have hlength := congrArg List.length htext
  rw [length_append, length_append, hstart, length_drop] at hlength
  have hstop : (shiftedHeading heading direction text.length (text.take heading.sectionFrom ++ shiftedText direction part ++
      text.drop heading.sectionTo).length).sectionTo = heading.sectionFrom + (shiftedText direction part).length := by
    show heading.sectionTo + _ - _ = _
    rw [length_append, length_append, hstart, length_drop]
    omega
  have hslice : JsString.slice (text.take heading.sectionFrom ++ shiftedText direction part ++ text.drop heading.sectionTo)
      heading.sectionFrom (heading.sectionFrom + (shiftedText direction part).length) = shiftedText direction part := by
    have hfront : (text.take heading.sectionFrom ++ shiftedText direction part).length =
        heading.sectionFrom + (shiftedText direction part).length := by rw [length_append, hstart]
    rw [slice, ← hfront, take_left]
    exact drop_left' hstart
  refine shiftHeadingDepth_ok.mpr ⟨?_, ?_, ?_, ?_, ?_, ?_⟩
  · rintro ⟨hdirection, hone⟩
    cases direction with
    | promote => exact absurd hdirection (by simp [opposite])
    | demote =>
      have hone : heading.level + 1 = 1 := hone
      omega
  · rw [hstop]
    show depths (JsString.slice _ heading.sectionFrom _) ≠ []
    rw [hslice, hdepths]
    intro hnil
    exact hne (map_eq_nil_iff.mp hnil)
  · rw [hstop]
    show ∀ level ∈ depths (JsString.slice _ heading.sectionFrom _), _
    rw [hslice]
    exact hrange'
  · rw [hstop]
    exact Nat.le_add_right _ _
  · rw [hstop, length_append, length_append, hstart]
    omega
  · rw [hstop]
    show text = List.take heading.sectionFrom _ ++ shiftedText (opposite direction) (JsString.slice _ heading.sectionFrom _) ++
      List.drop (heading.sectionFrom + _) _
    rw [hslice, hback]
    have htake : (text.take heading.sectionFrom ++ shiftedText direction part ++ text.drop heading.sectionTo).take
        heading.sectionFrom = text.take heading.sectionFrom := by
      rw [append_assoc]
      exact take_left' hstart
    have hdrop : (text.take heading.sectionFrom ++ shiftedText direction part ++ text.drop heading.sectionTo).drop
        (heading.sectionFrom + (shiftedText direction part).length) = text.drop heading.sectionTo :=
      drop_left' (by rw [length_append, hstart])
    rw [htake, hdrop]
    exact htext

/-! ## Shifts that change headings only -/

def IntelligenceHeading.said (heading : IntelligenceHeading) : HeadingLine :=
  ⟨heading.level, heading.text, heading.range.line⟩

def reportedIn (headings : List IntelligenceHeading) (heading : IntelligenceHeading) : List IntelligenceHeading :=
  headings.filter fun candidate =>
    heading.sectionFrom ≤ candidate.sectionFrom && candidate.sectionFrom < heading.sectionTo

def linesIn (text : JsString) (heading : IntelligenceHeading) : List Nat :=
  (reportedIn (analyzeDocument text).headings heading).map (·.range.line)

structure ShiftedTo (text : JsString) (heading : IntelligenceHeading) (direction : ShiftDirection)
    (result : JsString) : Prop where
  lines : result = joinLines (shiftLines direction (linesIn text heading) (lines text) 1)
  report : (analyzeDocument result).headings.map IntelligenceHeading.said =
    ((analyzeDocument text).headings.map IntelligenceHeading.said).map (·.shifted direction (linesIn text heading))
  back : shiftHeadingDepth result (shiftedHeading heading direction text.length result.length) (opposite direction) =
    .ok text

def rereadWidth (direction : ShiftDirection) (count : Nat) : Nat :=
  match direction with
  | .promote => maxAnalyzedChars + count
  | .demote => maxAnalyzedChars - count

/-- The expression finds just as many headings in the section as are reported there. The last condition is about a text
that the analyser does not read to its end. -/
structure Shiftable (text : JsString) (heading : IntelligenceHeading) (direction : ShiftDirection) : Prop where
  depths : (depths (text.slice heading.sectionFrom heading.sectionTo)).length =
    (reportedIn (analyzeDocument text).headings heading).length
  rest : (headingsOf (text.take (rereadWidth direction (reportedIn (analyzeDocument text).headings heading).length))).map
    IntelligenceHeading.said = (analyzeDocument text).headings.map IntelligenceHeading.said

section
variable {text result : JsString} {heading : IntelligenceHeading} {direction : ShiftDirection}

theorem said_eq (text : JsString) :
    (headingsOf text).map IntelligenceHeading.said = (entries text).map OutlineEntry.said := by
  rw [entries, map_map]
  rfl

theorem outline_nodup {bodyFrom : Nat} {all : List JsString} {number : Nat} {fence : Option Fence} :
    ((outline bodyFrom all from_ number fence).map OutlineEntry.line).Nodup ∧
      ∀ entry ∈ outline bodyFrom all from_ number fence, number ≤ entry.line := by
  induction all generalizing from_ number fence with
  | nil => exact ⟨nodup_nil, fun entry h => absurd h (by simp [outline])⟩
  | cons source rest ih =>
    obtain ⟨hnodup, hle⟩ := @ih (from_ + (source.length + 1)) (number + 1)
      (stepFence fence (markerAt bodyFrom from_ source))
    rw [outline_cons]
    by_cases hopen : bodyFrom ≤ from_ ∧ fence = none ∧ markerAt bodyFrom from_ source = none
    · rw [if_pos hopen]
      cases hentry : entryOf from_ number source with
      | none =>
        rw [Option.toList_none, nil_append]
        exact ⟨hnodup, fun entry h => by have := hle entry h; omega⟩
      | some first =>
        have hline := entryOf_line hentry
        rw [Option.toList_some, singleton_append, map_cons, nodup_cons, forall_mem_cons]
        refine ⟨⟨?_, hnodup⟩, by omega, fun entry h => by have := hle entry h; omega⟩
        intro hmem
        obtain ⟨entry, hentry, hsame⟩ := mem_map.mp hmem
        have := hle entry hentry
        omega
    · rw [if_neg hopen, nil_append]
      exact ⟨hnodup, fun entry h => by have := hle entry h; omega⟩

theorem linesIn_nodup : (linesIn text heading).Nodup := by
  have hsub : (linesIn text heading).Sublist ((entries (window text)).map OutlineEntry.line) := by
    rw [entries, map_map, linesIn, reportedIn, analyzeDocument_headings]
    exact (filter_sublist).map _
  refine hsub.nodup ?_
  rw [entries_eq, map_take]
  exact (outline_nodup.1).sublist (take_sublist _ _)

variable {n : Nat}

theorem mem_linesIn :
    n ∈ linesIn text heading ↔ ∃ found ∈ headingsOf (window text), found.range.line = n ∧
      heading.sectionFrom ≤ found.sectionFrom ∧ found.sectionFrom < heading.sectionTo := by
  rw [linesIn, reportedIn, analyzeDocument_headings, mem_map]
  constructor
  · rintro ⟨found, hfound, hline⟩
    obtain ⟨hmem, hin⟩ := mem_filter.mp hfound
    have hin := (Bool.and_eq_true _ _).mp hin
    exact ⟨found, hmem, hline, of_decide_eq_true hin.1, of_decide_eq_true hin.2⟩
  · rintro ⟨found, hmem, hline, hle, hlt⟩
    exact ⟨found, mem_filter.mpr ⟨hmem, (Bool.and_eq_true _ _).mpr ⟨decide_eq_true hle, decide_eq_true hlt⟩⟩, hline⟩

theorem linesIn_section {before after : List JsString}
    (hmem : heading ∈ headingsOf (window text)) (hat : HeadingAt (window text) i heading.entry before source after)
    (hn : n ∈ linesIn text heading) :
    ∃ k line from_ entry, (lines (text.slice heading.sectionFrom heading.sectionTo))[k]? = some line ∧
      n = before.length + 1 + k ∧ entryOf from_ n line = some entry ∧ entry ∈ entries (window text) := by
  obtain ⟨found, hfound, hline, hle, hlt⟩ := mem_linesIn.mp hn
  have hentry : found.entry ∈ entries (window text) := mem_map_of_mem hfound
  obtain ⟨j, hj⟩ := getElem?_of_mem hentry
  obtain ⟨-, start, line, rest, hat'⟩ := headingAt_of hj
  have hfrom : heading.sectionFrom = (leading before).length := entryOf_from hat.entry
  have hfrom' : found.sectionFrom = (leading start).length := entryOf_from hat'.entry
  have hnumber : found.range.line = start.length + 1 := entryOf_line hat'.entry
  have hstop : heading.sectionTo = (window text).length ∨ ∃ front next back,
      lines (window text) = front ++ next :: back ∧ heading.sectionTo = (leading front).length := by
    rcases sectionTo_cases hmem with hend | ⟨entry, hentry, hend⟩
    · exact Or.inl hend
    · obtain ⟨k, hk⟩ := getElem?_of_mem hentry
      obtain ⟨-, front, next, back, hfront⟩ := headingAt_of hk
      exact Or.inr ⟨front, next, back, hfront.split, by rw [hend]; exact entryOf_from hfront.entry⟩
  rw [hfrom, hfrom'] at hle
  rw [hfrom'] at hlt
  obtain ⟨mid, more, rfl, hlines⟩ := section_line hat.split hat'.split hle hlt hstop
  -- the section lies in what is read
  have hwithin : heading.sectionTo ≤ (window text).length := by
    rcases hstop with hend | ⟨front, next, back, hfront, hend⟩
    · omega
    have hwhole : window text = leading front ++ joinLines (next :: back) := by
      rw [← joinLines_append _ (by simp), ← hfront, joinLines_lines]
    have hlength := congrArg List.length hwhole
    rw [length_append] at hlength
    omega
  have hslice : text.slice heading.sectionFrom heading.sectionTo =
      (window text).slice (leading before).length heading.sectionTo := by
    have hmin : heading.sectionTo ≤ maxAnalyzedChars := by
      rw [window, length_take] at hwithin
      omega
    rw [slice, slice, window, take_take, Nat.min_eq_left hmin, hfrom]
  refine ⟨mid.length, line, _, found.entry, by rw [hslice, hlines]; simp, ?_, by rw [← hline, hnumber]; exact hat'.entry,
    hentry⟩
  rw [← hline, hnumber, length_append]
  omega

theorem shifted_opposite {headings : List HeadingLine} {numbers : List Nat}
    (h : ∀ heading ∈ headings, heading.line ∈ numbers → InRange direction heading.level) :
    (headings.map (·.shifted direction numbers)).map (·.shifted (opposite direction) numbers) = headings := by
  rw [map_map]
  refine (map_congr_left (g := id) fun heading hheading => ?_).trans (map_id _)
  show HeadingLine.shifted (opposite direction) numbers (heading.shifted direction numbers) = heading
  by_cases hmem : heading.line ∈ numbers
  · have hshifted : heading.shifted direction numbers = { heading with level := shiftedLevel direction heading.level } :=
      if_pos hmem
    rw [hshifted, HeadingLine.shifted, if_pos hmem, shiftedLevel_opposite (h heading hheading hmem)]
  · have hshifted : heading.shifted direction numbers = heading := if_neg hmem
    rw [hshifted]
    exact if_neg hmem

theorem depths_of_marks {line : JsString} (h : hashesAt line = some (indent, level, behind)) :
    level ∈ depths line := by
  obtain ⟨first, rest, hsplit, hline, hfirst⟩ := terminated_first line
  have hmarks : ∃ b, hashesAt first = some (indent, level, b) := by
    rcases hfirst with rfl | ⟨start, c, rfl, hc⟩
    · rw [flatten_nil, append_nil] at hline
      exact ⟨behind, by rw [← hline]; exact h⟩
    cases hstart : hashesAt start with
    | none =>
      rw [hline, append_assoc, singleton_append, hashesAt_terminator hc hstart] at h
      cases h
    | some found =>
      obtain ⟨i, l, b⟩ := found
      have hwhole := hashesAt_append hstart (c :: rest.flatten)
      rw [hline, append_assoc, singleton_append, hwhole] at h
      cases h
      exact ⟨_, hashesAt_append hstart [c]⟩
  obtain ⟨b, hb⟩ := hmarks
  rw [depths, hsplit]
  exact mem_filterMap.mpr ⟨first, mem_cons_self, by rw [hb]; rfl⟩

theorem level_bounds (h : entry ∈ entries text) : 1 ≤ entry.level ∧ entry.level ≤ 6 := by
  obtain ⟨line, from_, -, -, -, hentry⟩ := entries_lines h
  obtain ⟨indent, behind, hmarks⟩ := hashesAt_of_entry hentry
  obtain ⟨-, -, hpos, hle, -⟩ := atxMarks_eq_some.mp (hashesAt_eq_some.mp hmarks).1
  exact ⟨hpos, hle⟩

theorem level_unique {other : OutlineEntry} (h : entry ∈ entries text) (h' : other ∈ entries text)
    (hline : entry.line = other.line) : entry.level = other.level := by
  obtain ⟨line, from_, hat, -, -, hentry⟩ := entries_lines h
  obtain ⟨line', from', hat', -, -, hentry'⟩ := entries_lines h'
  rw [hline, hat'] at hat
  cases hat
  obtain ⟨found, hfound, hlevel⟩ := Option.map_eq_some_iff.mp hentry
  obtain ⟨found', hfound', hlevel'⟩ := Option.map_eq_some_iff.mp hentry'
  rw [hfound] at hfound'
  cases hfound'
  rw [← hlevel, ← hlevel']

theorem linesIn_length (text : JsString) (heading : IntelligenceHeading) : (linesIn text heading).length ≤ maxAnalyzedChars := by
  have hreported : (reportedIn (analyzeDocument text).headings heading).length ≤ (entries (window text)).length := by
    rw [entries, length_map, reportedIn, analyzeDocument_headings]
    exact length_filter_le _ _
  have hcapped : (entries (window text)).length ≤ maxItems := by
    rw [entries_eq]
    exact length_take_le _ _
  have hlimit : maxItems ≤ maxAnalyzedChars := by decide
  rw [linesIn, length_map]
  omega

theorem rereadWidth_grown (direction : ShiftDirection) (text : JsString) (heading : IntelligenceHeading) :
    Grown direction (rereadWidth direction (linesIn text heading).length) maxAnalyzedChars
    (linesIn text heading).length ∧
    Grown (opposite direction) maxAnalyzedChars (rereadWidth direction (linesIn text heading).length)
      (linesIn text heading).length := by
  have hle := linesIn_length text heading
  cases direction with
  | promote => exact ⟨rfl, rfl⟩
  | demote => exact ⟨(Nat.sub_add_cancel hle).symm, Nat.sub_add_cancel hle⟩

theorem report_shifted_iff (hleast : least ∈ linesIn text heading)
    (hmin : ∀ n ∈ linesIn text heading, least ≤ n)
    (hlevels : ∀ n ∈ linesIn text heading,
      ∃ entry ∈ entries (window text), entry.line = n ∧ InRange direction entry.level)
    (hresult : result = joinLines (shiftLines direction (linesIn text heading) (lines text) 1)) :
    (entries (window result)).map OutlineEntry.said =
        ((entries (window text)).map OutlineEntry.said).map (·.shifted direction (linesIn text heading)) ↔
      (entries (text.take (rereadWidth direction (linesIn text heading).length))).map OutlineEntry.said =
        (entries (window text)).map OutlineEntry.said := by
  obtain ⟨hgrown, hgrown'⟩ := rereadWidth_grown direction text heading
  constructor
  · intro hreport
    obtain ⟨hmarked, hwithin⟩ := marked_of_entries hlevels
    have hall := hmarked.extend (fun n hn => (hwithin n hn).2) (text.drop maxAnalyzedChars)
    rw [window, take_append_drop] at hall
    have hlines : lines result = shiftLines direction (linesIn text heading) (lines text) 1 := by
      rw [hresult]
      refine lines_joinLines ?_ (shiftLines_no_newline (lines_no_newline text))
      intro hnil
      have hzero := congrArg List.length hnil
      rw [shiftLines_length] at hzero
      exact lines_ne_nil text (length_eq_zero_iff.mp hzero)
    have hback : joinLines (shiftLines (opposite direction) (linesIn text heading) (lines result) 1) = text := by
      rw [hlines, (shiftLines_opposite hall).2, joinLines_lines]
    have hfound : ∀ n ∈ linesIn text heading, ∃ entry ∈ entries (result.take maxAnalyzedChars),
        entry.line = n ∧ InRange (opposite direction) entry.level := by
      intro n hn
      obtain ⟨entry, hentry, hline, hrange⟩ := hlevels n hn
      have hmem : entry.said.shifted direction (linesIn text heading) ∈
          (entries (window result)).map OutlineEntry.said := by
        rw [hreport]
        exact mem_map_of_mem (mem_map_of_mem hentry)
      obtain ⟨other, hother, hsaid⟩ := mem_map.mp hmem
      have hshifted : entry.said.shifted direction (linesIn text heading) =
          { entry.said with level := shiftedLevel direction entry.level } :=
        if_pos (show entry.line ∈ _ by rw [hline]; exact hn)
      rw [hshifted] at hsaid
      have hlevel : other.level = shiftedLevel direction entry.level := congrArg HeadingLine.level hsaid
      have hnumber : other.line = entry.line := congrArg HeadingLine.line hsaid
      obtain ⟨hpos, hle⟩ := level_bounds hentry
      exact ⟨other, hother, by rw [hnumber, hline], by rw [hlevel]; exact opposite_inRange hrange hpos hle⟩
    have h := entries_reread linesIn_nodup hleast hmin hfound hgrown'
    rw [hback] at h
    refine h.trans ((congrArg _ hreport).trans (shifted_opposite fun said hsaid hmem => ?_))
    obtain ⟨entry, hentry, rfl⟩ := mem_map.mp hsaid
    obtain ⟨other, hother, hline, hrange⟩ := hlevels _ hmem
    have hsame := level_unique hentry hother hline.symm
    show InRange direction entry.level
    rw [hsame]
    exact hrange
  · intro hrest
    have hfound : ∀ n ∈ linesIn text heading, ∃ entry ∈
        entries (text.take (rereadWidth direction (linesIn text heading).length)),
        entry.line = n ∧ InRange direction entry.level := by
      intro n hn
      obtain ⟨entry, hentry, hline, hrange⟩ := hlevels n hn
      have hmem : entry.said ∈ (entries (text.take (rereadWidth direction (linesIn text heading).length))).map
          OutlineEntry.said := by
        rw [hrest]
        exact mem_map_of_mem hentry
      obtain ⟨other, hother, hsaid⟩ := mem_map.mp hmem
      have hlevel : other.level = entry.level := congrArg HeadingLine.level hsaid
      have hnumber : other.line = entry.line := congrArg HeadingLine.line hsaid
      exact ⟨other, hother, by rw [hnumber, hline], by rw [hlevel]; exact hrange⟩
    have h := entries_reread linesIn_nodup hleast hmin hfound hgrown
    rw [← hresult, hrest] at h
    exact h

/-- A shift that goes through changes headings only exactly when the expression finds no more of them than the
analyser. -/
theorem shiftHeadingDepth_iff (hreported : heading ∈ (analyzeDocument text).headings)
    (hok : shiftHeadingDepth text heading direction = .ok result) :
    ShiftedTo text heading direction result ↔ Shiftable text heading direction := by
  obtain ⟨i, before, line, rest, hi, htext, hline, hrest, hfrom, hroom, hat⟩ := reported_at hreported
  obtain ⟨htop, hne, hrange, hle, hle', hresult⟩ := shiftHeadingDepth_ok.mp hok
  have hmem : heading ∈ headingsOf (window text) := by rw [← analyzeDocument_headings]; exact hreported
  have hnumber : heading.range.line = before.length + 1 := entryOf_line hat.entry
  have hin : ∀ n ∈ linesIn text heading, _ := fun n hn => linesIn_section hmem hat hn
  generalize hpart : text.slice heading.sectionFrom heading.sectionTo = part at hne hrange hresult hin
  have hlt : heading.sectionFrom < heading.sectionTo := by
    refine Nat.lt_of_le_of_ne hle fun hsame => hne ?_
    rw [← hpart, ← hsame, slice, drop_eq_nil_of_le (length_take_le _ _)]
    rfl
  have hleast : before.length + 1 ∈ linesIn text heading :=
    mem_linesIn.mpr ⟨heading, hmem, hnumber, Nat.le_refl _, hlt⟩
  have hmin : ∀ n ∈ linesIn text heading, before.length + 1 ≤ n := by
    intro n hn
    obtain ⟨k, -, -, -, -, rfl, -⟩ := hin n hn
    exact Nat.le_add_right _ _
  -- what the expression finds on the lines of the headings
  have hdepths : depths part = (lines part).flatMap depths := by
    have h := (shiftedText_lines direction (lines_ne_nil part)).2
    rw [joinLines_lines] at h
    exact h
  have hline' : ∀ j other, (lines part)[j]? = some other → before.length + 1 + j ∈ linesIn text heading →
      ∃ indent behind, ∃ entry ∈ entries (window text), entry.line = before.length + 1 + j ∧
        hashesAt other = some (indent, entry.level, behind) ∧ InRange direction entry.level := by
    intro j other hother hj
    obtain ⟨k, found, from_, entry, hk, hsum, hentry, hmem'⟩ := hin _ hj
    obtain rfl : j = k := by omega
    rw [hother] at hk
    cases hk
    obtain ⟨indent, behind, hmarks⟩ := hashesAt_of_entry hentry
    refine ⟨indent, behind, entry, hmem', entryOf_line hentry, hmarks, hrange _ ?_⟩
    rw [hdepths]
    exact mem_flatMap.mpr ⟨other, mem_of_getElem? hother, depths_of_marks hmarks⟩
  have hfound : ∀ j other, (lines part)[j]? = some other → before.length + 1 + j ∈ linesIn text heading →
      (hashesAt other).isSome = true := by
    intro j other hother hj
    obtain ⟨indent, behind, entry, -, -, hmarks, -⟩ := hline' j other hother hj
    rw [hmarks]
    rfl
  have hmarked : MarkedAt direction (linesIn text heading) (lines part) (before.length + 1) := by
    intro j other hother hj
    obtain ⟨indent, behind, entry, -, -, hmarks, hlevel⟩ := hline' j other hother hj
    exact ⟨indent, entry.level, behind, hmarks, hlevel⟩
  have hwithin : ∀ n ∈ linesIn text heading,
      before.length + 1 ≤ n ∧ n < before.length + 1 + (lines part).length := by
    intro n hn
    obtain ⟨k, other, -, -, hk, rfl, -⟩ := hin n hn
    have := (List.getElem?_eq_some_iff.mp hk).1
    omega
  have hlevels : ∀ n ∈ linesIn text heading,
      ∃ entry ∈ entries (window text), entry.line = n ∧ InRange direction entry.level := by
    intro n hn
    obtain ⟨k, other, from_, entry, hk, rfl, hentry, hmem'⟩ := hin n hn
    obtain ⟨-, -, found, hfound', hnumber', -, hlevel⟩ := hline' k other hk hn
    exact ⟨found, hfound', hnumber', hlevel⟩
  -- the lines of the whole text
  have hwhole : joinLines (shiftLines direction (linesIn text heading) (lines text) 1) =
      text.take heading.sectionFrom ++
        joinLines (shiftLines direction (linesIn text heading) (lines part) (before.length + 1)) ++
        text.drop heading.sectionTo := by
    have htake : text.take heading.sectionFrom = leading before := by rw [hfrom, htext, take_left]
    have hsplit : text = leading before ++ (part ++ text.drop heading.sectionTo) := by
      have hfront : text.take heading.sectionTo = leading before ++ part := by
        rw [← hpart, slice]
        conv_lhs => rw [← take_append_drop heading.sectionFrom (text.take heading.sectionTo)]
        rw [take_take, Nat.min_eq_left hle, htake]
      rw [← append_assoc, ← hfront, take_append_drop]
    have hlines : lines text = before ++ lines (part ++ text.drop heading.sectionTo) := by
      conv_lhs => rw [hsplit]
      exact lines_leading hat.no_newline.1 _
    have hfront : shiftLines direction (linesIn text heading) before 1 = before :=
      shiftLines_outside fun n hn => Or.inr (by have := hmin n hn; omega)
    have hne' : shiftLines direction (linesIn text heading) (lines (part ++ text.drop heading.sectionTo))
        (before.length + 1) ≠ [] := by
      intro hnil
      have hzero := congrArg List.length hnil
      rw [shiftLines_length] at hzero
      exact lines_ne_nil _ (length_eq_zero_iff.mp hzero)
    have htail := joinLines_shiftLines (lines_ne_nil part) (lines_no_newline part) hmarked
      (fun n hn => (hwithin n hn).2) (text.drop heading.sectionTo)
    rw [joinLines_lines] at htail
    rw [hlines, shiftLines_append, hfront, Nat.add_comm 1, joinLines_append before hne', htail, htake, append_assoc]
  have hcount := shiftedText_iff (lines_ne_nil part) (by rw [joinLines_lines]; exact hrange) hfound hmarked linesIn_nodup hwithin
  rw [joinLines_lines] at hcount
  have hlength : (linesIn text heading).length = (reportedIn (analyzeDocument text).headings heading).length :=
    length_map _
  have hlines : result = joinLines (shiftLines direction (linesIn text heading) (lines text) 1) ↔
      (depths part).length = (linesIn text heading).length := by
    rw [hresult, hwhole, append_left_inj, append_cancel_left_eq]
    exact hcount
  have hsaid : ∀ t, (analyzeDocument t).headings.map IntelligenceHeading.said =
      (entries (window t)).map OutlineEntry.said := by
    intro t
    rw [analyzeDocument_headings, said_eq]
  constructor
  · rintro ⟨hedit, hreport, -⟩
    rw [hsaid, hsaid] at hreport
    have hrest := (report_shifted_iff hleast hmin hlevels hedit).mp hreport
    refine ⟨by rw [hpart, ← hlength]; exact hlines.mp hedit, ?_⟩
    rw [said_eq, hsaid, ← hlength]
    exact hrest
  · rintro ⟨hdepths', hrest⟩
    rw [hpart, ← hlength] at hdepths'
    rw [said_eq, hsaid, ← hlength] at hrest
    have hedit := hlines.mpr hdepths'
    refine ⟨hedit, ?_, shiftHeadingDepth_back (level_bounds (hat.mem hi)).1 hok⟩
    rw [hsaid, hsaid]
    exact (report_shifted_iff hleast hmin hlevels hedit).mpr hrest

end

/-- `# A` on the only line. -/
def onlyHeading : IntelligenceHeading := ⟨1, [65], ⟨0, 3, 1, 1⟩, 0, 3⟩

theorem shift_headings_only :
    (onlyHeading ∈ (analyzeDocument [35, 32, 65]).headings ∧
        shiftHeadingDepth [35, 32, 65] onlyHeading .demote = .ok [35, 35, 32, 65]) ∧
      (ShiftedTo [35, 32, 65] onlyHeading .demote [35, 35, 32, 65] ↔ Shiftable [35, 32, 65] onlyHeading .demote) :=
  have hreported : onlyHeading ∈ (analyzeDocument [35, 32, 65]).headings := by decide +kernel
  have hok : shiftHeadingDepth [35, 32, 65] onlyHeading .demote = .ok [35, 35, 32, 65] := rfl
  ⟨⟨hreported, hok⟩, shiftHeadingDepth_iff hreported hok⟩

/-- A line of code that looks like a heading, in the section of one: `# A`, and `# x` in a fence. -/
def fencedText : JsString := [35, 32, 65, 10, 96, 96, 96, 10, 35, 32, 120, 10, 96, 96, 96]

theorem shift_changes_code :
    ¬ ∀ text heading direction result, heading ∈ (analyzeDocument text).headings →
      shiftHeadingDepth text heading direction = .ok result → ShiftedTo text heading direction result := by
  intro h
  have hshifted := h fencedText ⟨1, [65], ⟨0, 3, 1, 1⟩, 0, 15⟩ .demote
    [35, 35, 32, 65, 10, 96, 96, 96, 10, 35, 35, 32, 120, 10, 96, 96, 96] (by decide +kernel) rfl
  have hlines := hshifted.lines
  have hexpected : joinLines (shiftLines .demote (linesIn fencedText ⟨1, [65], ⟨0, 3, 1, 1⟩, 0, 15⟩)
      (lines fencedText) 1) = [35, 35, 32, 65, 10, 96, 96, 96, 10, 35, 32, 120, 10, 96, 96, 96] := by decide +kernel
  rw [hexpected] at hlines
  cases hlines

end Marks
