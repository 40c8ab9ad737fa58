import Marks.ExchangeSound
import Marks.SiblingsSound

/-! # Moving sections

A section that is moved changes places with a section of its level that stands right in front of it or right behind it.
Where a heading of a lower level stands between the two, what it opens is lost on the way down. The second section also
comes to stand in front of another one, so it has to end its last line, its fences and the report's room for it. -/

namespace Marks

open JsString List

def StructureDirection.back : StructureDirection → StructureDirection
  | .up => .down
  | .down => .up

def StructureDirection.selected (direction : StructureDirection) (first second : IntelligenceHeading) :
    IntelligenceHeading :=
  match direction with
  | .up => second
  | .down => first

def sectionOf (text : JsString) (heading : IntelligenceHeading) : JsString :=
  text.slice heading.sectionFrom heading.sectionTo

def WholeLines (s : JsString) : Prop := s = [] ∨ s.getLast? = some newline

/-- The result is the text with two sections that follow each other exchanged, and perhaps a line break between them. No
line is joined to another, and each heading is reported again in its place. -/
structure Exchange (text result : JsString) (first second : IntelligenceHeading) (before gap rest : JsString) : Prop where
  level : second.level = first.level
  starts : before.length = first.sectionFrom
  adjacent : first.sectionTo = second.sectionFrom
  split : text = before ++ (sectionOf text first ++ (sectionOf text second ++ rest))
  result_eq : result = before ++ (sectionOf text second ++ (gap ++ (sectionOf text first ++ rest)))
  gap_cases : gap = [] ∨ gap = [newline]
  whole : WholeLines before ∧ WholeLines (sectionOf text first) ∧ WholeLines (sectionOf text second ++ gap)
  reported : ∀ found ∈ (analyzeDocument text).headings, ∃ again ∈ (analyzeDocument result).headings,
    again.level = found.level ∧ again.text = found.text ∧ again.sectionFrom =
      movedTo before.length (sectionOf text first).length (sectionOf text second).length gap.length found.sectionFrom

/-- The section and an adjacent one of its level change places, and moving it back restores the text. -/
def MovedWhole (text : JsString) (heading : IntelligenceHeading) (direction : StructureDirection) (result : JsString) :
    Prop :=
  ∃ first ∈ (analyzeDocument text).headings, ∃ second ∈ (analyzeDocument text).headings, ∃ before gap rest,
    direction.selected first second = heading ∧ Exchange text result first second before gap rest ∧
      ∃ again ∈ (analyzeDocument result).headings,
        again.sectionFrom = movedTo before.length (sectionOf text first).length (sectionOf text second).length
          gap.length heading.sectionFrom ∧
        moveHeadingSection result (analyzeDocument result).headings again direction.back = .ok text

structure EndsWhole (text : JsString) : Prop where
  newline : text.getLast? = some newline
  fence : fenceBehind (bodyOf text) (lines text) 0 none = none
  room : (outline (bodyOf text) (lines text) 0 1 none).length ≤ maxItems

def FollowedUp (text : JsString) (heading : IntelligenceHeading) : Prop :=
  heading.sectionTo < (window text).length ∨ EndsWhole (window text)

def Movable (text : JsString) (heading : IntelligenceHeading) (direction : StructureDirection) : Prop :=
  match direction with
  | .up => FollowedUp text heading
  | .down => ∃ next ∈ (analyzeDocument text).headings,
      next.sectionFrom = heading.sectionTo ∧ next.level = heading.level ∧ FollowedUp text next

/-! ## The edit -/

def swapped (text : JsString) (first second : IntelligenceHeading) : JsString :=
  text.take first.sectionFrom ++ (sectionOf text second ++ (sectionOf text first ++ text.drop second.sectionTo))

section
variable {text : JsString} {stop : Nat} {headings : List IntelligenceHeading} {first second : IntelligenceHeading}

theorem Sectioned.move_eq (h : Sectioned stop headings) (htext : stop ≤ text.length) (hfirst : first ∈ headings)
    (hsecond : second ∈ headings) (hadjacent : first.sectionTo = second.sectionFrom) (hlevel : second.level = first.level)
    (direction : StructureDirection) :
    moveHeadingSection text headings (direction.selected first second) direction = .ok (swapped text first second) := by
  have hin := h.within first hfirst
  have hlater := h.within second hsecond
  have hrange : ¬ (second.sectionTo < first.sectionFrom ∨ text.length < second.sectionTo) := by omega
  cases direction with
  | up =>
    have hneighbor := (h.neighbor_up_iff htext hsecond).mpr ⟨hfirst, hlevel.symm, hadjacent⟩
    show moveHeadingSection text headings second .up = _
    rw [moveHeadingSection, hneighbor]
    dsimp only
    rw [replaceRange, if_neg hrange, swapped, sectionOf, sectionOf, hadjacent, append_assoc, append_assoc]
    rfl
  | down =>
    have hneighbor := h.neighbor_down_of htext hfirst hsecond hlevel hadjacent.symm
    show moveHeadingSection text headings first .down = _
    rw [moveHeadingSection, hneighbor]
    dsimp only
    rw [replaceRange, if_neg hrange, swapped, append_assoc, append_assoc]
    rfl

theorem slice_middle (before part rest : JsString) :
    JsString.slice (before ++ (part ++ rest)) before.length (before.length + part.length) = part := by
  rw [slice, ← append_assoc, ← length_append, take_left, drop_left]

theorem swapped_eq {before one two rest : JsString} (htext : text = before ++ (one ++ (two ++ rest)))
    (hfrom : first.sectionFrom = before.length) (hmid : first.sectionTo = before.length + one.length)
    (hadjacent : first.sectionTo = second.sectionFrom) (hto : second.sectionTo = before.length + one.length + two.length) :
    sectionOf text first = one ∧ sectionOf text second = two ∧ swapped text first second = before ++ (two ++ (one ++ rest)) := by
  have hone : sectionOf text first = one := by
    rw [sectionOf, htext, hfrom, hmid, slice_middle]
  have htwo : sectionOf text second = two := by
    rw [sectionOf, htext, ← hadjacent, hmid, hto, ← append_assoc, ← length_append, slice_middle]
  refine ⟨hone, htwo, ?_⟩
  have hrest : text.drop second.sectionTo = rest := by
    rw [hto, htext, ← append_assoc, ← append_assoc, ← length_append, ← length_append, drop_left]
  rw [swapped, hone, htwo, hrest, hfrom]
  conv_lhs => rw [htext]
  rw [take_left]

end

/-! ## The lines of two sections -/

section
variable {text : JsString} {first second : IntelligenceHeading}

theorem headingAt_mem {heading : IntelligenceHeading} (h : heading ∈ headingsOf text) :
    ∃ i before source after, i < maxItems ∧ HeadingAt text i heading.entry before source after ∧
      heading.sectionFrom = (leading before).length := by
  obtain ⟨i, hi⟩ := getElem?_of_mem (mem_map_of_mem (f := IntelligenceHeading.entry) h)
  obtain ⟨hlt, before, source, after, hat⟩ := headingAt_of hi
  exact ⟨i, before, source, after, hlt, hat, entryOf_from hat.entry⟩

theorem headingAt_between {i j : Nat} {a b : OutlineEntry} {before start after later : List JsString} {one two : JsString}
    (hfirst : HeadingAt text i a before one after) (hsecond : HeadingAt text j b start two later)
    (hlt : (leading before).length < (leading start).length) :
    ∃ ones, start = before ++ one :: ones ∧ after = ones ++ two :: later := by
  have hsplit := hfirst.split.symm.trans hsecond.split
  obtain ⟨middle, rfl⟩ := leading_prefix hsplit (Nat.le_of_lt hlt)
  cases middle with
  | nil =>
    rw [append_nil] at hlt
    omega
  | cons line ones =>
    rw [append_assoc, append_cancel_left_eq, cons_append, List.cons.injEq] at hsplit
    obtain ⟨rfl, rfl⟩ := hsplit
    exact ⟨ones, rfl, rfl⟩

theorem lines_ended (h : text.getLast? = some newline) : ∃ all, all ≠ [] ∧ lines text = all ++ [[]] ∧ text = leading all := by
  obtain ⟨start, rfl⟩ := getLast?_eq_some_iff.mp h
  have htext : leading (lines start) = start ++ [newline] := by
    rw [leading_joinLines (lines_ne_nil start), joinLines_lines]
  refine ⟨lines start, lines_ne_nil start, ?_, htext.symm⟩
  rw [← htext, lines_leading_nil (lines_no_newline start)]

theorem blocks_of (hfirst : first ∈ headingsOf text) (hsecond : second ∈ headingsOf text)
    (hadjacent : first.sectionTo = second.sectionFrom)
    (hend : second.sectionTo < text.length ∨ text.getLast? = some newline) :
    ∃ before one ones two twos rest, Blocks text first.entry second.entry before one ones two twos rest ∧
      first.sectionFrom = (leading before).length ∧
      second.sectionFrom = (leading before).length + (leading (one :: ones)).length ∧
      second.sectionTo = (leading before).length + (leading (one :: ones)).length + (leading (two :: twos)).length ∧
      (second.sectionTo = text.length → rest = [[]]) ∧
      (second.sectionTo < text.length → ∃ k third three more, k < maxItems ∧
        HeadingAt text k third (before ++ (one :: ones ++ two :: twos)) three more) := by
  have hsectioned := headingsOf_sectioned text
  have hin := hsectioned.within first hfirst
  have hlater := hsectioned.within second hsecond
  obtain ⟨i, before, one, after, hi, hone, hfrom⟩ := headingAt_mem hfirst
  obtain ⟨j, start, two, behind, hj, htwo, hstart⟩ := headingAt_mem hsecond
  obtain ⟨ones, rfl, rfl⟩ := headingAt_between hone htwo (by omega)
  have hwidth : second.sectionFrom = (leading before).length + (leading (one :: ones)).length := by
    rw [hstart, leading_append, length_append]
  by_cases hstop : second.sectionTo < text.length
  · obtain ⟨third, hthird, hthirdFrom, -⟩ := (hsectioned.closed second hsecond).resolve_left (Nat.ne_of_lt hstop)
    obtain ⟨k, front, three, more, hk, hat, hfront⟩ := headingAt_mem hthird
    obtain ⟨twos, rfl, rfl⟩ := headingAt_between htwo hat (by omega)
    rw [append_assoc] at hat
    refine ⟨before, one, ones, two, twos, three :: more, ⟨by simp, ⟨i, hi, hone⟩, ⟨j, hj, htwo⟩⟩, hfrom, hwidth, ?_,
      fun heq => absurd heq (Nat.ne_of_lt hstop), fun _ => ⟨k, third.entry, three, more, hk, hat⟩⟩
    rw [← hthirdFrom, hfront, leading_append, length_append, ← hstart, hwidth]
  · have hto : second.sectionTo = text.length := Nat.le_antisymm hlater.2 (Nat.le_of_not_lt hstop)
    obtain ⟨all, hne, hlines, htext⟩ := lines_ended (hend.resolve_left hstop)
    have hsplit := htwo.split.symm.trans hlines
    have hdash := (entryOf_dashless htwo.entry []).1
    rw [append_nil] at hdash
    -- the last line is empty, the heading is not
    obtain ⟨twos, rfl⟩ : ∃ twos, behind = twos ++ [[]] := by
      rcases eq_nil_or_concat' behind with rfl | ⟨twos, last, rfl⟩
      · have hlast := (append_inj' hsplit rfl).2
        exact absurd (List.cons.inj hlast).1 hdash
      · refine ⟨twos, ?_⟩
        rw [← cons_append, ← append_assoc] at hsplit
        rw [(append_inj' hsplit rfl).2]
    have hall : before ++ (one :: ones) ++ (two :: twos) = all := by
      rw [← cons_append, ← append_assoc] at hsplit
      exact (append_inj' hsplit rfl).1
    refine ⟨before, one, ones, two, twos, [[]], ⟨by simp, ⟨i, hi, hone⟩, ⟨j, hj, htwo⟩⟩, hfrom, hwidth, ?_, fun _ => rfl,
      fun hlt => absurd hlt hstop⟩
    rw [hto, htext, ← hall, leading_append, leading_append, length_append, length_append]

end

/-! ## The whole text -/

section
variable {text : JsString} {first second : IntelligenceHeading}

theorem window_append {start : JsString} (h : start.length = (window text).length) :
    window (start ++ text.drop maxAnalyzedChars) = start := by
  rw [window, length_take] at h
  by_cases hlong : maxAnalyzedChars ≤ text.length
  · rw [window, take_append, take_of_length_le (by omega)]
    have hnone : maxAnalyzedChars - start.length = 0 := by omega
    rw [hnone, take_zero, append_nil]
  · rw [window, drop_eq_nil_of_le (by omega), append_nil, take_of_length_le (by omega)]

theorem window_split (text : JsString) : window text ++ text.drop maxAnalyzedChars = text := take_append_drop _ _

structure Cut (text : JsString) (first second : IntelligenceHeading) (before : List JsString) (one : JsString)
    (ones : List JsString) (two : JsString) (twos rest : List JsString) : Prop where
  blocks : Blocks (window text) first.entry second.entry before one ones two twos rest
  starts : first.sectionFrom = (leading before).length
  middle : second.sectionFrom = (leading before).length + (leading (one :: ones)).length
  ends : second.sectionTo = (leading before).length + (leading (one :: ones)).length + (leading (two :: twos)).length
  ended : second.sectionTo = (window text).length → rest = [[]]
  followed : second.sectionTo < (window text).length → ∃ k third three more, k < maxItems ∧
    HeadingAt (window text) k third (before ++ (one :: ones ++ two :: twos)) three more

theorem cut_of (hfirst : first ∈ headingsOf (window text)) (hsecond : second ∈ headingsOf (window text))
    (hadjacent : first.sectionTo = second.sectionFrom)
    (hend : second.sectionTo < (window text).length ∨ (window text).getLast? = some newline) :
    ∃ before one ones two twos rest, Cut text first second before one ones two twos rest := by
  obtain ⟨before, one, ones, two, twos, rest, hblocks, hfrom, hmiddle, hends, hended, hfollowed⟩ :=
    blocks_of hfirst hsecond hadjacent hend
  exact ⟨before, one, ones, two, twos, rest, hblocks, hfrom, hmiddle, hends, hended, hfollowed⟩

def RunsClosed (text : JsString) (before : List JsString) (one : JsString) (ones : List JsString) (two : JsString)
    (twos : List JsString) : Prop :=
  fenceBehind 0 (two :: twos) 0 none = none ∧
    runsCount (bodyOf (window text)) before (one :: ones) (two :: twos) ≤ maxItems

section
variable {before ones twos rest : List JsString} {one two : JsString}
variable (h : Cut text first second before one ones two twos rest)
include h

theorem Cut.text_eq : text = leading before ++
    (leading (one :: ones) ++ (leading (two :: twos) ++ (joinLines rest ++ text.drop maxAnalyzedChars))) := by
  conv_lhs => rw [← window_split text, ← h.blocks.text_eq, exchanged]
  simp only [append_assoc]

theorem Cut.sections (hadjacent : first.sectionTo = second.sectionFrom) :
    sectionOf text first = leading (one :: ones) ∧ sectionOf text second = leading (two :: twos) ∧
      swapped text first second = exchanged before (one :: ones) (two :: twos) rest ++ text.drop maxAnalyzedChars := by
  obtain ⟨hone, htwo, hswapped⟩ :=
    swapped_eq h.text_eq h.starts (hadjacent.trans h.middle) hadjacent h.ends
  refine ⟨hone, htwo, ?_⟩
  rw [hswapped, exchanged]
  simp only [append_assoc]

theorem Cut.exchanged_length : (exchanged before (one :: ones) (two :: twos) rest).length = (window text).length := by
  rw [← h.blocks.text_eq, exchanged, exchanged]
  simp only [length_append]
  omega

theorem Cut.window_swapped (hadjacent : first.sectionTo = second.sectionFrom) :
    window (swapped text first second) = exchanged before (one :: ones) (two :: twos) rest := by
  rw [(h.sections hadjacent).2.2, window_append h.exchanged_length]

theorem Cut.settled (hfollowed : FollowedUp text second) : RunsClosed text before one ones two twos := by
  by_cases hlt : second.sectionTo < (window text).length
  · obtain ⟨k, third, three, more, hk, hat⟩ := h.followed hlt
    exact h.blocks.of_third hk hat
  have hends := hfollowed.resolve_left hlt
  have hlength := congrArg List.length h.blocks.text_eq
  rw [exchanged, length_append, length_append, length_append] at hlength
  have hto := h.ends
  exact (h.blocks.of_end (h.ended (by omega))).mp ⟨hends.fence, hends.room⟩

variable (hfirst : first ∈ headingsOf (window text)) (hsecond : second ∈ headingsOf (window text))
  (hadjacent : first.sectionTo = second.sectionFrom) (hlevel : second.level = first.level)
  (hsettled : RunsClosed text before one ones two twos)
include hsettled

theorem Cut.again {found : IntelligenceHeading} (hfound : found ∈ headingsOf (window text)) :
    ∃ again ∈ headingsOf (exchanged before (one :: ones) (two :: twos) rest), again.level = found.level ∧
      again.text = found.text ∧ again.sectionFrom =
        movedTo (leading before).length (leading (one :: ones)).length (leading (two :: twos)).length 0
          found.sectionFrom := by
  obtain ⟨entry, hentry, hlevel, htext, hfrom⟩ :=
    h.blocks.again hsettled.1 hsettled.2 (mem_map_of_mem (f := IntelligenceHeading.entry) hfound)
  obtain ⟨again, hagain, rfl⟩ := mem_map.mp hentry
  exact ⟨again, hagain, hlevel, htext, hfrom⟩

theorem Cut.back {again : IntelligenceHeading}
    (hagain : again ∈ headingsOf (exchanged before (one :: ones) (two :: twos) rest)) :
    ∃ found ∈ headingsOf (window text), again.level = found.level ∧ found.sectionFrom =
      movedTo (leading before).length (leading (two :: twos)).length (leading (one :: ones)).length 0
        again.sectionFrom := by
  obtain ⟨entry, hentry, hlevel, -, hfrom⟩ :=
    h.blocks.back hsettled.1 hsettled.2 (mem_map_of_mem (f := IntelligenceHeading.entry) hagain)
  obtain ⟨found, hfound, rfl⟩ := mem_map.mp hentry
  exact ⟨found, hfound, hlevel.symm, hfrom⟩

include hfirst hsecond hadjacent hlevel

theorem Cut.sections_back : ∃ front ∈ headingsOf (exchanged before (one :: ones) (two :: twos) rest),
    ∃ behind ∈ headingsOf (exchanged before (one :: ones) (two :: twos) rest),
      front.sectionFrom = (leading before).length ∧
      front.sectionTo = (leading before).length + (leading (two :: twos)).length ∧
      front.sectionTo = behind.sectionFrom ∧ behind.level = front.level ∧
      behind.sectionTo = (leading before).length + (leading (two :: twos)).length + (leading (one :: ones)).length := by
  have hsectioned := headingsOf_sectioned (window text)
  have hother := headingsOf_sectioned (exchanged before (one :: ones) (two :: twos) rest)
  have hstarts := h.starts
  have hmiddle := h.middle
  have hends := h.ends
  have hin := hsectioned.within first hfirst
  have hlater := hsectioned.within second hsecond
  obtain ⟨behind, hbehind, hbehindLevel, -, hbehindFrom⟩ := h.again hsettled hfirst
  obtain ⟨front, hfront, hfrontLevel, -, hfrontFrom⟩ := h.again hsettled hsecond
  rw [movedTo, if_neg (by omega), if_pos (by omega)] at hbehindFrom
  rw [movedTo, if_neg (by omega), if_neg (by omega), if_pos (by omega)] at hfrontFrom
  have hwidth := h.exchanged_length
  have hbehindIn := hother.within behind hbehind
  have hfrontTo : front.sectionTo = behind.sectionFrom := by
    refine hother.sectionTo_eq hfront (by omega) (Or.inr ⟨behind, hbehind, rfl, by omega⟩) (by omega) ?_
    intro b hb hlt hinside
    obtain ⟨found, hfound, hsame, hfrom⟩ := h.back hsettled hb
    rw [movedTo, if_neg (by omega), if_pos (by omega)] at hfrom
    have hbelow := hsectioned.below second hsecond found hfound (by omega) (by omega)
    omega
  have hbehindTo : behind.sectionTo =
      (leading before).length + (leading (two :: twos)).length + (leading (one :: ones)).length := by
    refine hother.sectionTo_eq hbehind (by omega) ?_ (by omega) ?_
    · rcases hsectioned.closed second hsecond with hstop | ⟨third, hthird, hfrom, hle⟩
      · exact Or.inl (by omega)
      · obtain ⟨again, hagain, hagainLevel, -, hagainFrom⟩ := h.again hsettled hthird
        rw [movedTo, if_neg (by omega), if_neg (by omega), if_neg (by omega)] at hagainFrom
        exact Or.inr ⟨again, hagain, by omega, by omega⟩
    · intro b hb hlt hinside
      obtain ⟨found, hfound, hsame, hfrom⟩ := h.back hsettled hb
      rw [movedTo, if_neg (by omega), if_neg (by omega), if_pos (by omega)] at hfrom
      have hbelow := hsectioned.below first hfirst found hfound (by omega) (by omega)
      omega
  exact ⟨front, hfront, behind, hbehind, by omega, by omega, hfrontTo, by omega, hbehindTo⟩

end

end

/-! ## Moving -/

theorem wholeLines_leading (all : List JsString) : WholeLines (leading all) := by
  cases all with
  | nil => exact Or.inl rfl
  | cons line all =>
    refine Or.inr ?_
    rw [leading_joinLines (by simp)]
    exact getLast?_concat

section
variable {text result : JsString} {heading first second : IntelligenceHeading} {direction : StructureDirection}

theorem selected_back (direction : StructureDirection) (first second : IntelligenceHeading) :
    direction.back.selected first second = direction.selected second first := by
  cases direction <;> rfl

theorem movedWhole_of (hfirst : first ∈ headingsOf (window text)) (hsecond : second ∈ headingsOf (window text))
    (hadjacent : first.sectionTo = second.sectionFrom) (hlevel : second.level = first.level)
    (hfollowed : FollowedUp text second) (direction : StructureDirection) :
    MovedWhole text (direction.selected first second) direction (swapped text first second) := by
  obtain ⟨before, one, ones, two, twos, rest, hcut⟩ :=
    cut_of hfirst hsecond hadjacent (hfollowed.imp_right fun hends => hends.newline)
  have hsettled := hcut.settled hfollowed
  obtain ⟨hone, htwo, hswapped⟩ := hcut.sections hadjacent
  have hwindow := hcut.window_swapped hadjacent
  obtain ⟨front, hfront, behind, hbehind, hfrom, hmiddle, hnext, hsame, hto⟩ :=
    hcut.sections_back hfirst hsecond hadjacent hlevel hsettled
  have hheadings : (analyzeDocument (swapped text first second)).headings =
      headingsOf (exchanged before (one :: ones) (two :: twos) rest) := by
    rw [analyzeDocument_headings, hwindow]
  rw [MovedWhole, analyzeDocument_headings]
  refine ⟨first, hfirst, second, hsecond, leading before, [], joinLines rest ++ text.drop maxAnalyzedChars, rfl, ?_, ?_⟩
  · refine ⟨hlevel, hcut.starts.symm, hadjacent, ?_, ?_, Or.inl rfl, ?_, ?_⟩
    · rw [hone, htwo]
      exact hcut.text_eq
    · rw [hone, htwo, hswapped, exchanged]
      simp only [append_assoc, nil_append]
    · rw [hone, htwo, append_nil]
      exact ⟨wholeLines_leading _, wholeLines_leading _, wholeLines_leading _⟩
    intro found hfound
    rw [analyzeDocument_headings] at hfound
    rw [hheadings, hone, htwo]
    exact hcut.again hsettled hfound
  · have hstarts := hcut.starts
    have hmid := hcut.middle
    have hends := hcut.ends
    have hlengths := leading_cons_length one ones
    rw [hone, htwo, hheadings]
    refine ⟨direction.selected behind front, ?_, ?_, ?_⟩
    · cases direction with
      | up => exact hfront
      | down => exact hbehind
    · cases direction with
      | up =>
        show front.sectionFrom = movedTo _ _ _ _ second.sectionFrom
        have hpos := leading_cons_length two twos
        rw [movedTo, if_neg (by omega), if_neg (by omega), if_pos (by omega)]
        omega
      | down =>
        show behind.sectionFrom = movedTo _ _ _ _ first.sectionFrom
        rw [movedTo, if_neg (by omega), if_pos (by omega), length_nil]
        omega
    · rw [← selected_back, (headingsOf_sectioned _).move_eq ?_ hfront hbehind hnext hsame direction.back]
      · have htext : swapped text first second = leading before ++ (leading (two :: twos) ++
            (leading (one :: ones) ++ (joinLines rest ++ text.drop maxAnalyzedChars))) := by
          rw [hswapped, exchanged]
          simp only [append_assoc]
        rw [(swapped_eq htext hfrom hmiddle hnext hto).2.2, ← hcut.text_eq]
      · rw [hswapped, length_append]
        omega

theorem followedUp_of {before gap rest : JsString} (hfirst : first ∈ headingsOf (window text))
    (hsecond : second ∈ headingsOf (window text))
    (hexchange : Exchange text (swapped text first second) first second before gap rest) : FollowedUp text second := by
  have hsectioned := headingsOf_sectioned (window text)
  have hin := hsectioned.within first hfirst
  have hlater := hsectioned.within second hsecond
  by_cases hlt : second.sectionTo < (window text).length
  · exact Or.inl hlt
  refine Or.inr ?_
  have hto : second.sectionTo = (window text).length := by omega
  have hwithin : (window text).length ≤ text.length := by
    rw [window, length_take]
    omega
  -- nothing is added, so the second section ends with a line break
  have hlength := congrArg List.length hexchange.result_eq
  have hwhole := congrArg List.length hexchange.split
  have hadjacent := hexchange.adjacent
  have hstarts := hexchange.starts
  rw [swapped] at hlength
  simp only [length_append, length_take, length_drop] at hlength hwhole
  have hsize : ∀ heading ∈ headingsOf (window text),
      (sectionOf text heading).length = heading.sectionTo - heading.sectionFrom := by
    intro heading hheading
    have := hsectioned.within heading hheading
    rw [sectionOf, slice, length_drop, length_take]
    omega
  have hone := hsize first hfirst
  have htwo := hsize second hsecond
  have hgap : gap = [] := eq_nil_of_length_eq_zero (by omega)
  have hsection : (window text).drop second.sectionFrom = sectionOf text second := by
    have hread : text.take (window text).length = window text := by
      rw [window, length_take, ← take_eq_take_min]
    rw [sectionOf, slice, hto, hread]
  have hlast : (sectionOf text second).getLast? = some newline := by
    have hlines := hexchange.whole.2.2
    rw [hgap, append_nil] at hlines
    refine hlines.resolve_left fun hnil => ?_
    rw [hnil, length_nil] at htwo
    omega
  have hnewline : (window text).getLast? = some newline := by
    rw [← take_append_drop second.sectionFrom (window text), hsection, getLast?_append, hlast]
    rfl
  obtain ⟨lead, one, ones, two, twos, more, hcut⟩ := cut_of hfirst hsecond hadjacent (Or.inr hnewline)
  obtain ⟨hfirstOf, hsecondOf, -⟩ := hcut.sections hadjacent
  have hneeds := hcut.blocks.needs (fun entry hentry => ?_)
  · have hends := (hcut.blocks.of_end (hcut.ended hto)).mpr ⟨hneeds.1, hneeds.2 (hcut.ended hto)⟩
    exact ⟨hnewline, hends.1, hends.2⟩
  obtain ⟨found, hfound, rfl⟩ := mem_map.mp hentry
  obtain ⟨again, hagain, hlevel, htext, hfrom⟩ := hexchange.reported found (by
    rw [analyzeDocument_headings]
    exact hfound)
  rw [analyzeDocument_headings, hcut.window_swapped hadjacent] at hagain
  rw [hgap, hfirstOf, hsecondOf, hstarts, hcut.starts] at hfrom
  exact ⟨again.entry, mem_map_of_mem hagain, hlevel, htext, hfrom⟩

/-- When a move keeps the text. -/
theorem moveHeadingSection_iff (hheading : heading ∈ (analyzeDocument text).headings)
    (hok : moveHeadingSection text (analyzeDocument text).headings heading direction = .ok result) :
    MovedWhole text heading direction result ↔ Movable text heading direction := by
  have hsectioned := headingsOf_sectioned (window text)
  have hlength : (window text).length ≤ text.length := by
    rw [window, length_take]
    omega
  rw [analyzeDocument_headings] at hheading hok
  constructor
  · rintro ⟨first, hfirst, second, hsecond, before, gap, rest, hselected, hexchange, -⟩
    rw [analyzeDocument_headings] at hfirst hsecond
    have hmove := hsectioned.move_eq hlength hfirst hsecond hexchange.adjacent hexchange.level direction
    rw [hselected, hok] at hmove
    cases hmove
    have hfollowed := followedUp_of hfirst hsecond hexchange
    cases direction with
    | up =>
      obtain rfl : second = heading := hselected
      exact hfollowed
    | down =>
      obtain rfl : first = heading := hselected
      refine ⟨second, ?_, hexchange.adjacent.symm, hexchange.level, hfollowed⟩
      rw [analyzeDocument_headings]
      exact hsecond
  · intro hmovable
    cases direction with
    | up =>
      cases hneighbor : neighbor (siblings text (headingsOf (window text)) heading) heading .up with
      | none =>
        rw [moveHeadingSection, hneighbor] at hok
        cases hok
      | some other =>
        obtain ⟨hother, hlevel, hadjacent⟩ := (hsectioned.neighbor_up_iff hlength hheading).mp hneighbor
        have hmove := hsectioned.move_eq hlength hother hheading hadjacent hlevel.symm .up
        cases hok.symm.trans hmove
        exact movedWhole_of hother hheading hadjacent hlevel.symm hmovable .up
    | down =>
      obtain ⟨next, hnext, hfrom, hlevel, hfollowed⟩ := hmovable
      rw [analyzeDocument_headings] at hnext
      have hmove := hsectioned.move_eq hlength hheading hnext hfrom.symm hlevel .down
      cases hok.symm.trans hmove
      exact movedWhole_of hheading hnext hfrom.symm hlevel hfollowed .down

end

/-- `# A` in front of `# B`. -/
def firstOfTwo : IntelligenceHeading := ⟨1, [65], ⟨0, 3, 1, 1⟩, 0, 4⟩

theorem move_ended_section :
    firstOfTwo ∈ (analyzeDocument [35, 32, 65, 10, 35, 32, 66, 10]).headings ∧
      MovedWhole [35, 32, 65, 10, 35, 32, 66, 10] firstOfTwo .down [35, 32, 66, 10, 35, 32, 65, 10] :=
  have hreported : firstOfTwo ∈ (analyzeDocument [35, 32, 65, 10, 35, 32, 66, 10]).headings := by decide +kernel
  have hok : moveHeadingSection [35, 32, 65, 10, 35, 32, 66, 10]
      (analyzeDocument [35, 32, 65, 10, 35, 32, 66, 10]).headings firstOfTwo .down =
        .ok [35, 32, 66, 10, 35, 32, 65, 10] := rfl
  have hnext : (⟨1, [66], ⟨4, 7, 2, 1⟩, 4, 8⟩ : IntelligenceHeading) ∈
      (analyzeDocument [35, 32, 65, 10, 35, 32, 66, 10]).headings := by decide +kernel
  ⟨hreported, (moveHeadingSection_iff hreported hok).mpr
    ⟨_, hnext, rfl, rfl, Or.inr ⟨rfl, rfl, by decide +kernel⟩⟩⟩

/-- A heading of a lower level between two of one level: `### x`, `## B` and `### y`. -/
def skippedText : JsString := [35, 35, 35, 32, 120, 10, 35, 35, 32, 66, 10, 35, 35, 35, 32, 121, 10]

/-- Moving the first one down deletes the one in between. -/
theorem move_deletes_section :
    ¬ ∀ text heading direction result, heading ∈ (analyzeDocument text).headings →
      moveHeadingSection text (analyzeDocument text).headings heading direction = .ok result →
        MovedWhole text heading direction result := by
  intro h
  have hmoved := h skippedText ⟨3, [120], ⟨0, 5, 1, 1⟩, 0, 6⟩ .down
    [35, 35, 35, 32, 121, 10, 35, 35, 35, 32, 120, 10] (by decide +kernel) rfl
  obtain ⟨first, -, second, hsecond, before, gap, rest, hselected, hexchange, -⟩ := hmoved
  obtain rfl : first = ⟨3, [120], ⟨0, 5, 1, 1⟩, 0, 6⟩ := hselected
  have hlevels : (analyzeDocument skippedText).headings.all
      (fun heading => heading.sectionFrom != 6 || heading.level != 3) = true := by decide +kernel
  have hother := all_eq_true.mp hlevels second hsecond
  rw [← hexchange.adjacent, hexchange.level] at hother
  cases hother

end Marks
