import Marks.FrontMatterSound
import Marks.HeadingsSound

/-! # What the analyser reports

The report of a text is what its lines up to some point give, and then what the rest gives from the fence that is open
there. In the body nothing but the fence is carried over. -/

namespace Marks

open JsString List

/-! ## Outlines -/

structure OutlineEntry where
  level : Nat
  text : JsString
  from_ : Nat
  line : Nat
deriving DecidableEq, Repr

def IntelligenceHeading.entry (heading : IntelligenceHeading) : OutlineEntry :=
  ⟨heading.level, heading.text, heading.sectionFrom, heading.range.line⟩

def entryOf (from_ number : Nat) (source : JsString) : Option OutlineEntry :=
  (headingMatch (withoutReturn source)).map fun found => ⟨found.2.1, trim found.2.2, from_, number⟩

def outline (bodyFrom : Nat) : List JsString → Nat → Nat → Option Fence → List OutlineEntry
  | [], _, _, _ => []
  | source :: rest, from_, number, fence =>
    let marker := markerAt bodyFrom from_ source
    let here := if bodyFrom ≤ from_ ∧ fence = none ∧ marker = none then (entryOf from_ number source).toList else []
    here ++ outline bodyFrom rest (from_ + (source.length + 1)) (number + 1) (stepFence fence marker)

def fenceBehind (bodyFrom : Nat) : List JsString → Nat → Option Fence → Option Fence
  | [], _, fence => fence
  | source :: rest, from_, fence =>
    fenceBehind bodyFrom rest (from_ + (source.length + 1)) (stepFence fence (markerAt bodyFrom from_ source))

theorem outline_cons (bodyFrom : Nat) (source : JsString) (rest : List JsString) (from_ number : Nat)
    (fence : Option Fence) :
    outline bodyFrom (source :: rest) from_ number fence =
      (if bodyFrom ≤ from_ ∧ fence = none ∧ markerAt bodyFrom from_ source = none then
        (entryOf from_ number source).toList else []) ++
      outline bodyFrom rest (from_ + (source.length + 1)) (number + 1)
        (stepFence fence (markerAt bodyFrom from_ source)) := rfl

theorem fenceBehind_cons (bodyFrom : Nat) (source : JsString) (rest : List JsString) (from_ : Nat)
    (fence : Option Fence) :
    fenceBehind bodyFrom (source :: rest) from_ fence =
      fenceBehind bodyFrom rest (from_ + (source.length + 1)) (stepFence fence (markerAt bodyFrom from_ source)) := rfl

theorem leading_cons_length (source : JsString) (rest : List JsString) :
    (leading (source :: rest)).length = source.length + 1 + (leading rest).length := by
  rw [leading_cons, length_append, length_cons]
  omega

theorem fenceBehind_append (bodyFrom : Nat) (before rest : List JsString) (from_ : Nat) (fence : Option Fence) :
    fenceBehind bodyFrom (before ++ rest) from_ fence =
      fenceBehind bodyFrom rest (from_ + (leading before).length) (fenceBehind bodyFrom before from_ fence) := by
  induction before generalizing from_ fence with
  | nil => rfl
  | cons source before ih =>
    rw [cons_append, fenceBehind_cons, fenceBehind_cons, ih, leading_cons_length, Nat.add_assoc]

variable {bodyFrom : Nat}

theorem fenceBehind_body {from_ : Nat} (h : bodyFrom ≤ from_) (all : List JsString) (other : Nat)
    (fence : Option Fence) : fenceBehind bodyFrom all from_ fence = fenceBehind 0 all other fence := by
  induction all generalizing from_ other fence with
  | nil => rfl
  | cons source rest ih =>
    have hmarker : markerAt bodyFrom from_ source = markerAt 0 other source := by
      rw [markerAt, markerAt, if_pos h, if_pos (Nat.zero_le _)]
    rw [fenceBehind_cons, fenceBehind_cons, hmarker]
    exact ih (by omega) _ _

theorem outline_append (bodyFrom : Nat) (before rest : List JsString) (from_ number : Nat) (fence : Option Fence) :
    outline bodyFrom (before ++ rest) from_ number fence =
      outline bodyFrom before from_ number fence ++
        outline bodyFrom rest (from_ + (leading before).length) (number + before.length)
          (fenceBehind bodyFrom before from_ fence) := by
  induction before generalizing from_ number fence with
  | nil => rfl
  | cons source before ih =>
    rw [cons_append, outline_cons, outline_cons, fenceBehind_cons, ih, leading_cons_length, append_assoc,
      Nat.add_assoc, length_cons, Nat.add_assoc number, Nat.add_comm 1]

theorem outline_body {from_ : Nat} (h : bodyFrom ≤ from_) (all : List JsString) (number : Nat)
    (fence : Option Fence) : outline bodyFrom all from_ number fence = outline 0 all from_ number fence := by
  induction all generalizing from_ number fence with
  | nil => rfl
  | cons source rest ih =>
    have hmarker : markerAt bodyFrom from_ source = markerAt 0 from_ source := by
      rw [markerAt, markerAt, if_pos h, if_pos (Nat.zero_le _)]
    rw [outline_cons, outline_cons, hmarker, ih (by omega)]
    simp only [h, Nat.zero_le, true_and]

def OutlineEntry.placed (entry : OutlineEntry) (by_ lines_ : Nat) : OutlineEntry :=
  { entry with from_ := entry.from_ + by_, line := entry.line + lines_ }

theorem outline_placed (all : List JsString) (from_ by_ number lines_ : Nat) (fence : Option Fence) :
    outline 0 all (from_ + by_) (number + lines_) fence =
      (outline 0 all from_ number fence).map (·.placed by_ lines_) := by
  induction all generalizing from_ number fence with
  | nil => rfl
  | cons source rest ih =>
    have hoffset : from_ + by_ + (source.length + 1) = from_ + (source.length + 1) + by_ := by omega
    have hnumber : number + lines_ + 1 = number + 1 + lines_ := by omega
    have hentry : entryOf (from_ + by_) (number + lines_) source = (entryOf from_ number source).map (·.placed by_ lines_) := by
      unfold entryOf
      cases headingMatch (withoutReturn source) <;> rfl
    have hmarker : ∀ at_, markerAt 0 at_ source = fenceMarker (withoutReturn source) := fun at_ => if_pos (Nat.zero_le at_)
    rw [outline_cons, outline_cons, hmarker, hmarker, hoffset, hnumber, ih, map_append, hentry]
    congr 1
    by_cases hopen : fence = none ∧ fenceMarker (withoutReturn source) = none
    · rw [if_pos ⟨Nat.zero_le _, hopen⟩, if_pos ⟨Nat.zero_le _, hopen⟩]
      cases entryOf from_ number source <;> rfl
    · rw [if_neg (fun h => hopen h.2), if_neg (fun h => hopen h.2)]
      rfl

def OutlineEntry.moved (entry : OutlineEntry) (by_ : Nat) : OutlineEntry := { entry with from_ := entry.from_ + by_ }

theorem outline_moved (all : List JsString) (from_ by_ number : Nat) (fence : Option Fence) :
    outline 0 all (from_ + by_) number fence = (outline 0 all from_ number fence).map (·.moved by_) :=
  outline_placed all from_ by_ number 0 fence

/-! ## The loop -/

theorem headingOf_scanned (textLength bodyFrom number from_ : Nat) (source : JsString) (fence : Option Fence) :
    (headingOf textLength bodyFrom ⟨number, from_, from_ + source.length, withoutReturn source,
        (decide (bodyFrom ≤ from_) && fence.isSome) || (markerAt bodyFrom from_ source).isSome⟩).map
      IntelligenceHeading.entry =
      if bodyFrom ≤ from_ ∧ fence = none ∧ markerAt bodyFrom from_ source = none then entryOf from_ number source
      else none := by
  unfold headingOf
  dsimp only
  by_cases hbody : bodyFrom ≤ from_
  · have hmarker : markerAt bodyFrom from_ source = fenceMarker (withoutReturn source) := if_pos hbody
    rw [hmarker]
    cases hfence : fenceMarker (withoutReturn source) with
    | some marker => simp [hbody]
    | none =>
      have hline : isFenceLine (withoutReturn source) = false := by rw [isFenceLine, hfence]; rfl
      rw [if_neg (fun h => absurd h.2 (by simp [hline]))]
      cases fence with
      | some opened => simp [hbody]
      | none =>
        rw [if_pos ⟨hbody, by simp⟩, if_pos ⟨hbody, rfl, rfl⟩, entryOf, Option.map_map]
        rfl
  · rw [if_neg (fun h => hbody h.1), if_neg (fun h => hbody h.1), if_neg (fun h => hbody h.1)]
    rfl

theorem scanFrom_cons (bodyFrom : Nat) (source : JsString) (rest : List JsString) (from_ number : Nat)
    (fence : Option Fence) :
    scanFrom bodyFrom (source :: rest) from_ number fence =
      ⟨number, from_, from_ + source.length, withoutReturn source,
        (decide (bodyFrom ≤ from_) && fence.isSome) || (markerAt bodyFrom from_ source).isSome⟩ ::
      scanFrom bodyFrom rest (from_ + source.length + 1) (number + 1) (stepFence fence (markerAt bodyFrom from_ source)) :=
  rfl

theorem scanFrom_entries (textLength bodyFrom : Nat) (all : List JsString) (from_ number : Nat) (fence : Option Fence) :
    ((scanFrom bodyFrom all from_ number fence).filterMap (headingOf textLength bodyFrom)).map
      IntelligenceHeading.entry = outline bodyFrom all from_ number fence := by
  induction all generalizing from_ number fence with
  | nil => rfl
  | cons source rest ih =>
    have hhead := headingOf_scanned textLength bodyFrom number from_ source fence
    rw [scanFrom_cons, outline_cons, filterMap_cons, ← Nat.add_assoc, ← ih _ (number + 1)]
    cases hline : headingOf textLength bodyFrom ⟨number, from_, from_ + source.length, withoutReturn source,
        (decide (bodyFrom ≤ from_) && fence.isSome) || (markerAt bodyFrom from_ source).isSome⟩ with
    | none =>
      rw [hline] at hhead
      dsimp only
      by_cases hhere : bodyFrom ≤ from_ ∧ fence = none ∧ markerAt bodyFrom from_ source = none
      · rw [if_pos hhere] at hhead
        rw [if_pos hhere, ← hhead]
        rfl
      · rw [if_neg hhere]
        rfl
    | some heading =>
      rw [hline] at hhead
      dsimp only
      by_cases hhere : bodyFrom ≤ from_ ∧ fence = none ∧ markerAt bodyFrom from_ source = none
      · rw [if_pos hhere] at hhead
        rw [if_pos hhere, ← hhead, map_cons]
        rfl
      · rw [if_neg hhere] at hhead
        cases hhead

theorem collectHeadings_eq (textLength bodyFrom : Nat) (records : List LineRecord) :
    collectHeadings textLength bodyFrom records = (records.filterMap (headingOf textLength bodyFrom)).take maxItems := by
  have hfold : ∀ f : List IntelligenceHeading → LineRecord → List IntelligenceHeading,
      (∀ seen line, f seen line = (headingOf textLength bodyFrom line).elim seen fun heading =>
        if seen.length < maxItems then seen ++ [heading] else seen) →
      ∀ (records : List LineRecord) (seen : List IntelligenceHeading), seen.length ≤ maxItems →
        records.foldl f seen = (seen ++ records.filterMap (headingOf textLength bodyFrom)).take maxItems := by
    intro f hf records
    induction records with
    | nil =>
      intro seen hseen
      rw [filterMap_nil, append_nil, take_of_length_le hseen]
      rfl
    | cons line records ih =>
      intro seen hseen
      rw [foldl_cons, filterMap_cons, hf]
      cases headingOf textLength bodyFrom line with
      | none => exact ih seen hseen
      | some heading =>
        dsimp only [Option.elim_some]
        by_cases hroom : seen.length < maxItems
        · rw [if_pos hroom, ih _ (by rw [length_append, length_singleton]; omega), append_assoc]
          rfl
        · rw [if_neg hroom, ih seen hseen, take_append_of_le_length (by omega),
            take_append_of_le_length (by omega)]
  refine hfold _ (fun seen line => ?_) records [] (Nat.zero_le _)
  cases headingOf textLength bodyFrom line <;> rfl

theorem closeSections_entries (textLength : Nat) (headings : List IntelligenceHeading) :
    (closeSections textLength headings).map IntelligenceHeading.entry = headings.map IntelligenceHeading.entry := by
  induction headings with
  | nil => rfl
  | cons heading rest ih =>
    have hunfold : closeSections textLength (heading :: rest) =
        { heading with
          sectionTo := ((rest.find? (·.level ≤ heading.level)).map (·.sectionFrom)).getD textLength } ::
        closeSections textLength rest := rfl
    rw [hunfold, map_cons, map_cons, ih]
    rfl

def window (markdown : JsString) : JsString := markdown.take maxAnalyzedChars

theorem analyzeDocument_headings (markdown : JsString) :
    (analyzeDocument markdown).headings = headingsOf (window markdown) := by
  show headingsOf (if decide (maxAnalyzedChars < markdown.length) then markdown.take maxAnalyzedChars else markdown) = _
  by_cases hlong : maxAnalyzedChars < markdown.length
  · rw [if_pos (decide_eq_true hlong)]
    rfl
  · rw [if_neg (by simp [hlong]), window, take_of_length_le (by omega)]

def bodyOf (text : JsString) : Nat := (envelope text).bodyFrom

def entries (text : JsString) : List OutlineEntry := (headingsOf text).map IntelligenceHeading.entry

theorem entries_eq (text : JsString) : entries text = (outline (bodyOf text) (lines text) 0 1 none).take maxItems := by
  rw [entries, headingsOf, closeSections_entries, collectHeadings_eq, map_take, scanLines, scanFrom_entries]
  rfl

variable {all : List JsString}

theorem outline_at {from_ number i : Nat} {fence : Option Fence}
    {entry : OutlineEntry} (h : (outline bodyFrom all from_ number fence)[i]? = some entry) :
    ∃ before source rest, all = before ++ source :: rest ∧ (outline bodyFrom before from_ number fence).length = i ∧
      entry.from_ = from_ + (leading before).length ∧ bodyFrom ≤ entry.from_ ∧
      fenceBehind bodyFrom before from_ fence = none ∧ fenceMarker (withoutReturn source) = none ∧
      entryOf entry.from_ (number + before.length) source = some entry := by
  induction all generalizing from_ number i fence with
  | nil => exact absurd h (by simp [outline])
  | cons source rest ih =>
    rw [outline_cons] at h
    by_cases hhere : i < (if bodyFrom ≤ from_ ∧ fence = none ∧ markerAt bodyFrom from_ source = none then
        (entryOf from_ number source).toList else []).length
    · rw [getElem?_append_left hhere] at h
      by_cases hcond : bodyFrom ≤ from_ ∧ fence = none ∧ markerAt bodyFrom from_ source = none
      · rw [if_pos hcond] at h hhere
        obtain ⟨hbody, hfence, hmarker⟩ := hcond
        cases hentry : entryOf from_ number source with
        | none =>
          rw [hentry] at h
          cases h
        | some found =>
          rw [hentry] at h hhere
          have hi : i = 0 := by simpa using hhere
          subst hi
          obtain rfl : found = entry := by simpa using h
          have hfrom : found.from_ = from_ := by
            obtain ⟨m, -, hm⟩ := Option.map_eq_some_iff.mp hentry
            rw [← hm]
          rw [markerAt, if_pos hbody] at hmarker
          refine ⟨[], source, rest, rfl, rfl, ?_, by omega, hfence, hmarker, by rw [hfrom]; exact hentry⟩
          rw [hfrom]
          rfl
      · rw [if_neg hcond] at hhere
        cases hhere
    · rw [getElem?_append_right (by omega)] at h
      obtain ⟨before, line, after, hall, hlength, hfrom, hbody, hfence, hmarker, hentry⟩ := ih h
      have hnumber : number + 1 + before.length = number + (source :: before).length := by
        rw [length_cons]
        omega
      rw [hnumber] at hentry
      refine ⟨source :: before, line, after, by rw [hall]; rfl, ?_, ?_, hbody, hfence, hmarker, hentry⟩
      · rw [outline_cons, length_append, hlength]
        omega
      · rw [hfrom, leading_cons_length, Nat.add_assoc, Nat.add_assoc]

/-! ## The line of a heading -/

theorem withoutReturn_split (source : JsString) : ∃ more, source = withoutReturn source ++ more ∧ (more = [] ∨ more = [13]) := by
  unfold withoutReturn
  by_cases hlast : source.getLast? = some 13
  · obtain ⟨start, rfl⟩ := getLast?_eq_some_iff.mp hlast
    rw [if_pos hlast, dropLast_concat]
    exact ⟨[13], rfl, Or.inr rfl⟩
  · rw [if_neg hlast]
    exact ⟨[], (append_nil _).symm, Or.inl rfl⟩

theorem withoutReturn_of {source : JsString} (h : (13 : UInt16) ∉ source) : withoutReturn source = source := by
  unfold withoutReturn
  rw [if_neg]
  intro hlast
  exact h (mem_of_getLast? hlast)

theorem bodyFrom_none {text : JsString} (h : (envelope text).exists_ = false) : (envelope text).bodyFrom = 0 := by
  unfold envelope at h ⊢
  cases hopening : openingBytes text with
  | none => rfl
  | some opening =>
    rw [hopening] at h
    dsimp only at h
    by_cases hlong : maxFrontMatterChars < text.length ∧ includes (newline :: dashes) (text.take maxFrontMatterChars) = false
    · rw [if_pos hlong] at h
      exact absurd h (by simp [unclosedEnvelope])
    rw [if_neg hlong] at h
    cases hclosing : findClosing (text.drop opening) with
    | none =>
      rw [hclosing] at h
      exact absurd h (by simp [unclosedEnvelope])
    | some found =>
      rw [hclosing] at h
      cases h

variable {s : JsString}

theorem run_stop {p : UInt16 → Bool} (a : JsString) (h : ∀ c, s.head? = some c → p c = false) : run p (a ++ s) = run p a := by
  have hs : s.takeWhile p = [] := by
    cases s with
    | nil => rfl
    | cons c s => exact takeWhile_cons_of_neg (by rw [h c rfl]; exact Bool.false_ne_true)
  unfold run
  rw [takeWhile_append, hs, append_nil]
  by_cases hall : (a.takeWhile p).length = a.length
  · rw [if_pos hall, hall]
  · rw [if_neg hall]

theorem fenceMarker_stop {a s : JsString} (h : ∀ c, s.head? = some c → c ≠ space ∧ c ≠ 96 ∧ c ≠ 126) :
    fenceMarker (a ++ s) = fenceMarker a := by
  have hspaces : run (· == space) (a ++ s) = run (· == space) a :=
    run_stop a fun c hc => beq_eq_false_iff_ne.mpr (h c hc).1
  have hdrop : (a ++ s).drop (run (· == space) a) = a.drop (run (· == space) a) ++ s :=
    drop_append_of_le_length (run_le _ _)
  unfold fenceMarker
  dsimp only
  rw [hspaces, hdrop]
  cases a.drop (run (· == space) a) with
  | nil =>
    cases s with
    | nil => rfl
    | cons c s =>
      obtain ⟨-, hback, htilde⟩ := h c rfl
      rw [nil_append]
      dsimp only
      rw [if_neg]
      rintro ⟨-, hc | hc, -⟩
      · exact hback hc
      · exact htilde hc
  | cons c rest =>
    rw [cons_append]
    dsimp only
    by_cases hc : c = 96 ∨ c = 126
    · have hrun : run (· == c) (c :: (rest ++ s)) = run (· == c) (c :: rest) := by
        refine run_stop (c :: rest) fun d hd => beq_eq_false_iff_ne.mpr ?_
        obtain ⟨-, hback, htilde⟩ := h d hd
        rcases hc with rfl | rfl
        · exact hback
        · exact htilde
      rw [hrun]
    · rw [if_neg (fun hcond => hc hcond.2.1), if_neg (fun hcond => hc hcond.2.1)]

theorem fenceMarker_bare (source : JsString) : fenceMarker (withoutReturn source) = fenceMarker source := by
  obtain ⟨more, hsource, hmore⟩ := withoutReturn_split source
  have hstop := @fenceMarker_stop (withoutReturn source) more fun c hc => by
    rcases hmore with rfl | rfl
    · cases hc
    · cases hc
      decide
  rw [← hsource] at hstop
  exact hstop.symm

variable {value : JsString}

theorem heading_head (h : (headingMatch value).isSome = true) :
    ∃ c rest, value = c :: rest ∧ (c = 32 ∨ c = 35) := by
  obtain ⟨indent, level, behind, hmarks, -⟩ := headingMatch_isSome.mp h
  obtain ⟨rfl, -, hpos, -⟩ := atxMarks_eq_some.mp hmarks
  obtain ⟨n, rfl⟩ : ∃ n, level = n + 1 := ⟨level - 1, by omega⟩
  cases indent with
  | zero => exact ⟨35, List.replicate n 35 ++ behind, rfl, Or.inr rfl⟩
  | succ m => exact ⟨32, List.replicate m 32 ++ (List.replicate (n + 1) 35 ++ behind), rfl, Or.inl rfl⟩

theorem marks_fence {behind : JsString} {indent level : Nat} (h : atxMarks value = some (indent, level, behind)) :
    fenceMarker value = none := by
  obtain ⟨rfl, -, hpos, -⟩ := atxMarks_eq_some.mp h
  obtain ⟨n, rfl⟩ : ∃ n, level = n + 1 := ⟨level - 1, by omega⟩
  have hspaces : (List.replicate indent (32 : UInt16)).all (· == space) = true := by simp [space]
  have hrun : run (· == space) (List.replicate indent 32 ++ (List.replicate (n + 1) 35 ++ behind)) = indent := by
    rw [run_append hspaces, replicate_succ, cons_append, run_zero (by decide), length_replicate]
    rfl
  have hdrop : (List.replicate indent (32 : UInt16) ++ (List.replicate (n + 1) 35 ++ behind)).drop indent =
      35 :: (List.replicate n 35 ++ behind) := by
    rw [drop_append_of_le_length (by simp), drop_eq_nil_of_le (by simp), nil_append]
    rfl
  unfold fenceMarker
  dsimp only
  rw [hrun, hdrop]
  dsimp only
  rw [if_neg]
  rintro ⟨-, hmark, -⟩
  exact absurd hmark (by decide)

theorem heading_fence (h : (headingMatch value).isSome = true) : fenceMarker value = none := by
  obtain ⟨indent, level, behind, hmarks, -⟩ := headingMatch_isSome.mp h
  exact marks_fence hmarks

variable {text : JsString} {from_ number i : Nat} {entry : OutlineEntry} {before after : List JsString} {source : JsString}

section

variable (h : entryOf from_ number source = some entry)
include h

theorem entryOf_isSome : (headingMatch (withoutReturn source)).isSome = true := by
  have hsome : (entryOf from_ number source).isSome = true := by rw [h]; rfl
  rw [entryOf, Option.isSome_map] at hsome
  exact hsome

theorem entryOf_from : entry.from_ = from_ := by
  obtain ⟨found, -, hfound⟩ := Option.map_eq_some_iff.mp h
  rw [← hfound]

theorem entryOf_line : entry.line = number := by
  obtain ⟨found, -, hfound⟩ := Option.map_eq_some_iff.mp h
  rw [← hfound]

theorem entryOf_dashless (s : JsString) : Dashless (source ++ s) := by
  obtain ⟨c, rest, hvalue, hc⟩ := heading_head (entryOf_isSome h)
  obtain ⟨more, hsource, -⟩ := withoutReturn_split source
  rw [hvalue] at hsource
  rw [hsource]
  refine ⟨by simp, ?_⟩
  rcases hc with rfl | rfl
  · intro heq
    cases heq
  · intro heq
    cases heq

end

structure HeadingAt (text : JsString) (i : Nat) (entry : OutlineEntry) (before : List JsString) (source : JsString)
    (after : List JsString) : Prop where
  split : lines text = before ++ source :: after
  body : bodyOf text ≤ (leading before).length
  fence : fenceBehind (bodyOf text) before 0 none = none
  entry : entryOf (leading before).length (before.length + 1) source = some entry
  index : (outline (bodyOf text) before 0 1 none).length = i

theorem headingAt_of (h : (entries text)[i]? = some entry) :
    i < maxItems ∧ ∃ before source after, HeadingAt text i entry before source after := by
  rw [entries_eq] at h
  have hi : i < maxItems := by
    have hlt := (List.getElem?_eq_some_iff.mp h).1
    rw [length_take] at hlt
    omega
  rw [getElem?_take_of_lt hi] at h
  obtain ⟨before, source, after, hsplit, hindex, hfrom, hbody, hfence, -, hentry⟩ := outline_at h
  rw [Nat.zero_add] at hfrom
  rw [hfrom] at hbody hentry
  rw [Nat.add_comm 1] at hentry
  exact ⟨hi, before, source, after, hsplit, hbody, hfence, hentry, hindex⟩

theorem HeadingAt.entries_eq (h : HeadingAt text i entry before source after) :
    entries text = (outline (bodyOf text) before 0 1 none ++
      entry :: outline 0 after ((leading before).length + (source.length + 1)) (before.length + 2) none).take maxItems := by
  have hmarker : markerAt (bodyOf text) (leading before).length source = none := by
    rw [markerAt, if_pos h.body, heading_fence (entryOf_isSome h.entry)]
  have hbody : bodyOf text ≤ (leading before).length + (source.length + 1) := Nat.le_trans h.body (Nat.le_add_right _ _)
  rw [Marks.entries_eq, h.split, outline_append, h.fence, Nat.zero_add, Nat.add_comm 1, outline_cons,
    if_pos ⟨h.body, rfl, hmarker⟩, h.entry, hmarker, outline_body hbody]
  rfl

theorem HeadingAt.text_eq (h : HeadingAt text i entry before source after) :
    text = leading before ++ joinLines (source :: after) := by
  rw [← joinLines_append before (by simp), ← h.split, joinLines_lines]

theorem HeadingAt.no_newline (h : HeadingAt text i entry before source after) :
    (∀ line ∈ before, newline ∉ line) ∧ newline ∉ source ∧ ∀ line ∈ after, newline ∉ line := by
  have hall := lines_no_newline text
  rw [h.split] at hall
  refine ⟨fun line hline => hall line (by simp [hline]), hall source (by simp), fun line hline => hall line (by simp [hline])⟩

theorem joinLines_dashless (h : ∀ s, Dashless (source ++ s)) (after : List JsString) :
    Dashless (joinLines (source :: after)) := by
  cases after with
  | nil =>
    have hjoin : joinLines [source] = source ++ [] := by simp [joinLines, List.intercalate]
    rw [hjoin]
    exact h []
  | cons next after =>
    rw [joinLines_cons source (by simp)]
    exact h _

section
variable {other : JsString} {line : JsString} {more : List JsString}

theorem HeadingAt.bodyOf_eq (h : HeadingAt text i entry before source after) (hother : lines other = before ++ line :: more)
    (hline : ∀ s, Dashless (line ++ s)) (hclosing : closes after = false → closes more = false) :
    bodyOf other = bodyOf text := by
  obtain ⟨hbefore, hsource, hafter⟩ := h.no_newline
  have hall := lines_no_newline other
  rw [hother] at hall
  have hsplit : other = leading before ++ joinLines (line :: more) := by
    rw [← joinLines_append before (by simp), ← hother, joinLines_lines]
  have hbody := h.body
  rw [bodyOf, h.text_eq] at hbody
  rw [bodyOf, bodyOf, hsplit, h.text_eq]
  refine bodyFrom_congr hbefore (joinLines_dashless (entryOf_dashless h.entry) after) (joinLines_dashless hline more) ?_
    hbody
  rw [findClosing_eq_none hsource hafter,
    findClosing_eq_none (hall line (by simp)) (fun next hnext => hall next (by simp [hnext]))]
  exact hclosing

theorem HeadingAt.bodyOf_eq_of_le {j : Nat} {found : OutlineEntry} (h : HeadingAt text i entry before source after)
    (hother : HeadingAt other j found before line more) : bodyOf other = bodyOf text := by
  cases hclosing : closes more with
  | false => exact h.bodyOf_eq hother.split (entryOf_dashless hother.entry) fun _ => hclosing
  | true =>
    refine (hother.bodyOf_eq h.split (entryOf_dashless h.entry) fun hopen => ?_).symm
    rw [hclosing] at hopen
    cases hopen

theorem HeadingAt.replace {found : OutlineEntry} (h : HeadingAt text i entry before source after)
    (hother : lines other = before ++ line :: more) (hfound : entryOf (leading before).length (before.length + 1) line = some found)
    (hclosing : closes after = false → closes more = false) : HeadingAt other i found before line more := by
  have hbody := h.bodyOf_eq hother (entryOf_dashless hfound) hclosing
  exact ⟨hother, by rw [hbody]; exact h.body, by rw [hbody]; exact h.fence, hfound, by rw [hbody]; exact h.index⟩

end

theorem outline_offsets {fence : Option Fence}
    (h : entry ∈ outline bodyFrom all from_ number fence) : from_ ≤ entry.from_ ∧ entry.from_ < from_ + (leading all).length := by
  obtain ⟨i, hi⟩ := getElem?_of_mem h
  obtain ⟨before, source, rest, rfl, -, hfrom, -⟩ := outline_at hi
  rw [hfrom, leading_append, length_append, leading_cons_length]
  omega

theorem split_unique {before after more : List JsString} {line : JsString} {start : List JsString}
    (h : before ++ source :: after = start ++ line :: more) (hlength : (leading before).length = (leading start).length) :
    before = start ∧ source = line ∧ after = more := by
  induction before generalizing start with
  | nil =>
    cases start with
    | nil =>
      cases h
      exact ⟨rfl, rfl, rfl⟩
    | cons first start =>
      rw [leading_cons_length] at hlength
      exact absurd hlength (by simp [leading]; omega)
  | cons first before ih =>
    cases start with
    | nil =>
      rw [leading_cons_length] at hlength
      exact absurd hlength (by simp [leading])
    | cons second start =>
      obtain ⟨hfirst, htail⟩ := List.cons.inj h
      rw [leading_cons_length, leading_cons_length, hfirst] at hlength
      obtain ⟨rfl, hsource, hafter⟩ := ih htail (by omega)
      rw [hfirst]
      exact ⟨rfl, hsource, hafter⟩

theorem headingAt_line {line : JsString} (h : entry ∈ entries text)
    (hsplit : lines text = before ++ line :: all) (hfrom : entry.from_ = (leading before).length) :
    ∃ i, i < maxItems ∧ HeadingAt text i entry before line all := by
  obtain ⟨i, hi⟩ := getElem?_of_mem h
  obtain ⟨hlt, start, source, after, hat⟩ := headingAt_of hi
  have hlength := entryOf_from hat.entry
  rw [hfrom] at hlength
  obtain ⟨rfl, rfl, rfl⟩ := split_unique (hsplit.symm.trans hat.split) hlength
  exact ⟨i, hlt, hat⟩

theorem HeadingAt.entries_split (h : HeadingAt text i entry before source after) (hi : i < maxItems) :
    entries text = outline (bodyOf text) before 0 1 none ++
      entry :: (outline 0 after ((leading before).length + (source.length + 1)) (before.length + 2) none).take (maxItems - (i + 1)) := by
  obtain ⟨n, hn⟩ : ∃ n, maxItems - i = n + 1 := ⟨maxItems - i - 1, by omega⟩
  have hrest : maxItems - (i + 1) = n := by omega
  rw [h.entries_eq, take_append, take_of_length_le (by rw [h.index]; omega), h.index, hn, hrest]
  rfl

theorem HeadingAt.mem (h : HeadingAt text i entry before source after) (hi : i < maxItems) : entry ∈ entries text := by
  rw [h.entries_split hi]
  simp

/-! ## The line in the text -/

/-- The lines behind a line, where `s` is what follows it. -/
def behindBreak : JsString → List JsString
  | [] => []
  | _ :: s => lines s

theorem lines_break {line : JsString} (h : newline ∉ line) (hs : s = [] ∨ s.head? = some newline) :
    lines (line ++ s) = line :: behindBreak s := by
  cases s with
  | nil => rw [append_nil, lines_single h]; rfl
  | cons c s =>
    have hc : c = newline := by
      rcases hs with hs | hs
      · cases hs
      · exact Option.some.inj hs
    rw [hc, lines_append h]
    rfl

theorem lines_leading {before : List JsString} (h : ∀ line ∈ before, newline ∉ line) (s : JsString) :
    lines (leading before ++ s) = before ++ lines s := by
  induction before with
  | nil => rfl
  | cons line before ih =>
    rw [forall_mem_cons] at h
    rw [leading_cons, append_assoc, cons_append, lines_append h.1, ih h.2]
    rfl

theorem break_take (h : s = [] ∨ s.head? = some newline) (n : Nat) :
    s.take n = [] ∨ (s.take n).head? = some newline := by
  cases n with
  | zero => exact Or.inl rfl
  | succ n =>
    cases s with
    | nil => exact Or.inl rfl
    | cons c s => exact Or.inr (h.resolve_left (by simp))

theorem break_exists (s : JsString) :
    ∃ line rest, s = line ++ rest ∧ newline ∉ line ∧ (rest = [] ∨ rest.head? = some newline) := by
  induction s with
  | nil => exact ⟨[], [], rfl, not_mem_nil, Or.inl rfl⟩
  | cons c s ih =>
    by_cases hc : c = newline
    · exact ⟨[], c :: s, rfl, not_mem_nil, Or.inr (by rw [hc]; rfl)⟩
    obtain ⟨line, rest, rfl, hline, hrest⟩ := ih
    refine ⟨c :: line, rest, rfl, ?_, hrest⟩
    rw [mem_cons, not_or]
    exact ⟨fun heq => hc heq.symm, hline⟩

theorem window_line {start line rest : JsString} (h : start.length ≤ maxAnalyzedChars) :
    window (start ++ (line ++ rest)) = start ++ (line.take (maxAnalyzedChars - start.length) ++
      rest.take (maxAnalyzedChars - start.length - line.length)) := by
  rw [window, take_append, take_of_length_le h, take_append]

theorem reported_at {heading : IntelligenceHeading} (h : heading ∈ (analyzeDocument text).headings) :
    ∃ i before line rest, i < maxItems ∧ text = leading before ++ (line ++ rest) ∧ newline ∉ line ∧
      (rest = [] ∨ rest.head? = some newline) ∧ heading.sectionFrom = (leading before).length ∧
      (leading before).length < maxAnalyzedChars ∧
      HeadingAt (window text) i heading.entry before (line.take (maxAnalyzedChars - (leading before).length))
        (behindBreak (rest.take (maxAnalyzedChars - (leading before).length - line.length))) := by
  rw [analyzeDocument_headings] at h
  have hmem : heading.entry ∈ entries (window text) := mem_map_of_mem h
  obtain ⟨i, hi⟩ := getElem?_of_mem hmem
  obtain ⟨hlt, before, source, after, hat⟩ := headingAt_of hi
  have hsplit := hat.text_eq
  have hfrom : heading.sectionFrom = (leading before).length := entryOf_from hat.entry
  have hsource := (entryOf_dashless hat.entry []).1
  rw [append_nil] at hsource
  -- the window reaches into the line
  have hlength := congrArg List.length hsplit
  have hjoin : 0 < (joinLines (source :: after)).length :=
    length_pos_iff.mpr (joinLines_dashless (entryOf_dashless hat.entry) after).1
  rw [window, length_take, length_append] at hlength
  have hstarts : text.take (leading before).length = leading before := by
    have htake := congrArg (List.take (leading before).length) hsplit
    rw [window, take_take, take_left, Nat.min_eq_left (by omega)] at htake
    exact htake
  obtain ⟨line, rest, hbehind, hline, hrest⟩ := break_exists (text.drop (leading before).length)
  have htext : text = leading before ++ (line ++ rest) := by
    rw [← hbehind]
    exact (take_append_drop (leading before).length text).symm.trans (by rw [hstarts])
  have hroom : (leading before).length < maxAnalyzedChars := by omega
  have hlines : lines (window text) =
      before ++ line.take (maxAnalyzedChars - (leading before).length) ::
        behindBreak (rest.take (maxAnalyzedChars - (leading before).length - line.length)) := by
    rw [htext, window_line (by omega), lines_leading hat.no_newline.1,
      lines_break (fun hmem => hline (mem_of_mem_take hmem)) (break_take hrest _)]
  obtain ⟨-, rfl, rfl⟩ := split_unique (hat.split.symm.trans hlines) rfl
  exact ⟨i, before, line, rest, hlt, htext, hline, hrest, hfrom, hroom, hat⟩

end Marks
