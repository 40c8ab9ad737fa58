import Marks.CrossDocument
import Marks.SectionsSound
import Marks.Slugs

/-! # Linked sections resolve

A written reference is read back with its heading cleaned. The section under that heading is the analysed one when the
cleaned title is still the title up to case, the lines before the heading let it be seen from the first line on, and the
lines of both headings that bound the section have no carriage return. -/

namespace Marks

open JsString List

/-! ## References -/

section
variable {p : UInt16 → Bool} {low high : Nat} {mark : UInt16} {a s title documentId reference : JsString}
  {part label : Option JsString}

theorem boundedRun_append (ha : a.all p = true) (hs : ∀ c, s.head? = some c → p c = false)
    (hlow : low ≤ a.length) (hhigh : a.length ≤ high) : boundedRun p low high (a ++ s) = some (a, s) := by
  have hrun : run p (a ++ s) = a.length := by
    rw [run_append ha]
    cases s with
    | nil => rfl
    | cons c s => rw [run_zero (hs c rfl), Nat.add_zero]
  rw [boundedRun, hrun, if_pos ⟨hlow, hhigh⟩, take_left, drop_left]

theorem trim_sub {c : UInt16} (h : c ∈ trim s) : c ∈ s :=
  (dropWhile_suffix _).subset ((List.rdropWhile_prefix _ _).subset h)

theorem cleanPart_unit {c : UInt16} (h : c ∈ cleanPart s) : c ≠ 93 ∧ c ≠ 124 ∧ c ≠ 13 ∧ c ≠ 10 := by
  obtain ⟨d, -, rfl⟩ := mem_map.mp (trim_sub (mem_of_mem_take h))
  by_cases hd : d = 93 ∨ d = 124 ∨ d = 13 ∨ d = 10
  · rw [if_pos hd]
    decide
  · rw [if_neg hd]
    rw [not_or, not_or, not_or] at hd
    exact hd

theorem cleanPart_length (s : JsString) : (cleanPart s).length ≤ 200 := length_take_le _ _

theorem optionalPart_marked (hclean : ∀ t, ((cleanPart t).all p) = true) (hs : ∀ c, s.head? = some c → p c = false)
    (hmark : s.head? ≠ some mark) :
    ∃ found, optionalPart mark p (markedPart mark part ++ s) = some (found, s) ∧
      found.getD [] = (part.map cleanPart).getD [] := by
  have hnone : optionalPart mark p s = some (none, s) := if_neg hmark
  cases part with
  | none => exact ⟨none, hnone, rfl⟩
  | some text =>
    by_cases hempty : cleanPart text = []
    · have hleft : markedPart mark (some text) = [] := if_pos hempty
      exact ⟨none, by rw [hleft]; exact hnone, hempty.symm⟩
    have hleft : markedPart mark (some text) = mark :: cleanPart text := if_neg hempty
    refine ⟨some (cleanPart text), ?_, rfl⟩
    have hbounded := @boundedRun_append p 1 200 _ _ (hclean text) hs (length_pos_iff.mpr hempty) (cleanPart_length text)
    rw [hleft, optionalPart, cons_append, head?_cons, if_pos rfl, tail_cons, hbounded]
    rfl

theorem markedPart_head (mark : UInt16) (part : Option JsString) (s : JsString) :
    (markedPart mark part ++ s).head? = some mark ∨ (markedPart mark part ++ s).head? = s.head? := by
  cases part with
  | none => exact Or.inr rfl
  | some text =>
    by_cases hempty : cleanPart text = []
    · have hleft : markedPart mark (some text) = [] := if_pos hempty
      rw [hleft]
      exact Or.inr rfl
    · have hleft : markedPart mark (some text) = mark :: cleanPart text := if_neg hempty
      rw [hleft]
      exact Or.inl rfl

theorem clean_heading (t : JsString) : (cleanPart t).all isHeadingUnit = true :=
  all_eq_true.mpr fun c hc => by
    obtain ⟨hbracket, hbar, -, hbreak⟩ := cleanPart_unit hc
    simp [isHeadingUnit, hbracket, hbar, hbreak]

theorem clean_label (t : JsString) : (cleanPart t).all isLabelUnit = true :=
  all_eq_true.mpr fun c hc => by
    obtain ⟨hbracket, -, -, hbreak⟩ := cleanPart_unit hc
    simp [isLabelUnit, hbracket, hbreak]

theorem crossDocumentRule_block (h : crossDocumentBlock documentId (some title) label = some reference) :
    ∃ block, crossDocumentRule reference = some block ∧ block.documentId = documentId ∧
      block.heading = trim (cleanPart title) := by
  unfold crossDocumentBlock at h
  by_cases hid : isDocumentId documentId = true
  · rw [if_pos hid] at h
    cases h
    obtain ⟨hunits, hlength⟩ := (Bool.and_eq_true _ _).mp hid
    obtain ⟨hlow, hhigh⟩ := of_decide_eq_true hlength
    have hends : ([93, 93] : JsString).head? = some 93 := rfl
    -- what can follow a part
    have hlabelHead : ∀ c, (markedPart 124 label ++ [93, 93]).head? = some c → c = 124 ∨ c = 93 := by
      intro c hc
      rcases markedPart_head 124 label [93, 93] with heq | heq
      · exact Or.inl (Option.some.inj (hc.symm.trans heq))
      · exact Or.inr (Option.some.inj (hc.symm.trans heq))
    have hheadingHead : ∀ c, (markedPart 35 (some title) ++ (markedPart 124 label ++ [93, 93])).head? = some c →
        c = 35 ∨ c = 124 ∨ c = 93 := by
      intro c hc
      rcases markedPart_head 35 (some title) (markedPart 124 label ++ [93, 93]) with heq | heq
      · exact Or.inl (Option.some.inj (hc.symm.trans heq))
      · exact Or.inr (hlabelHead c (heq.symm.trans hc))
    have htrim : trim ([33, 91, 91] ++ (documentId ++ (markedPart 35 (some title) ++ (markedPart 124 label ++ [93, 93])))) =
        [33, 91, 91] ++ (documentId ++ (markedPart 35 (some title) ++ (markedPart 124 label ++ [93, 93]))) := by
      refine trim_trimmed ⟨fun c hc => ?_, fun c hc => ?_⟩
      · cases hc
        rfl
      simp only [← append_assoc] at hc
      rw [getLast?_append] at hc
      cases hc
      rfl
    have hidRun := @boundedRun_append isDocumentIdUnit 1 160 documentId
      (markedPart 35 (some title) ++ (markedPart 124 label ++ [93, 93])) hunits
      (fun c hc => by rcases hheadingHead c hc with rfl | rfl | rfl <;> rfl) hlow hhigh
    obtain ⟨heading, hheading, hheadingEq⟩ := @optionalPart_marked isHeadingUnit 35 (markedPart 124 label ++ [93, 93])
      (some title) clean_heading (fun c hc => by rcases hlabelHead c hc with rfl | rfl <;> rfl)
      (fun hc => by rcases hlabelHead 35 hc with heq | heq <;> exact absurd heq (by decide))
    obtain ⟨name, hlabel, -⟩ := @optionalPart_marked isLabelUnit 124 [93, 93] label clean_label
      (fun c hc => by rw [← Option.some.inj hc]; rfl) (by decide)
    refine ⟨⟨documentId, trim (heading.getD []), trim (name.getD [])⟩, ?_, rfl, by rw [hheadingEq]; rfl⟩
    rw [crossDocumentRule, htrim, afterPrefix_append, Option.bind_eq_bind, Option.bind_some, hidRun]
    simp only [Option.bind_eq_bind, Option.bind_some, hheading, hlabel]
    rfl
  · rw [if_neg hid] at h
    cases h

theorem trim_clean_empty (h : cleanPart title ≠ []) : trim (cleanPart title) ≠ [] := by
  obtain ⟨c, rest, hclean⟩ := exists_cons_of_ne_nil h
  have hhead : ∃ more, trim (title.map fun c => if c = 93 ∨ c = 124 ∨ c = 13 ∨ c = 10 then space else c) = c :: more := by
    unfold cleanPart at hclean
    cases htrim : trim (title.map fun c => if c = 93 ∨ c = 124 ∨ c = 13 ∨ c = 10 then space else c) with
    | nil =>
      rw [htrim] at hclean
      cases hclean
    | cons d more =>
      rw [htrim, take_succ_cons] at hclean
      exact ⟨more, by rw [(List.cons.inj hclean).1]⟩
  obtain ⟨more, hmore⟩ := hhead
  have hspace := (trimmed_trim (title.map fun c => if c = 93 ∨ c = 124 ∨ c = 13 ∨ c = 10 then space else c)).head c
    (by rw [hmore]; rfl)
  have hdrop : (c :: rest).dropWhile isSpace = c :: rest :=
    dropWhile_cons_of_neg (by rw [hspace]; exact Bool.false_ne_true)
  rw [hclean, trim, hdrop]
  intro hnil
  have hall := rdropWhile_eq_nil_iff.mp hnil c mem_cons_self
  rw [hspace] at hall
  cases hall

end

/-! ## The first loop -/

section
variable {fold : JsString → JsString} {normalized source line : JsString} {all before after : List JsString}
  {fence : Option Fence} {k level : Nat}

theorem fenceBehind_line (line : JsString) (rest : List JsString) (fence : Option Fence) :
    fenceBehind 0 (line :: rest) 0 fence = fenceBehind 0 rest 0 (stepFence fence (fenceMarker line)) := by
  rw [fenceBehind_cons, fenceBehind_body (Nat.zero_le _) rest 0, markerAt, if_pos (Nat.zero_le _), fenceMarker_bare]

theorem sectionStart_cons (line : JsString) (rest : List JsString) (fence : Option Fence) :
    sectionStart fold normalized (line :: rest) fence =
      match (headingOutside fence line).filter fun heading => fold heading.2 == normalized with
      | some heading => some (0, heading.1)
      | none =>
        (sectionStart fold normalized rest (stepFence fence (fenceMarker line))).map fun found => (found.1 + 1, found.2) :=
  rfl

structure Found (fold : JsString → JsString) (normalized : JsString) (all : List JsString) (fence : Option Fence)
    (before : List JsString) (line : JsString) (after : List JsString) (level : Nat) (title : JsString) : Prop where
  split : all = before ++ line :: after
  none_before : sectionStart fold normalized before fence = none
  heading : headingOutside (fenceBehind 0 before 0 fence) line = some (level, title)
  title : fold title = normalized

theorem sectionStart_found {title : JsString} (h : Found fold normalized all fence before line after level title) :
    sectionStart fold normalized all fence = some (before.length, level) := by
  obtain ⟨rfl, hnone, hheading, htitle⟩ := h
  induction before generalizing fence with
  | nil =>
    have hmatch : (headingOutside fence line).filter (fun heading => fold heading.2 == normalized) = some (level, title) := by
      have hhere : headingOutside fence line = some (level, title) := hheading
      rw [hhere]
      exact if_pos (beq_iff_eq.mpr htitle)
    rw [nil_append, sectionStart_cons, hmatch]
    rfl
  | cons first before ih =>
    rw [sectionStart_cons] at hnone
    rw [fenceBehind_line] at hheading
    rw [cons_append, sectionStart_cons]
    cases hfirst : (headingOutside fence first).filter fun heading => fold heading.2 == normalized with
    | some heading =>
      rw [hfirst] at hnone
      cases hnone
    | none =>
      rw [hfirst] at hnone
      rw [ih (Option.map_eq_none_iff.mp hnone) hheading]
      rfl

theorem sectionStart_some (h : sectionStart fold normalized all fence = some (k, level)) :
    ∃ before line after title, Found fold normalized all fence before line after level title ∧ before.length = k := by
  induction all generalizing fence k with
  | nil => exact absurd h (by simp [sectionStart])
  | cons first rest ih =>
    rw [sectionStart_cons] at h
    cases hfirst : (headingOutside fence first).filter fun heading => fold heading.2 == normalized with
    | some heading =>
      rw [hfirst] at h
      cases h
      obtain ⟨hheading, htitle⟩ := Option.filter_eq_some_iff.mp hfirst
      exact ⟨[], first, rest, heading.2, ⟨rfl, rfl, hheading, beq_iff_eq.mp htitle⟩, rfl⟩
    | none =>
      rw [hfirst] at h
      obtain ⟨⟨k', level'⟩, hrest, hpair⟩ := Option.map_eq_some_iff.mp h
      cases hpair
      obtain ⟨before, line, after, title, hfound, rfl⟩ := ih hrest
      refine ⟨first :: before, line, after, title, ⟨by rw [hfound.split]; rfl, ?_, ?_, hfound.title⟩, rfl⟩
      · rw [sectionStart_cons, hfirst, hfound.none_before]
        rfl
      · rw [fenceBehind_line]
        exact hfound.heading

theorem headingOutside_bare (h : (headingOutside fence line).isSome = true) : withoutReturn line = line := by
  unfold headingOutside at h
  by_cases hcond : fence = none ∧ fenceMarker line = none
  · rw [if_pos hcond, Option.isSome_map] at h
    refine withoutReturn_of fun hmem => ?_
    have hplain := all_eq_true.mp (headingMatch_unbroken h) 13 hmem
    cases hplain
  · rw [if_neg hcond] at h
    cases h

theorem headingOutside_entry (from_ number : Nat) (source : JsString) (fence : Option Fence) :
    headingOutside fence (withoutReturn source) =
      (if fence = none ∧ fenceMarker (withoutReturn source) = none then entryOf from_ number source else none).map
        fun entry => (entry.level, entry.text) := by
  unfold headingOutside entryOf
  by_cases hcond : fence = none ∧ fenceMarker (withoutReturn source) = none
  · rw [if_pos hcond, if_pos hcond, Option.map_map]
    rfl
  · rw [if_neg hcond, if_neg hcond]
    rfl

/-! ## The second loop -/

theorem sectionLength_cons (level : Nat) (line : JsString) (rest : List JsString) (fence : Option Fence) :
    sectionLength level (line :: rest) fence =
      if (headingOutside fence line).any fun heading => decide (heading.1 ≤ level) then 0
      else sectionLength level rest (stepFence fence (fenceMarker line)) + 1 := rfl

theorem sectionLength_le (level : Nat) (all : List JsString) (fence : Option Fence) :
    sectionLength level all fence ≤ all.length := by
  induction all generalizing fence with
  | nil => exact Nat.le_refl 0
  | cons line rest ih =>
    rw [sectionLength_cons]
    cases (headingOutside fence line).any fun heading => decide (heading.1 ≤ level) with
    | true => exact Nat.zero_le _
    | false => exact Nat.succ_le_succ (ih _)

def bareLength (level : Nat) (all : List JsString) (fence : Option Fence) : Nat :=
  sectionLength level (all.map withoutReturn) fence

theorem bareLength_cons (level : Nat) (line : JsString) (rest : List JsString) (fence : Option Fence) :
    bareLength level (line :: rest) fence =
      if (headingOutside fence (withoutReturn line)).any fun heading => decide (heading.1 ≤ level) then 0
      else bareLength level rest (stepFence fence (fenceMarker line)) + 1 := by
  show sectionLength level (withoutReturn line :: rest.map withoutReturn) fence = _
  rw [sectionLength_cons, fenceMarker_bare]
  rfl

/-- A carriage return hides a heading from the loop, so it goes at least as far, and just as far when the line that
ends the section has none. -/
theorem sectionLength_bare (level : Nat) (all : List JsString) (fence : Option Fence) :
    bareLength level all fence ≤ sectionLength level all fence ∧
      (sectionLength level all fence = bareLength level all fence ↔
        ∀ line, all[bareLength level all fence]? = some line → withoutReturn line = line) := by
  induction all generalizing fence with
  | nil => exact ⟨Nat.le_refl 0, fun _ _ h => absurd h (by simp), fun _ => rfl⟩
  | cons line rest ih =>
    obtain ⟨hle, hiff⟩ := ih (stepFence fence (fenceMarker line))
    rw [sectionLength_cons, bareLength_cons]
    cases hbare : (headingOutside fence (withoutReturn line)).any fun heading => decide (heading.1 ≤ level) with
    | true =>
      rw [if_pos rfl]
      refine ⟨Nat.zero_le _, ?_⟩
      rw [getElem?_cons_zero]
      cases hraw : (headingOutside fence line).any fun heading => decide (heading.1 ≤ level) with
      | true =>
        rw [if_pos rfl]
        refine iff_of_true rfl fun other hother => ?_
        cases hother
        refine @headingOutside_bare _ fence ?_
        cases hheading : headingOutside fence line with
        | none =>
          rw [hheading] at hraw
          cases hraw
        | some _ => rfl
      | false =>
        rw [if_neg Bool.false_ne_true]
        refine iff_of_false (Nat.succ_ne_zero _) fun h => ?_
        rw [h line rfl, hraw] at hbare
        cases hbare
    | false =>
      have hraw : ((headingOutside fence line).any fun heading => decide (heading.1 ≤ level)) = false := by
        cases hheading : headingOutside fence line with
        | none => rfl
        | some heading =>
          have hsame := @headingOutside_bare line fence (by rw [hheading]; rfl)
          rw [hsame, hheading] at hbare
          exact hbare
      rw [hraw, if_neg Bool.false_ne_true, if_neg Bool.false_ne_true, getElem?_cons_succ]
      exact ⟨Nat.succ_le_succ hle, Nat.succ_inj.trans hiff⟩

theorem bareLength_line (h : bareLength level all fence < all.length) :
    ∃ line, all[bareLength level all fence]? = some line ∧ line ≠ [] := by
  induction all generalizing fence with
  | nil => cases h
  | cons first rest ih =>
    rw [bareLength_cons] at h ⊢
    cases hbare : (headingOutside fence (withoutReturn first)).any fun heading => decide (heading.1 ≤ level) with
    | true =>
      refine ⟨first, rfl, ?_⟩
      rintro rfl
      have hnone : headingOutside fence (withoutReturn []) = none := by
        unfold headingOutside
        by_cases hcond : fence = none ∧ fenceMarker (withoutReturn []) = none
        · rw [if_pos hcond]
          rfl
        · rw [if_neg hcond]
      rw [hnone] at hbare
      cases hbare
    | false =>
      rw [hbare, if_neg Bool.false_ne_true, length_cons] at h
      rw [if_neg Bool.false_ne_true, getElem?_cons_succ]
      exact ih (Nat.lt_of_succ_lt_succ h)

theorem find_outline (level : Nat) (all : List JsString) (from_ number : Nat) (fence : Option Fence) :
    ((outline 0 all from_ number fence).find? (·.level ≤ level)).map (·.from_) =
      if bareLength level all fence < all.length then some (from_ + (leading (all.take (bareLength level all fence))).length)
      else none := by
  induction all generalizing from_ number fence with
  | nil => rfl
  | cons source rest ih =>
    have hmarker : markerAt 0 from_ source = fenceMarker (withoutReturn source) := if_pos (Nat.zero_le _)
    have hentry := headingOutside_entry from_ number source fence
    have hrest := ih (from_ + (source.length + 1)) (number + 1) (stepFence fence (fenceMarker source))
    have hplace : ∀ n, from_ + (leading ((source :: rest).take (n + 1))).length =
        from_ + (source.length + 1) + (leading (rest.take n)).length := by
      intro n
      rw [take_succ_cons, leading_cons_length]
      omega
    have hlater : ∀ n, (if n + 1 < (source :: rest).length then some (from_ + (leading ((source :: rest).take (n + 1))).length)
        else none) = if n < rest.length then some (from_ + (source.length + 1) + (leading (rest.take n)).length) else none := by
      intro n
      rw [hplace, length_cons]
      by_cases hn : n < rest.length
      · rw [if_pos hn, if_pos (Nat.add_lt_add_right hn 1)]
      · rw [if_neg hn, if_neg (fun h => hn (Nat.lt_of_succ_lt_succ h))]
    rw [outline_cons, hmarker, fenceMarker_bare, bareLength_cons, find?_append]
    rw [fenceMarker_bare] at hentry
    by_cases hopen : fence = none ∧ fenceMarker source = none
    · rw [if_pos hopen] at hentry
      rw [if_pos ⟨Nat.zero_le _, hopen⟩, hentry]
      cases hline : entryOf from_ number source with
      | none =>
        rw [Option.map_none, Option.any_none, if_neg Bool.false_ne_true, hlater]
        exact hrest
      | some entry =>
        rw [Option.map_some, Option.any_some]
        by_cases hends : entry.level ≤ level
        · have hhere : [entry].find? (fun entry => decide (entry.level ≤ level)) = some entry := by simp [hends]
          have hsome : 0 < (source :: rest).length := Nat.zero_lt_succ _
          rw [decide_eq_true hends, if_pos rfl, Option.toList_some, hhere, if_pos hsome]
          exact congrArg some (entryOf_from hline)
        · have hhere : [entry].find? (fun entry => decide (entry.level ≤ level)) = none := by simp [hends]
          rw [decide_eq_false hends, if_neg Bool.false_ne_true, Option.toList_some, hhere, hlater]
          exact hrest
    · rw [if_neg hopen] at hentry
      rw [if_neg (fun h => hopen h.2), hentry, Option.map_none, Option.any_none, if_neg Bool.false_ne_true, hlater]
      exact hrest

end

/-! ## The analysed section -/

section
variable {fold : JsString → JsString} {text : JsString} {i : Nat} {heading : IntelligenceHeading}
  {before after : List JsString} {source : JsString}

def Unmatched (fold : JsString → JsString) (normalized : JsString) (all : List JsString) (fence : Option Fence) : Prop :=
  ∀ before line after found, all = before ++ line :: after →
    headingOutside (fenceBehind 0 before 0 fence) line = some found → fold found.2 ≠ normalized

theorem sectionStart_none {normalized : JsString} {all : List JsString} {fence : Option Fence} :
    sectionStart fold normalized all fence = none ↔ Unmatched fold normalized all fence := by
  constructor
  · intro h
    induction all generalizing fence with
    | nil => intro before line after found hsplit; exact absurd hsplit (by simp)
    | cons first rest ih =>
      rw [sectionStart_cons] at h
      intro before line after found hsplit hheading htitle
      cases hfirst : (headingOutside fence first).filter fun heading => fold heading.2 == normalized with
      | some other =>
        rw [hfirst] at h
        cases h
      | none =>
        rw [hfirst] at h
        cases before with
        | nil =>
          obtain ⟨rfl, -⟩ := List.cons.inj hsplit
          have hhere : headingOutside fence first = some found := hheading
          rw [hhere] at hfirst
          have hmatch : (some found).filter (fun heading => fold heading.2 == normalized) = some found :=
            if_pos (beq_iff_eq.mpr htitle)
          rw [hmatch] at hfirst
          cases hfirst
        | cons other before =>
          obtain ⟨rfl, hrest⟩ := List.cons.inj hsplit
          rw [fenceBehind_line] at hheading
          exact ih (Option.map_eq_none_iff.mp h) before line after found hrest hheading htitle
  · intro h
    cases hstart : sectionStart fold normalized all fence with
    | none => rfl
    | some found =>
      obtain ⟨before, line, after, title, hfound, -⟩ := @sectionStart_some _ _ _ _ found.1 found.2 hstart
      exact absurd hfound.title (h before line after _ hfound.split hfound.heading)

structure SectionAt (text : JsString) (i : Nat) (heading : IntelligenceHeading) (before : List JsString) (source : JsString)
    (after : List JsString) : Prop where
  place : HeadingAt text i heading.entry before source after
  from_ : heading.sectionFrom = (leading before).length
  to_ : heading.sectionTo =
    if bareLength heading.level after none < after.length then
      (leading before).length + (leading (source :: after.take (bareLength heading.level after none))).length
    else text.length
  title : headingOutside none (withoutReturn source) = some (heading.level, heading.text)

theorem sectionAt_of (h : (analyzeDocument text).headings[i]? = some heading) (hwhole : text.length ≤ maxAnalyzedChars)
    (hroom : (analyzeDocument text).headings.length < maxItems) :
    ∃ before source after, SectionAt text i heading before source after := by
  have hwindow : window text = text := take_of_length_le hwhole
  rw [analyzeDocument_headings, hwindow] at h hroom
  have hentry : (entries text)[i]? = some heading.entry := by rw [entries, getElem?_map, h]; rfl
  obtain ⟨hi, before, source, after, hat⟩ := headingAt_of hentry
  have hcount : (entries text).length = (headingsOf text).length := length_map _
  have hsplit := hat.entries_split hi
  have hall : (outline 0 after ((leading before).length + (source.length + 1)) (before.length + 2) none).take
      (maxItems - (i + 1)) = outline 0 after ((leading before).length + (source.length + 1)) (before.length + 2) none := by
    have hlength := congrArg List.length hsplit
    rw [hcount, length_append, hat.index, length_cons, length_take] at hlength
    exact take_of_length_le (by omega)
  have hdrop : (entries text).drop (i + 1) =
      outline 0 after ((leading before).length + (source.length + 1)) (before.length + 2) none := by
    rw [hsplit, hall, ← drop_drop, drop_left' hat.index]
    rfl
  refine ⟨before, source, after, hat, entryOf_from hat.entry, ?_, ?_⟩
  · rw [sectionTo_eq h, hdrop, find_outline]
    by_cases hends : bareLength heading.level after none < after.length
    · rw [if_pos hends, if_pos hends, Option.getD_some, leading_cons_length]
      omega
    · rw [if_neg hends, if_neg hends]
      rfl
  · have hfence : fenceMarker (withoutReturn source) = none := heading_fence (entryOf_isSome hat.entry)
    rw [headingOutside_entry (leading before).length (before.length + 1), if_pos ⟨rfl, hfence⟩, hat.entry]
    rfl

theorem SectionAt.slice (h : SectionAt text i heading before source after) :
    text.slice heading.sectionFrom heading.sectionTo =
      if bareLength heading.level after none < after.length then
        leading (source :: after.take (bareLength heading.level after none))
      else joinLines (source :: after) := by
  rw [JsString.slice, h.from_, h.to_]
  by_cases hends : bareLength heading.level after none < after.length
  · have hrest : after.drop (bareLength heading.level after none) ≠ [] := by
      intro hnil
      have hlength := congrArg List.length hnil
      rw [length_drop, length_nil] at hlength
      omega
    have hjoin : joinLines (source :: after) = leading (source :: after.take (bareLength heading.level after none)) ++
        joinLines (after.drop (bareLength heading.level after none)) := by
      rw [← joinLines_append _ hrest, cons_append, take_append_drop]
    have htext : text = leading before ++ leading (source :: after.take (bareLength heading.level after none)) ++
        joinLines (after.drop (bareLength heading.level after none)) := by
      rw [append_assoc, ← hjoin]
      exact h.place.text_eq
    rw [if_pos hends, if_pos hends]
    conv_lhs => rw [htext]
    rw [← length_append, take_left, drop_left]
  · rw [if_neg hends, if_neg hends, take_length]
    conv_lhs => rw [h.place.text_eq]
    rw [drop_left]

theorem SectionAt.same_iff (h : SectionAt text i heading before source after) :
    (text.slice heading.sectionFrom heading.sectionTo = joinLines (source :: after.take (sectionLength heading.level after none)) ∨
      text.slice heading.sectionFrom heading.sectionTo =
        joinLines (source :: after.take (sectionLength heading.level after none)) ++ [newline]) ↔
    sectionLength heading.level after none = bareLength heading.level after none := by
  obtain ⟨hle, -⟩ := sectionLength_bare heading.level after none
  have hmost := sectionLength_le heading.level after none
  rw [h.slice]
  constructor
  · intro hsame
    by_cases heq : sectionLength heading.level after none = bareLength heading.level after none
    · exact heq
    have hends : bareLength heading.level after none < after.length := by omega
    rw [if_pos hends] at hsame
    obtain ⟨line, hline, hne⟩ := bareLength_line hends
    -- the longer cut has a line more that is not empty
    have hmore : after.take (sectionLength heading.level after none) =
        after.take (bareLength heading.level after none) ++ line ::
          (after.drop (bareLength heading.level after none + 1)).take
            (sectionLength heading.level after none - (bareLength heading.level after none + 1)) := by
      have hsum : sectionLength heading.level after none = bareLength heading.level after none +
          (1 + (sectionLength heading.level after none - (bareLength heading.level after none + 1))) := by omega
      have hhead : after.drop (bareLength heading.level after none) = line :: after.drop (bareLength heading.level after none + 1) := by
        obtain ⟨hlt, hget⟩ := List.getElem?_eq_some_iff.mp hline
        rw [← hget]
        exact drop_eq_getElem_cons hlt
      conv_lhs => rw [hsum, take_add, hhead, Nat.add_comm 1]
      rw [take_succ_cons]
    have hlonger := congrArg List.length (@leading_joinLines (source :: after.take (sectionLength heading.level after none))
      (by simp))
    rw [hmore, ← cons_append, leading_append, length_append, leading_cons_length line, length_append,
      length_singleton] at hlonger
    have hpos := length_pos_iff.mpr hne
    rcases hsame with hsame | hsame
    · have hlengths := congrArg List.length hsame
      rw [hmore, ← cons_append] at hlengths
      omega
    · have hlengths := congrArg List.length hsame
      rw [hmore, ← cons_append, length_append, length_singleton] at hlengths
      omega
  · intro heq
    rw [heq]
    by_cases hends : bareLength heading.level after none < after.length
    · rw [if_pos hends]
      exact Or.inr (leading_joinLines (by simp))
    · rw [if_neg hends, take_of_length_le (by omega)]
      exact Or.inl rfl

theorem SectionAt.first_line (h : SectionAt text i heading before source after) {line : JsString} {more : List JsString}
    (hline : newline ∉ line) (hmore : ∀ other ∈ more, newline ∉ other)
    (hsame : text.slice heading.sectionFrom heading.sectionTo = joinLines (line :: more) ∨
      text.slice heading.sectionFrom heading.sectionTo = joinLines (line :: more) ++ [newline]) : source = line := by
  obtain ⟨-, hsource, hafter⟩ := h.place.no_newline
  have hall : ∀ other ∈ line :: more, newline ∉ other := forall_mem_cons.mpr ⟨hline, hmore⟩
  have hleft : (lines (text.slice heading.sectionFrom heading.sectionTo)).head? = some source := by
    rw [h.slice]
    by_cases hends : bareLength heading.level after none < after.length
    · rw [if_pos hends, lines_leading_nil]
      · rfl
      · exact forall_mem_cons.mpr ⟨hsource, fun other hother => hafter other (mem_of_mem_take hother)⟩
    · rw [if_neg hends, lines_joinLines (by simp) (forall_mem_cons.mpr ⟨hsource, hafter⟩)]
      rfl
  have hright : (lines (text.slice heading.sectionFrom heading.sectionTo)).head? = some line := by
    rcases hsame with hsame | hsame
    · rw [hsame, lines_joinLines (by simp) hall]
      rfl
    · rw [hsame, ← leading_joinLines (by simp), lines_leading_nil hall]
      rfl
  exact Option.some.inj (hleft.symm.trans hright)

theorem extract_found {requested title : JsString} {line : JsString} {level : Nat} (hne : requested ≠ [])
    (h : Found fold (fold (trim requested)) (lines text) none before line after level title) :
    extractDocumentSection fold text requested = some (joinLines (line :: after.take (sectionLength level after none))) := by
  rw [extractDocumentSection, if_neg hne]
  dsimp only
  rw [sectionStart_found h, Option.map_some, h.split]
  have hdrop : (before ++ line :: after).drop (before.length + 1) = after := by
    rw [← drop_drop, drop_left]
    rfl
  have htake : ((before ++ line :: after).take (before.length + 1 + sectionLength level after none)).drop before.length =
      line :: after.take (sectionLength level after none) := by
    rw [Nat.add_assoc, Nat.add_comm 1, take_length_add_append, drop_left, take_succ_cons]
  rw [hdrop, htake]

end

/-! ## References to headings -/

/-- A reference to the heading is read back, and leads to the section the analyser gives it, up to a final line break. -/
def Resolves (fold : JsString → JsString) (text : JsString) (heading : IntelligenceHeading) (documentId : JsString)
    (label : Option JsString) : Prop :=
  ∃ reference block found, crossDocumentBlock documentId (some heading.text) label = some reference ∧
    crossDocumentRule reference = some block ∧ block.documentId = documentId ∧
    extractDocumentSection fold text block.heading = some found ∧
    (text.slice heading.sectionFrom heading.sectionTo = found ∨
      text.slice heading.sectionFrom heading.sectionTo = found ++ [newline])

def BareAt (text : JsString) (offset : Nat) : Prop :=
  ∀ before line after, lines text = before ++ line :: after → (leading before).length = offset → withoutReturn line = line

def VisibleFrom (fold : JsString → JsString) (text : JsString) (heading : IntelligenceHeading) : Prop :=
  ∀ before line after, lines text = before ++ line :: after → (leading before).length = heading.sectionFrom →
    fenceBehind 0 before 0 none = none ∧ Unmatched fold (fold heading.text) before none

/-- Cleaning leaves the title as it is, up to case, and the heading is visible to the loops, as is the one that ends its
section. A title that cleaning leaves nothing of leads to the whole text. -/
def Linkable (fold : JsString → JsString) (text : JsString) (heading : IntelligenceHeading) : Prop :=
  (cleanPart heading.text = [] → heading.sectionFrom = 0 ∧ heading.sectionTo = text.length) ∧
  (cleanPart heading.text ≠ [] → fold (trim (cleanPart heading.text)) = fold heading.text ∧
    BareAt text heading.sectionFrom ∧ BareAt text heading.sectionTo ∧ VisibleFrom fold text heading)

section
variable {fold : JsString → JsString} {text documentId : JsString} {label : Option JsString} {i : Nat}
  {heading : IntelligenceHeading} {before after : List JsString} {source : JsString}

theorem resolves_iff (hid : isDocumentId documentId = true) :
    Resolves fold text heading documentId label ↔
      ∃ found, extractDocumentSection fold text (trim (cleanPart heading.text)) = some found ∧
        (text.slice heading.sectionFrom heading.sectionTo = found ∨
          text.slice heading.sectionFrom heading.sectionTo = found ++ [newline]) := by
  have hwritten : crossDocumentBlock documentId (some heading.text) label = some ([33, 91, 91] ++ (documentId ++
      (markedPart 35 (some heading.text) ++ (markedPart 124 label ++ [93, 93])))) := if_pos hid
  obtain ⟨block, hblock, hdocument, hheading⟩ := crossDocumentRule_block hwritten
  constructor
  · rintro ⟨reference, other, found, hreference, hother, -, hfound, hsame⟩
    rw [hwritten] at hreference
    cases hreference
    rw [hblock] at hother
    cases hother
    rw [hheading] at hfound
    exact ⟨found, hfound, hsame⟩
  · rintro ⟨found, hfound, hsame⟩
    exact ⟨_, block, found, hwritten, hblock, hdocument, by rw [hheading]; exact hfound, hsame⟩

section

variable (h : SectionAt text i heading before source after)
include h

theorem SectionAt.bare_from :
    BareAt text heading.sectionFrom ↔ withoutReturn source = source := by
  constructor
  · intro hbare
    exact hbare before source after h.place.split h.from_.symm
  · intro hbare start line rest hsplit hstart
    obtain ⟨-, rfl, -⟩ := split_unique (h.place.split.symm.trans hsplit) (by rw [← h.from_, hstart])
    exact hbare

theorem SectionAt.bare_to :
    BareAt text heading.sectionTo ↔
      ∀ line, after[bareLength heading.level after none]? = some line → withoutReturn line = line := by
  by_cases hends : bareLength heading.level after none < after.length
  · have hto := h.to_
    rw [if_pos hends, ← length_append, ← leading_append] at hto
    have hnext : lines text = (before ++ source :: after.take (bareLength heading.level after none)) ++
        after[bareLength heading.level after none] :: after.drop (bareLength heading.level after none + 1) := by
      rw [h.place.split, append_assoc, cons_append, ← drop_eq_getElem_cons hends, take_append_drop]
    rw [getElem?_eq_getElem hends]
    constructor
    · intro hbare line hline
      cases hline
      exact hbare _ _ _ hnext hto.symm
    · intro hbare start line rest hsplit hstart
      obtain ⟨-, rfl, -⟩ := split_unique (hnext.symm.trans hsplit) (by rw [hstart, hto])
      exact hbare _ rfl
  · have hto := h.to_
    rw [if_neg hends] at hto
    rw [getElem?_eq_none (by omega)]
    refine iff_of_true (fun start line rest hsplit hstart => ?_) (fun _ hline => absurd hline (by simp))
    -- a line at the end of the text is empty
    have hjoin := joinLines_lines text
    rw [hsplit, joinLines_append start (by simp)] at hjoin
    have hlength := congrArg List.length hjoin
    rw [length_append, hstart, hto] at hlength
    have hempty : line = [] := by
      refine eq_nil_of_length_eq_zero ?_
      cases rest with
      | nil =>
        have hone : joinLines [line] = line := by simp [joinLines, List.intercalate]
        rw [hone] at hlength
        omega
      | cons next rest =>
        rw [joinLines_cons line (by simp), length_append] at hlength
        omega
    rw [hempty]
    rfl

theorem SectionAt.resolves (hlink : Linkable fold text heading) :
    ∃ found, extractDocumentSection fold text (trim (cleanPart heading.text)) = some found ∧
      (text.slice heading.sectionFrom heading.sectionTo = found ∨
        text.slice heading.sectionFrom heading.sectionTo = found ++ [newline]) := by
  by_cases hempty : cleanPart heading.text = []
  · obtain ⟨hfrom, hto⟩ := hlink.1 hempty
    refine ⟨text, by rw [hempty]; rfl, Or.inl ?_⟩
    rw [hfrom, hto, JsString.slice, take_length]
    rfl
  · obtain ⟨htitle, hfrom, hto, hvisible⟩ := hlink.2 hempty
    obtain ⟨hfence, hunmatched⟩ := hvisible before source after h.place.split h.from_.symm
    have hbare := h.bare_from.mp hfrom
    have hheading := h.title
    rw [hbare] at hheading
    have hnormal : fold (trim (trim (cleanPart heading.text))) = fold heading.text := by
      rw [trim_trimmed (trimmed_trim _), htitle]
    have hfound : Found fold (fold (trim (trim (cleanPart heading.text)))) (lines text) none before source after
        heading.level heading.text := by
      refine ⟨h.place.split, ?_, by rw [hfence]; exact hheading, hnormal.symm⟩
      rw [hnormal]
      exact sectionStart_none.mpr hunmatched
    refine ⟨_, extract_found (trim_clean_empty hempty) hfound, h.same_iff.mpr ?_⟩
    exact (sectionLength_bare heading.level after none).2.mpr (h.bare_to.mp hto)

theorem SectionAt.linkable (hbody : bodyOf text = 0)
    (hfirst : ∀ j < i, ∀ other, (entries text)[j]? = some other → fold other.text ≠ fold heading.text)
    (hi : i < maxItems) {found : JsString}
    (hfound : extractDocumentSection fold text (trim (cleanPart heading.text)) = some found)
    (hsame : text.slice heading.sectionFrom heading.sectionTo = found ∨
      text.slice heading.sectionFrom heading.sectionTo = found ++ [newline]) : Linkable fold text heading := by
  have hlengths := congrArg List.length h.place.text_eq
  rw [length_append] at hlengths
  by_cases hempty : cleanPart heading.text = []
  · refine ⟨fun _ => ?_, fun hne => absurd hempty hne⟩
    rw [hempty] at hfound
    obtain rfl : text = found := Option.some.inj hfound
    have hpos : 0 < (joinLines (source :: after)).length :=
      length_pos_iff.mpr (joinLines_dashless (entryOf_dashless h.place.entry) after).1
    have hslice : (text.slice heading.sectionFrom heading.sectionTo).length =
        min heading.sectionTo text.length - heading.sectionFrom := by
      rw [JsString.slice, length_drop, length_take]
    have hto : heading.sectionTo ≤ text.length := by
      rw [h.to_]
      by_cases hends : bareLength heading.level after none < after.length
      · have hshort := congrArg List.length h.slice
        rw [if_pos hends, hslice, h.to_, h.from_, if_pos hends] at hshort
        have hsome : 0 < (leading (source :: after.take (bareLength heading.level after none))).length := by
          rw [leading_cons_length]
          omega
        rw [if_pos hends]
        omega
      · rw [if_neg hends]
    rcases hsame with hsame | hsame
    · have hlength := congrArg List.length hsame
      rw [hslice] at hlength
      exact ⟨by omega, by omega⟩
    · have hlength := congrArg List.length hsame
      rw [hslice, length_append, length_singleton] at hlength
      omega
  · refine ⟨fun hnil => absurd hnil hempty, fun _ => ?_⟩
    have hnormal : trim (trim (cleanPart heading.text)) = trim (cleanPart heading.text) := trim_trimmed (trimmed_trim _)
    rw [extractDocumentSection, if_neg (trim_clean_empty hempty)] at hfound
    obtain ⟨⟨k, level⟩, hstart, -⟩ := Option.map_eq_some_iff.mp hfound
    obtain ⟨start, line, rest, title, hat, -⟩ := sectionStart_some hstart
    have hextract := extract_found (trim_clean_empty hempty) hat
    rw [extractDocumentSection, if_neg (trim_clean_empty hempty), hfound] at hextract
    cases hextract
    have hall := lines_no_newline text
    rw [hat.split] at hall
    -- it begins with the heading's own line
    have hline : source = line := h.first_line (hall line (by simp))
      (fun other hother => hall other (by simp [mem_of_mem_take hother])) hsame
    obtain rfl := hline
    have hbare := @headingOutside_bare source (fenceBehind 0 start 0 none) (by rw [hat.heading]; rfl)
    have hheading := h.title
    rw [hbare] at hheading
    have hopen : fenceBehind 0 start 0 none = none := by
      by_cases hopen : fenceBehind 0 start 0 none = none
      · exact hopen
      have hnone : headingOutside (fenceBehind 0 start 0 none) source = none := if_neg fun hcond => hopen hcond.1
      have hsome := hat.heading
      rw [hnone] at hsome
      cases hsome
    have hpair := hat.heading
    rw [hopen, hheading] at hpair
    obtain ⟨hlevel, htitle⟩ := Prod.mk.inj (Option.some.inj hpair)
    have hfold : fold (trim (cleanPart heading.text)) = fold heading.text := by
      rw [← hnormal, ← hat.title, htitle]
    -- no line before the reported heading has its title
    have hunmatched : Unmatched fold (fold heading.text) before none := by
      intro first other later titled hsplit hother htitled
      have houtside : fenceBehind 0 first 0 none = none := by
        by_cases houtside : fenceBehind 0 first 0 none = none
        · exact houtside
        · have hnone : headingOutside (fenceBehind 0 first 0 none) other = none := if_neg fun hcond => houtside hcond.1
          rw [hnone] at hother
          cases hother
      have hotherBare := @headingOutside_bare other (fenceBehind 0 first 0 none) (by rw [hother]; rfl)
      have hentry := headingOutside_entry (leading first).length (1 + first.length) other none
      rw [houtside] at hother
      rw [hotherBare, hother] at hentry
      have hmarker : fenceMarker other = none := by
        by_cases hmarker : fenceMarker other = none
        · exact hmarker
        · rw [if_neg (fun hcond => hmarker hcond.2)] at hentry
          cases hentry
      rw [if_pos ⟨rfl, hmarker⟩] at hentry
      obtain ⟨entry, hreported, heq⟩ := Option.map_eq_some_iff.mp hentry.symm
      have hplace : (outline 0 before 0 1 none)[(outline 0 first 0 1 none).length]? = some entry := by
        have hfirstMarker : markerAt 0 (0 + (leading first).length) other = none := by
          rw [markerAt, if_pos (Nat.zero_le _), fenceMarker_bare, hmarker]
        rw [hsplit, outline_append, getElem?_append_right (Nat.le_refl _), Nat.sub_self, houtside, outline_cons,
          hfirstMarker, if_pos ⟨Nat.zero_le _, rfl, rfl⟩, Nat.zero_add, hreported]
        rfl
      have hindex := h.place.index
      rw [hbody] at hindex
      have hlt : (outline 0 first 0 1 none).length < i := by
        rw [← hindex]
        exact (List.getElem?_eq_some_iff.mp hplace).1
      have hentries : (entries text)[(outline 0 first 0 1 none).length]? = some entry := by
        rw [h.place.entries_split hi, hbody, getElem?_append_left (by rw [hindex]; exact hlt)]
        exact hplace
      refine hfirst _ hlt entry hentries ?_
      rw [← htitled, ← (Prod.mk.inj heq).2]
    have hfence := h.place.fence
    rw [hbody] at hfence
    have hvisible : VisibleFrom fold text heading := by
      intro other next more hsplit hother
      obtain ⟨rfl, -, -⟩ := split_unique (h.place.split.symm.trans hsplit) (by rw [← h.from_, hother])
      exact ⟨hfence, hunmatched⟩
    -- so it is the first one, and both sections end at one line
    have hfoundHere : Found fold (fold (trim (trim (cleanPart heading.text)))) (lines text) none before source after
        heading.level heading.text := by
      rw [hnormal, hfold]
      exact ⟨h.place.split, sectionStart_none.mpr hunmatched, by rw [hfence]; exact hheading, rfl⟩
    have hextractHere := extract_found (trim_clean_empty hempty) hfoundHere
    rw [extractDocumentSection, if_neg (trim_clean_empty hempty), hfound] at hextractHere
    rw [Option.some.inj hextractHere] at hsame
    exact ⟨hfold, h.bare_from.mpr hbare, h.bare_to.mpr
      ((sectionLength_bare heading.level after none).2.mp (h.same_iff.mp hsame)), hvisible⟩

end

end

/-! ## Two texts -/

/-- `# A`, a line and `# B`. -/
def twoSections : JsString := [35, 32, 65, 10, 120, 10, 35, 32, 66]

def firstSection : IntelligenceHeading := ⟨1, [65], ⟨0, 3, 1, 1⟩, 0, 6⟩

end Marks
