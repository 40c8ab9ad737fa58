import Marks.Toggles

/-! # Toggling twice

A document is cut into the selected texts, with the markers of those that are wrapped, and the gaps between them. A
toggle gives every text without markers a pair and takes the pair of every other. A second toggle undoes this exactly
if no text that lost its markers stands between markers again. -/

namespace Marks

open JsString List

/-! ## Cutting a document -/

structure WrapBlock where
  gap : JsString
  wrapped : Bool
  text : JsString

namespace WrapBlock

def flip (block : WrapBlock) : WrapBlock := { block with wrapped := !block.wrapped }

section
variable (marker : JsString)

def body (block : WrapBlock) : JsString := if block.wrapped then marker ++ (block.text ++ marker) else block.text

def flat : List WrapBlock → JsString → JsString
  | [], tail => tail
  | block :: rest, tail => block.gap ++ (body marker block ++ flat rest tail)

def reach (block : WrapBlock) : Nat := if block.wrapped then marker.length else 0

def rangeAt (pos : Nat) (block : WrapBlock) : SelectionRange :=
  ⟨pos + block.gap.length + reach marker block, pos + block.gap.length + reach marker block + block.text.length⟩

def next (pos : Nat) (block : WrapBlock) : Nat := pos + block.gap.length + (body marker block).length

def rangesOf : Nat → List WrapBlock → List SelectionRange
  | _, [] => []
  | pos, block :: rest => rangeAt marker pos block :: rangesOf (next marker pos block) rest

def changeAt (pos : Nat) (block : WrapBlock) : RangeChange :=
  let start := pos + block.gap.length
  let width := marker.length
  if block.wrapped then
    { changes := [⟨start, start + width, []⟩,
        ⟨start + width + block.text.length, start + width + block.text.length + width, []⟩]
      range := ⟨start, start + block.text.length⟩ }
  else
    { changes := [⟨start, start + block.text.length, marker ++ block.text ++ marker⟩]
      range := ⟨start + width, start + width + block.text.length⟩ }

def changesOf : Nat → List WrapBlock → List RangeChange
  | _, [] => []
  | pos, block :: rest => changeAt marker pos block :: changesOf (next marker pos block) rest

def Reads : JsString → List WrapBlock → JsString → Prop
  | _, [], _ => True
  | front, block :: rest, tail =>
    (block.wrapped = false → ¬ (marker <:+ front ++ block.gap ∧ marker <+: flat marker rest tail)) ∧
      Reads (front ++ (block.gap ++ body marker block)) rest tail

def Filled (blocks : List WrapBlock) : Prop := ∀ block ∈ blocks, block.text ≠ []

end

section
variable {marker placeholder doc front tail : JsString} {block : WrapBlock} {blocks : List WrapBlock} {pos : Nat}

@[simp] theorem flip_gap : block.flip.gap = block.gap := rfl
@[simp] theorem flip_text : block.flip.text = block.text := rfl

theorem flip_flip : (blocks.map flip).map flip = blocks := by
  rw [map_map]
  refine (map_congr_left fun block _ => ?_).trans (map_id _)
  cases block
  simp [flip]

theorem Filled.flipped (h : Filled blocks) : Filled (blocks.map flip) := by
  intro block hm
  obtain ⟨old, hold, rfl⟩ := mem_map.mp hm
  exact h old hold

theorem body_length : (body marker block).length = reach marker block + block.text.length + reach marker block := by
  unfold body reach
  by_cases hwrapped : block.wrapped = true
  · rw [if_pos hwrapped, if_pos hwrapped, length_append, length_append, Nat.add_assoc]
  · rw [if_neg hwrapped, if_neg hwrapped, Nat.zero_add, Nat.add_zero]

/-! ## What a toggle reads -/

theorem slice_middle (a b c : JsString) : (a ++ (b ++ c)).slice a.length (a.length + b.length) = b := by
  rw [slice, take_length_add_append, take_left, drop_left]

theorem isWrapped_between {front text back : JsString} {range : SelectionRange} (hfrom : range.from_ = front.length)
    (hto : range.to_ = front.length + text.length) :
    isWrapped marker (front ++ (text ++ back)) range = true ↔ marker <:+ front ∧ marker <+: back := by
  have hbefore : (front ++ (text ++ back)).slice (range.from_ - marker.length) range.from_ =
      front.drop (front.length - marker.length) := by
    rw [hfrom, slice, take_left]
  have hafter : (front ++ (text ++ back)).slice range.to_
      (min (front ++ (text ++ back)).length (range.to_ + marker.length)) = back.take marker.length := by
    rw [hto, ← append_assoc, ← length_append, slice, @List.length_append _ (front ++ text),
      Nat.add_min_add_left, take_length_add_append, drop_left, Nat.min_comm, ← take_take, take_length]
  unfold isWrapped
  dsimp only
  rw [hbefore, hafter, Bool.and_eq_true, beq_iff_eq, beq_iff_eq, suffix_iff_eq_drop, prefix_iff_eq_take]
  exact and_congr eq_comm eq_comm

theorem rangeAt_from : (rangeAt marker pos block).from_ = pos + block.gap.length + reach marker block := by
  unfold SelectionRange.from_ rangeAt
  dsimp only
  omega

theorem rangeAt_to :
    (rangeAt marker pos block).to_ = pos + block.gap.length + reach marker block + block.text.length := by
  unfold SelectionRange.to_ rangeAt
  dsimp only
  omega

theorem isWrapped_block (h : block.wrapped = false → ¬ (marker <:+ front ++ block.gap ∧ marker <+: flat marker blocks tail)) :
    isWrapped marker (front ++ flat marker (block :: blocks) tail) (rangeAt marker front.length block) = block.wrapped := by
  have hfrom := @rangeAt_from marker block front.length
  have hto := @rangeAt_to marker block front.length
  cases hwrapped : block.wrapped with
  | true =>
    have hflat : front ++ flat marker (block :: blocks) tail =
        (front ++ block.gap ++ marker) ++ (block.text ++ (marker ++ flat marker blocks tail)) := by
      simp [flat, body, hwrapped]
    have hreach : reach marker block = marker.length := by
      unfold reach
      rw [if_pos hwrapped]
    rw [hreach] at hfrom hto
    rw [hflat]
    refine (isWrapped_between ?_ ?_).mpr ⟨suffix_append _ _, prefix_append _ _⟩
    · rw [hfrom, length_append, length_append]
    · rw [hto, length_append, length_append]
  | false =>
    have hflat : front ++ flat marker (block :: blocks) tail = (front ++ block.gap) ++ (block.text ++ flat marker blocks tail) := by
      simp [flat, body, hwrapped]
    have hreach : reach marker block = 0 := by
      unfold reach
      rw [hwrapped, if_neg Bool.false_ne_true]
    rw [hreach] at hfrom hto
    rw [hflat, Bool.eq_false_iff]
    refine fun hread => h hwrapped ((isWrapped_between ?_ ?_).mp hread)
    · rw [hfrom, length_append, Nat.add_zero]
    · rw [hto, length_append, Nat.add_zero]

theorem slice_text : (front ++ flat marker (block :: blocks) tail).slice (rangeAt marker front.length block).from_
    (rangeAt marker front.length block).to_ = block.text := by
  rw [rangeAt_from, rangeAt_to]
  cases hwrapped : block.wrapped with
  | true =>
    have hflat : front ++ flat marker (block :: blocks) tail =
        (front ++ block.gap ++ marker) ++ (block.text ++ (marker ++ flat marker blocks tail)) := by
      simp [flat, body, hwrapped]
    have hreach : front.length + block.gap.length + reach marker block = (front ++ block.gap ++ marker).length := by
      simp [reach, hwrapped, Nat.add_assoc]
    rw [hflat, hreach, slice_middle]
  | false =>
    have hflat : front ++ flat marker (block :: blocks) tail = (front ++ block.gap) ++ (block.text ++ flat marker blocks tail) := by
      simp [flat, body, hwrapped]
    have hreach : front.length + block.gap.length + reach marker block = (front ++ block.gap).length := by
      simp [reach, hwrapped]
    rw [hflat, hreach, slice_middle]

theorem wrapRange_block (htext : block.text ≠ [])
    (h : block.wrapped = false → ¬ (marker <:+ front ++ block.gap ∧ marker <+: flat marker blocks tail)) :
    wrapRange marker placeholder (front ++ flat marker (block :: blocks) tail) (rangeAt marker front.length block) =
      changeAt marker front.length block := by
  have hpos := length_pos_iff.mpr htext
  unfold wrapRange
  dsimp only
  rw [isWrapped_block h, slice_text, if_neg htext]
  unfold changeAt
  cases hwrapped : block.wrapped with
  | true =>
    have hreach : reach marker block = marker.length := by simp [reach, hwrapped]
    rw [if_pos rfl, if_pos rfl, rangeAt_from, rangeAt_to, hreach, Nat.add_sub_cancel]
    congr 2
    omega
  | false =>
    have hreach : reach marker block = 0 := by simp [reach, hwrapped]
    have hempty : (rangeAt marker front.length block).empty = false := by
      unfold SelectionRange.empty rangeAt
      simp only [beq_eq_false_iff_ne]
      omega
    rw [if_neg Bool.false_ne_true, if_neg Bool.false_ne_true, hempty, if_neg Bool.false_ne_true, rangeAt_from, rangeAt_to,
      hreach, Nat.add_zero]

theorem next_length : next marker front.length block = (front ++ (block.gap ++ body marker block)).length := by
  unfold next
  rw [length_append, length_append, Nat.add_assoc]

theorem flat_cons : front ++ flat marker (block :: blocks) tail =
    (front ++ (block.gap ++ body marker block)) ++ flat marker blocks tail := by
  simp [flat]

theorem wrapRanges_blocks (hfilled : Filled blocks) (h : Reads marker front blocks tail) :
    (rangesOf marker front.length blocks).map (wrapRange marker placeholder (front ++ flat marker blocks tail)) =
      changesOf marker front.length blocks := by
  induction blocks generalizing front with
  | nil => rfl
  | cons block blocks ih =>
    obtain ⟨hblock, hrest⟩ := h
    have hnext := ih (fun other hm => hfilled other (mem_cons_of_mem _ hm)) hrest
    rw [← next_length, ← flat_cons] at hnext
    show wrapRange _ _ _ _ :: List.map _ _ = _
    rw [wrapRange_block (hfilled block mem_cons_self) hblock, hnext]
    rfl

/-! ## What a toggle does -/

theorem changesOf_cons : changesOf marker pos (block :: blocks) =
    changeAt marker pos block :: changesOf marker (next marker pos block) blocks := rfl

theorem together_blocks : Splice.together (front ++ flat marker blocks tail) front.length
    ((changesOf marker front.length blocks).flatMap (·.changes)) = flat marker (blocks.map flip) tail := by
  induction blocks generalizing front with
  | nil => exact drop_left
  | cons block blocks ih =>
    have hnext := @ih (front ++ (block.gap ++ body marker block))
    rw [← next_length, ← flat_cons] at hnext
    have hgap : ((front ++ flat marker (block :: blocks) tail).take (front.length + block.gap.length)).drop front.length =
        block.gap := slice_middle _ _ _
    rw [changesOf_cons, flatMap_cons, map_cons]
    cases hwrapped : block.wrapped with
    | true =>
      have hend : next marker front.length block =
          front.length + block.gap.length + marker.length + block.text.length + marker.length := by
        simp [next, body, hwrapped, Nat.add_assoc]
      have htext : ((front ++ flat marker (block :: blocks) tail).take
          (front.length + block.gap.length + marker.length + block.text.length)).drop
            (front.length + block.gap.length + marker.length) = block.text := by
        have hflat : front ++ flat marker (block :: blocks) tail =
            (front ++ block.gap ++ marker) ++ (block.text ++ (marker ++ flat marker blocks tail)) := by
          simp [flat, body, hwrapped]
        have hplace : front.length + block.gap.length + marker.length = (front ++ block.gap ++ marker).length := by
          simp [Nat.add_assoc]
        rw [hflat, hplace]
        exact slice_middle _ _ _
      rw [hend] at hnext ⊢
      simp only [changeAt, hwrapped, if_true, cons_append, nil_append, Splice.together, append_nil]
      rw [hgap, htext, hnext]
      simp [flat, body, flip, hwrapped]
    | false =>
      have hend : next marker front.length block = front.length + block.gap.length + block.text.length := by
        simp [next, body, hwrapped]
      rw [hend] at hnext ⊢
      simp only [changeAt, hwrapped, Bool.false_eq_true, if_false, cons_append, nil_append, Splice.together]
      rw [hgap, hnext]
      simp [flat, body, flip, hwrapped]

theorem next_reach : next marker pos block =
    pos + block.gap.length + (reach marker block + block.text.length + reach marker block) := by
  unfold next
  rw [body_length]

theorem inOrder_blocks (hmarker : marker ≠ []) (hfilled : Filled blocks) :
    Splice.InOrder pos ((changesOf marker pos blocks).flatMap (·.changes)) := by
  have hwidth := length_pos_iff.mpr hmarker
  induction blocks generalizing pos with
  | nil => trivial
  | cons block blocks ih =>
    have hnext := @ih (next marker pos block) fun other hm => hfilled other (mem_cons_of_mem _ hm)
    have htext := length_pos_iff.mpr (hfilled block mem_cons_self)
    rw [next_reach] at hnext
    rw [changesOf_cons, flatMap_cons, next_reach]
    cases hwrapped : block.wrapped with
    | true =>
      simp only [changeAt, reach, hwrapped, if_true, cons_append, nil_append, Splice.InOrder] at hnext ⊢
      refine ⟨by omega, by omega, by omega, by omega, hnext.weaken (by omega)⟩
    | false =>
      simp only [changeAt, reach, hwrapped, Bool.false_eq_true, if_false, cons_append, nil_append,
        Splice.InOrder] at hnext ⊢
      exact ⟨by omega, by omega, hnext.weaken (by omega)⟩

theorem growth_changeAt : (changeAt marker pos block).growth =
    if block.wrapped then -(2 * marker.length : Int) else 2 * marker.length := by
  unfold RangeChange.growth changeAt
  cases hwrapped : block.wrapped with
  | true =>
    simp only [if_true, map_cons, map_nil, sum_cons, sum_nil, length_nil]
    omega
  | false =>
    simp only [Bool.false_eq_true, if_false, map_cons, map_nil, sum_cons, sum_nil, length_append]
    omega

theorem ends_changeAt : (changeAt marker pos block).Ends (next marker pos block) := by
  intro splice hm
  rw [next_reach]
  unfold changeAt at hm
  cases hwrapped : block.wrapped with
  | true =>
    simp only [hwrapped, if_true, mem_cons, not_mem_nil, or_false] at hm
    rcases hm with rfl | rfl <;> simp only [reach, hwrapped, if_true] <;> omega
  | false =>
    simp only [hwrapped, Bool.false_eq_true, if_false, mem_cons, not_mem_nil, or_false] at hm
    rw [hm]
    simp only [reach, hwrapped, Bool.false_eq_true, if_false]
    omega

theorem changeAt_from : pos ≤ (changeAt marker pos block).range.from_ := by
  unfold changeAt SelectionRange.from_
  cases block.wrapped <;> simp only [Bool.false_eq_true, if_false, if_true] <;> omega

theorem changeAt_to : ((changeAt marker pos block).range.to_ : Int) ≤
    (next marker pos block : Int) + (changeAt marker pos block).growth := by
  rw [growth_changeAt, next_reach]
  unfold changeAt SelectionRange.to_ reach
  cases block.wrapped <;> simp only [Bool.false_eq_true, if_false, if_true] <;> omega

theorem flat_length : (flat marker (block :: blocks) tail).length + pos =
    (flat marker blocks tail).length + next marker pos block := by
  unfold next
  simp only [flat, length_append]
  omega

theorem separate_blocks (hmarker : marker ≠ []) (hfilled : Filled blocks) {length : Nat}
    (hlength : length = pos + (flat marker blocks tail).length) :
    RangeChange.Separate length pos (changesOf marker pos blocks) := by
  induction blocks generalizing pos with
  | nil =>
    show pos ≤ length
    omega
  | cons block blocks ih =>
    have hflat := @flat_length marker tail block blocks pos
    have horder := @inOrder_blocks marker [block] pos hmarker
      fun other hm => hfilled other (mem_singleton.mp hm ▸ mem_cons_self)
    rw [changesOf_cons, changesOf, flatMap_cons, flatMap_nil, append_nil] at horder
    refine ⟨next marker pos block, ?_, horder, ends_changeAt, changeAt_from, changeAt_to,
      ih (fun other hm => hfilled other (mem_cons_of_mem _ hm)) (by omega)⟩
    unfold next
    omega

theorem within_separate {length : Nat} {changes : List RangeChange} (h : RangeChange.Separate length pos changes) :
    ∀ splice ∈ changes.flatMap (·.changes), splice.stop ≤ length := by
  have hle : ∀ {pos : Nat} {changes : List RangeChange}, RangeChange.Separate length pos changes → pos ≤ length := by
    intro pos changes h
    induction changes generalizing pos with
    | nil => exact h
    | cons change changes ih =>
      obtain ⟨stop, hstop, _, _, _, _, hrest⟩ := h
      exact Nat.le_trans hstop (ih hrest)
  induction changes generalizing pos with
  | nil => exact fun _ hm => (by cases hm)
  | cons change changes ih =>
    obtain ⟨stop, _, _, hends, _, _, hrest⟩ := h
    intro splice hm
    rw [flatMap_cons] at hm
    rcases mem_append.mp hm with hm | hm
    · exact Nat.le_trans (hends splice hm) (hle hrest)
    · exact ih hrest splice hm

theorem mapped_blocks {pos' : Nat} {δ : Int} (hpos : (pos' : Int) = pos + δ) :
    RangeChange.mapped δ (changesOf marker pos blocks) = rangesOf marker pos' (blocks.map flip) := by
  induction blocks generalizing pos pos' δ with
  | nil => rfl
  | cons block blocks ih =>
    have hnext : (next marker pos' block.flip : Int) = next marker pos block + (δ + (changeAt marker pos block).growth) := by
      rw [growth_changeAt, next_reach, next_reach]
      unfold reach flip
      cases block.wrapped <;> simp only [Bool.not_true, Bool.not_false, Bool.false_eq_true, if_false, if_true] <;> omega
    have hrange : (changeAt marker pos block).range.shift δ = rangeAt marker pos' block.flip := by
      unfold changeAt SelectionRange.shift rangeAt reach flip
      cases block.wrapped <;> simp only [Bool.not_true, Bool.not_false, Bool.false_eq_true, if_false, if_true,
        SelectionRange.mk.injEq] <;> omega
    rw [changesOf_cons]
    show (changeAt marker pos block).range.shift δ :: RangeChange.mapped _ _ = _
    rw [hrange, ih hnext]
    rfl

end

/-! ## The command -/

section
variable {changeByRange : ChangeByRange} {marker placeholder tail : JsString} {blocks : List WrapBlock} {state : EditorState}

theorem ahead_from (range : SelectionRange) : range.ahead.from_ = range.from_ := by
  unfold SelectionRange.ahead SelectionRange.from_ SelectionRange.to_
  dsimp only
  omega

theorem ahead_to (range : SelectionRange) : range.ahead.to_ = range.to_ := by
  unfold SelectionRange.ahead SelectionRange.from_ SelectionRange.to_
  dsimp only
  omega

theorem ahead_empty (range : SelectionRange) : range.ahead.empty = range.empty := by
  unfold SelectionRange.ahead SelectionRange.empty SelectionRange.from_ SelectionRange.to_
  rw [Bool.eq_iff_iff, beq_iff_eq, beq_iff_eq]
  dsimp only
  omega

theorem ahead_ranges {pos : Nat} :
    (rangesOf marker pos blocks).map SelectionRange.ahead = rangesOf marker pos blocks := by
  induction blocks generalizing pos with
  | nil => rfl
  | cons block blocks ih =>
    have hfirst : (rangeAt marker pos block).ahead = rangeAt marker pos block := by
      unfold SelectionRange.ahead
      rw [rangeAt_from, rangeAt_to]
      rfl
    show (rangeAt marker pos block).ahead :: _ = _
    rw [hfirst, ih]
    rfl

theorem isWrapped_ahead {doc : JsString} (range : SelectionRange) :
    isWrapped marker doc range.ahead = isWrapped marker doc range := by
  unfold isWrapped
  rw [ahead_from, ahead_to]

theorem wrapRange_ahead {doc : JsString} (range : SelectionRange) :
    wrapRange marker placeholder doc range.ahead = wrapRange marker placeholder doc range := by
  unfold wrapRange
  rw [isWrapped_ahead, ahead_from, ahead_to, ahead_empty]

theorem stateChanges (hdoc : state.doc = flat marker blocks tail)
    (hranges : state.ranges.map SelectionRange.ahead = rangesOf marker 0 blocks) (hfilled : Filled blocks)
    (hreads : Reads marker [] blocks tail) :
    state.ranges.map (wrapRange marker placeholder state.doc) = changesOf marker 0 blocks := by
  have hahead : state.ranges.map (wrapRange marker placeholder state.doc) =
      (state.ranges.map SelectionRange.ahead).map (wrapRange marker placeholder state.doc) := by
    rw [map_map]
    exact map_congr_left fun range _ => (wrapRange_ahead range).symm
  rw [hahead, hranges, hdoc]
  exact @wrapRanges_blocks marker placeholder [] tail blocks hfilled hreads

theorem toggle_blocks (hlaw : LawfulByRange changeByRange) (hmarker : marker ≠ [])
    (hdoc : state.doc = flat marker blocks tail)
    (hranges : state.ranges.map SelectionRange.ahead = rangesOf marker 0 blocks) (hfilled : Filled blocks)
    (hreads : Reads marker [] blocks tail) : toggleWrap changeByRange marker placeholder state =
      ⟨flat marker (blocks.map flip) tail, rangesOf marker 0 (blocks.map flip), state.mainIndex⟩ := by
  have hchanges := @stateChanges marker placeholder tail blocks state hdoc hranges hfilled hreads
  have horder := @inOrder_blocks marker blocks 0 hmarker hfilled
  have hseparate := @separate_blocks marker tail blocks 0 hmarker hfilled state.doc.length (by rw [hdoc, Nat.zero_add])
  have hwithin : ∀ splice ∈ (changesOf marker 0 blocks).flatMap (·.changes), splice.stop ≤ state.doc.length :=
    within_separate hseparate
  have htext : (toggleWrap changeByRange marker placeholder state).doc = flat marker (blocks.map flip) tail := by
    unfold toggleWrap
    rw [hlaw.doc, hchanges]
    unfold Splice.merged
    rw [Splice.mergedFrom_together horder hwithin (Nat.zero_le _), hdoc]
    exact @together_blocks marker [] tail blocks
  have hselected : (toggleWrap changeByRange marker placeholder state).ranges = rangesOf marker 0 (blocks.map flip) := by
    unfold toggleWrap
    rw [hlaw.ranges state _ (by rw [hchanges]; exact hseparate), hchanges]
    exact mapped_blocks (by simp)
  have hmain : (toggleWrap changeByRange marker placeholder state).mainIndex = state.mainIndex := hlaw.mainIndex _ _
  cases htoggled : toggleWrap changeByRange marker placeholder state
  rw [htoggled] at htext hselected hmain
  rw [← htext, ← hselected, ← hmain]

end

/-! ## Between markers again -/

section
variable {marker placeholder doc front tail : JsString} {block : WrapBlock} {blocks rest : List WrapBlock} {pos : Nat}

theorem flat_append : flat marker (blocks ++ rest) tail = flat marker blocks (flat marker rest tail) := by
  induction blocks with
  | nil => rfl
  | cons block blocks ih =>
    rw [cons_append]
    simp only [flat, ih]

theorem flat_tail (tail : JsString) : flat marker blocks tail = flat marker blocks [] ++ tail := by
  induction blocks with
  | nil => rfl
  | cons block blocks ih =>
    simp only [flat, append_assoc]
    rw [ih]

def endOf (marker : JsString) (pos : Nat) (blocks : List WrapBlock) : Nat := pos + (flat marker blocks []).length

theorem endOf_cons : endOf marker pos (block :: blocks) = endOf marker (next marker pos block) blocks := by
  have hflat := @flat_length marker [] block blocks pos
  unfold endOf
  omega

theorem rangesOf_append : rangesOf marker pos (blocks ++ rest) =
    rangesOf marker pos blocks ++ rangesOf marker (endOf marker pos blocks) rest := by
  induction blocks generalizing pos with
  | nil => rfl
  | cons block blocks ih =>
    rw [endOf_cons, cons_append]
    exact congrArg (rangeAt marker pos block :: ·) ih

theorem changesOf_append : changesOf marker pos (blocks ++ rest) =
    changesOf marker pos blocks ++ changesOf marker (endOf marker pos blocks) rest := by
  induction blocks generalizing pos with
  | nil => rfl
  | cons block blocks ih =>
    rw [endOf_cons, cons_append]
    exact congrArg (changeAt marker pos block :: ·) ih

theorem rangesOf_length : (rangesOf marker pos blocks).length = blocks.length := by
  induction blocks generalizing pos with
  | nil => rfl
  | cons block blocks ih => exact congrArg (· + 1) ih

theorem changesOf_length : (changesOf marker pos blocks).length = blocks.length := by
  induction blocks generalizing pos with
  | nil => rfl
  | cons block blocks ih => exact congrArg (· + 1) ih

theorem rangesOf_split {before after : List SelectionRange} {range : SelectionRange}
    (h : rangesOf marker pos blocks = before ++ range :: after) :
    ∃ earlier block later, blocks = earlier ++ block :: later ∧ before = rangesOf marker pos earlier := by
  induction before generalizing pos blocks with
  | nil =>
    cases blocks with
    | nil => cases h
    | cons block blocks => exact ⟨[], block, blocks, rfl, rfl⟩
  | cons first before ih =>
    cases blocks with
    | nil => cases h
    | cons block blocks =>
      obtain ⟨hfirst, hrest⟩ := List.cons.inj h
      obtain ⟨earlier, other, later, rfl, hbefore⟩ := ih hrest
      refine ⟨block :: earlier, other, later, rfl, ?_⟩
      rw [← hfirst, hbefore]
      rfl

theorem reads_iff : Reads marker front blocks tail ↔ ∀ earlier block later, blocks = earlier ++ block :: later →
    block.wrapped = false → ¬ (marker <:+ front ++ flat marker earlier block.gap ∧ marker <+: flat marker later tail) := by
  induction blocks generalizing front with
  | nil =>
    refine ⟨fun _ earlier block later h => ?_, fun _ => trivial⟩
    cases earlier <;> cases h
  | cons first blocks ih =>
    have hfront : ∀ earlier gap, front ++ flat marker (first :: earlier) gap =
        front ++ (first.gap ++ body marker first) ++ flat marker earlier gap := fun _ _ => flat_cons
    constructor
    · rintro ⟨hfirst, hrest⟩ earlier block later h
      cases earlier with
      | nil =>
        cases h
        exact hfirst
      | cons other earlier =>
        obtain ⟨rfl, hblocks⟩ := List.cons.inj h
        rw [hfront]
        exact ih.mp hrest earlier block later hblocks
    · intro h
      refine ⟨h [] first blocks rfl, ih.mpr fun earlier block later hblocks => ?_⟩
      have hblock := h (first :: earlier) block later (by rw [hblocks, cons_append])
      rw [hfront] at hblock
      exact hblock

end

end WrapBlock

open WrapBlock

/-- The ranges stand in order inside the document, none is empty, and the markers a range is going to lose do not reach
into another range or its markers. -/
def MarkersApart (marker doc : JsString) : Nat → List SelectionRange → Prop
  | pos, [] => pos ≤ doc.length
  | pos, range :: rest =>
    let width := if isWrapped marker doc range then marker.length else 0
    pos + width ≤ range.from_ ∧ range.from_ < range.to_ ∧ MarkersApart marker doc (range.to_ + width) rest

def changesFor (marker placeholder doc : JsString) (ranges : List SelectionRange) : List (Splice UInt16) :=
  (ranges.map (wrapRange marker placeholder doc)).flatMap (·.changes)

/-- No text that loses its markers comes to stand between markers, with those the other ranges get or lose. -/
def StaysStripped (marker placeholder doc : JsString) (ranges : List SelectionRange) : Prop :=
  ∀ earlier range later, ranges = earlier ++ range :: later → isWrapped marker doc range = true →
    ¬ (marker <:+ Splice.together (doc.take (range.from_ - marker.length)) 0 (changesFor marker placeholder doc earlier) ∧
      marker <+: Splice.together doc (range.to_ + marker.length) (changesFor marker placeholder doc later))

section
variable {marker placeholder doc : JsString} {ranges : List SelectionRange}

theorem apart_le {pos : Nat} (h : MarkersApart marker doc pos ranges) : pos ≤ doc.length := by
  induction ranges generalizing pos with
  | nil => exact h
  | cons range ranges ih =>
    obtain ⟨hfrom, hsome, hrest⟩ := h
    have hle := ih hrest
    omega

theorem cut_blocks {pos : Nat} (h : MarkersApart marker doc pos ranges) : ∃ blocks tail,
    doc = doc.take pos ++ flat marker blocks tail ∧ rangesOf marker pos blocks = ranges.map SelectionRange.ahead ∧
      Filled blocks ∧ Reads marker (doc.take pos) blocks tail := by
  induction ranges generalizing pos with
  | nil => exact ⟨[], doc.drop pos, (take_append_drop pos doc).symm, rfl, by simp [Filled], trivial⟩
  | cons range ranges ih =>
    obtain ⟨hfrom, hsome, hrest⟩ := h
    have hend := apart_le hrest
    obtain ⟨blocks, tail, hdoc, hranges, hfilled, hreads⟩ := ih hrest
    -- what stands before the text and behind it
    have htake : ∀ m n, m ≤ n → n ≤ doc.length → doc.take n = doc.take m ++ doc.slice m n := by
      intro m n hle _
      have hfirst : doc.take m = (doc.take n).take m := by rw [take_take, Nat.min_eq_left hle]
      rw [hfirst, slice, take_append_drop]
    have hlength : ∀ m n, m ≤ n → n ≤ doc.length → (doc.slice m n).length = n - m := by
      intro m n _ hle
      rw [slice, length_drop, length_take, Nat.min_eq_left hle]
    have hbetween : doc = doc.take range.from_ ++ (doc.slice range.from_ range.to_ ++ doc.drop range.to_) := by
      rw [← append_assoc, ← htake _ _ (Nat.le_of_lt hsome) (by omega), take_append_drop]
    have hread := @isWrapped_between marker (doc.take range.from_) (doc.slice range.from_ range.to_) (doc.drop range.to_) range
      (by rw [length_take, Nat.min_eq_left (by omega)])
      (by rw [length_take, hlength _ _ (Nat.le_of_lt hsome) (by omega), Nat.min_eq_left (by omega)]; omega)
    rw [← hbetween] at hread
    have htext : doc.slice range.from_ range.to_ ≠ [] := by
      intro hnil
      have hzero := hlength range.from_ range.to_ (Nat.le_of_lt hsome) (by omega)
      rw [hnil, length_nil] at hzero
      omega
    have hpos : (doc.take pos).length = pos := by rw [length_take, Nat.min_eq_left (by omega)]
    cases hwrapped : isWrapped marker doc range with
    | true =>
      rw [hwrapped, if_pos rfl] at hfrom hdoc hranges hreads hend
      obtain ⟨hbefore, hafter⟩ := hread.mp hwrapped
      have hopen : doc.slice (range.from_ - marker.length) range.from_ = marker := by
        have hdrop := suffix_iff_eq_drop.mp hbefore
        rw [length_take, Nat.min_eq_left (by omega)] at hdrop
        exact hdrop.symm
      have hclose : doc.slice range.to_ (range.to_ + marker.length) = marker := by
        rw [slice, List.drop_take, Nat.add_sub_cancel_left]
        exact (prefix_iff_eq_take.mp hafter).symm
      have hfront : doc.take (range.to_ + marker.length) = doc.take pos ++
          (doc.slice pos (range.from_ - marker.length) ++ (marker ++ (doc.slice range.from_ range.to_ ++ marker))) := by
        rw [htake range.to_ _ (Nat.le_add_right _ _) hend, hclose, htake _ _ (Nat.le_of_lt hsome) (by omega),
          htake (range.from_ - marker.length) range.from_ (Nat.sub_le _ _) (by omega), hopen,
          htake pos (range.from_ - marker.length) (by omega) (by omega)]
        simp only [append_assoc]
      refine ⟨⟨doc.slice pos (range.from_ - marker.length), true, doc.slice range.from_ range.to_⟩ :: blocks, tail, ?_, ?_,
        ?_, ?_⟩
      · rw [hfront] at hdoc
        simpa [flat, body] using hdoc
      · have hgapLength := hlength pos (range.from_ - marker.length) (by omega) (by omega)
        have htextLength := hlength range.from_ range.to_ (Nat.le_of_lt hsome) (by omega)
        rw [map_cons, ← hranges]
        refine congrArg₂ List.cons ?_ (congrArg (rangesOf marker · blocks) ?_)
        · unfold rangeAt SelectionRange.ahead reach
          simp only [if_true, SelectionRange.mk.injEq, hgapLength, htextLength]
          omega
        · rw [next_reach]
          simp only [reach, if_true, hgapLength, htextLength]
          omega
      · intro block hm
        rcases mem_cons.mp hm with rfl | hm
        · exact htext
        · exact hfilled block hm
      · refine ⟨fun hfalse => (by cases hfalse), ?_⟩
        rw [hfront] at hreads
        exact hreads
    | false =>
      rw [hwrapped, if_neg Bool.false_ne_true, Nat.add_zero] at hfrom hdoc hranges hreads hend
      have hfront : doc.take range.to_ = doc.take pos ++ (doc.slice pos range.from_ ++ doc.slice range.from_ range.to_) := by
        rw [htake _ _ (Nat.le_of_lt hsome) hend, htake _ _ hfrom (by omega), append_assoc]
      refine ⟨⟨doc.slice pos range.from_, false, doc.slice range.from_ range.to_⟩ :: blocks, tail, ?_, ?_, ?_, ?_⟩
      · rw [hfront] at hdoc
        simpa [flat, body] using hdoc
      · have hgapLength := hlength pos range.from_ hfrom (by omega)
        have htextLength := hlength range.from_ range.to_ (Nat.le_of_lt hsome) (by omega)
        rw [map_cons, ← hranges]
        refine congrArg₂ List.cons ?_ (congrArg (rangesOf marker · blocks) ?_)
        · unfold rangeAt SelectionRange.ahead reach
          simp only [Bool.false_eq_true, if_false, SelectionRange.mk.injEq, hgapLength, htextLength]
          omega
        · rw [next_reach]
          simp only [reach, Bool.false_eq_true, if_false, hgapLength, htextLength]
          omega
      · intro block hm
        rcases mem_cons.mp hm with rfl | hm
        · exact htext
        · exact hfilled block hm
      · refine ⟨fun _ hboth => ?_, ?_⟩
        · have hdrop : doc.drop range.to_ = flat marker blocks tail := by
            have hsplit := take_append_drop range.to_ doc
            conv_rhs at hsplit => rw [hdoc]
            exact append_cancel_left hsplit
          rw [← htake _ _ hfrom (by omega), ← hdrop] at hboth
          rw [hread.mpr hboth] at hwrapped
          cases hwrapped
        · rw [hfront] at hreads
          exact hreads

end

section
variable {marker placeholder doc tail : JsString} {ranges : List SelectionRange} {blocks : List WrapBlock}

theorem around_block (hdoc : doc = flat marker blocks tail) (hranges : rangesOf marker 0 blocks = ranges.map SelectionRange.ahead)
    (hfilled : Filled blocks) (hreads : Reads marker [] blocks tail) {earlier later : List WrapBlock} {block : WrapBlock}
    (hblocks : blocks = earlier ++ block :: later) : ∃ before range after, ranges = before ++ range :: after ∧
      before.length = earlier.length ∧ isWrapped marker doc range = block.wrapped ∧ (block.wrapped = true →
        Splice.together (doc.take (range.from_ - marker.length)) 0 (changesFor marker placeholder doc before) =
            flat marker (earlier.map flip) block.gap ∧
          Splice.together doc (range.to_ + marker.length) (changesFor marker placeholder doc after) =
            flat marker (later.map flip) tail) := by
  have hall := @wrapRanges_blocks marker placeholder [] tail blocks hfilled hreads
  rw [nil_append, ← hdoc, length_nil, hblocks, rangesOf_append, changesOf_append, map_append] at hall
  obtain ⟨hearlier, hrest⟩ := append_inj hall (by rw [length_map, changesOf_length, rangesOf_length])
  obtain ⟨-, hlater⟩ := List.cons.inj hrest
  -- the ranges are cut as the blocks are
  rw [hblocks, rangesOf_append] at hranges
  obtain ⟨before, others, hsplit, hbefore, hothers⟩ := map_eq_append_iff.mp hranges.symm
  obtain ⟨range, after, rfl, hrange, hafter⟩ := map_eq_cons_iff.mp hothers
  have hahead : ∀ rs : List SelectionRange, (rs.map SelectionRange.ahead).map (wrapRange marker placeholder doc) =
      rs.map (wrapRange marker placeholder doc) := by
    intro rs
    rw [map_map]
    exact map_congr_left fun range _ => wrapRange_ahead range
  have hfront : doc = flat marker earlier [] ++ flat marker (block :: later) tail := by
    rw [hdoc, hblocks, flat_append, flat_tail]
  have hread : isWrapped marker doc range = isWrapped marker doc (rangeAt marker (flat marker earlier []).length block) := by
    have hend : endOf marker 0 earlier = (flat marker earlier []).length := Nat.zero_add _
    rw [hend] at hrange
    rw [← hrange, isWrapped_ahead]
  have hstatus : isWrapped marker doc range = block.wrapped := by
    rw [hread, hfront]
    refine isWrapped_block fun hfalse => ?_
    have hsplit := reads_iff.mp hreads earlier block later hblocks hfalse
    rw [nil_append, flat_tail] at hsplit
    exact hsplit
  refine ⟨before, range, after, hsplit, ?_, hstatus, fun hwrapped => ?_⟩
  · rw [← @rangesOf_length marker earlier 0, ← hbefore, length_map]
  have hend : endOf marker 0 earlier = (flat marker earlier []).length := Nat.zero_add _
  have hreach : reach marker block = marker.length := by simp [reach, hwrapped]
  have hfrom : range.from_ = (flat marker earlier []).length + block.gap.length + marker.length := by
    have heq := congrArg SelectionRange.anchor hrange
    rw [hend, rangeAt, hreach] at heq
    exact heq
  have hto : range.to_ = (flat marker earlier []).length + block.gap.length + marker.length + block.text.length := by
    have heq := congrArg SelectionRange.head hrange
    rw [hend, rangeAt, hreach] at heq
    exact heq
  constructor
  · have htake : doc.take (range.from_ - marker.length) = flat marker earlier block.gap := by
      have hgap : (flat marker earlier [] ++ block.gap).length = range.from_ - marker.length := by
        rw [length_append]
        omega
      have hwhole : doc = (flat marker earlier [] ++ block.gap) ++ (body marker block ++ flat marker later tail) := by
        rw [hfront]
        simp [flat]
      rw [← hgap]
      conv_lhs => rw [hwhole]
      rw [take_left, ← flat_tail]
    unfold changesFor
    rw [htake, ← hahead, hbefore, hearlier]
    exact @together_blocks marker [] block.gap earlier
  · have hplace : range.to_ + marker.length = (flat marker earlier [] ++ (block.gap ++ body marker block)).length := by
      rw [length_append, length_append, body_length, hreach]
      omega
    have hnext : next marker (endOf marker 0 earlier) block =
        (flat marker earlier [] ++ (block.gap ++ body marker block)).length := by
      rw [hend, next_length]
    unfold changesFor
    rw [← hahead, hafter, hlater, hplace, hnext, hfront, flat_cons]
    exact together_blocks

theorem staysStripped_iff (hdoc : doc = flat marker blocks tail)
    (hranges : rangesOf marker 0 blocks = ranges.map SelectionRange.ahead) (hfilled : Filled blocks)
    (hreads : Reads marker [] blocks tail) :
    StaysStripped marker placeholder doc ranges ↔ Reads marker [] (blocks.map flip) tail := by
  rw [reads_iff]
  constructor
  · intro h earlier block later hblocks hfalse
    obtain ⟨first, others, rfl, rfl, hothers⟩ := map_eq_append_iff.mp hblocks
    obtain ⟨old, last, rfl, rfl, rfl⟩ := map_eq_cons_iff.mp hothers
    have hold : old.wrapped = true := by simpa [WrapBlock.flip] using hfalse
    obtain ⟨before, range, after, hsplit, -, hstatus, haround⟩ :=
      @around_block marker placeholder doc tail ranges _ hdoc hranges hfilled hreads first last old rfl
    obtain ⟨hbefore, hafter⟩ := haround hold
    have hnot := h before range after hsplit (hstatus.trans hold)
    rw [hbefore, hafter] at hnot
    exact hnot
  · intro h before range after hsplit hwrapped
    rw [hsplit, map_append, map_cons] at hranges
    obtain ⟨earlier, block, later, hblocks, hbefore⟩ := rangesOf_split hranges
    rw [← map_cons, ← map_append, ← hsplit] at hranges
    obtain ⟨before', range', after', hsplit', hlength, hstatus, haround⟩ :=
      @around_block marker placeholder doc tail ranges blocks hdoc hranges hfilled hreads earlier later block hblocks
    have hsame : before.length = before'.length := by
      have hcount := congrArg List.length hbefore
      rw [length_map] at hcount
      rw [hcount, hlength, rangesOf_length]
    obtain ⟨rfl, hrest⟩ := append_inj (hsplit.symm.trans hsplit') hsame
    cases hrest
    rw [hstatus] at hwrapped
    obtain ⟨hfront, hback⟩ := haround hwrapped
    rw [hfront, hback]
    refine h (earlier.map flip) block.flip (later.map flip) ?_ ?_
    · rw [hblocks, map_append, map_cons]
    · simp [WrapBlock.flip, hwrapped]

end

/-! ## A second toggle -/

namespace WrapBlock

section
variable {marker placeholder doc front tail : JsString} {block : WrapBlock} {blocks : List WrapBlock} {pos : Nat}

def goneAt (marker doc : JsString) (pos : Nat) (block : WrapBlock) : List (Splice UInt16) :=
  let start := pos + block.gap.length
  let width := marker.length
  if block.wrapped then
    [⟨start, start + width, []⟩, ⟨start + width + block.text.length, start + width + block.text.length + width, []⟩]
  else if isWrapped marker doc (rangeAt marker pos block) then []
  else [⟨start, start + block.text.length, []⟩]

def gone (marker doc : JsString) : Nat → List WrapBlock → List (Splice UInt16)
  | _, [] => []
  | pos, block :: rest => goneAt marker doc pos block ++ gone marker doc (next marker pos block) rest

theorem gone_inOrder (hmarker : marker ≠ []) (hfilled : Filled blocks) : Splice.InOrder pos (gone marker doc pos blocks) := by
  have hwidth := length_pos_iff.mpr hmarker
  induction blocks generalizing pos with
  | nil => trivial
  | cons block blocks ih =>
    have hnext := @ih (next marker pos block) fun other hm => hfilled other (mem_cons_of_mem _ hm)
    have htext := length_pos_iff.mpr (hfilled block mem_cons_self)
    rw [next_reach] at hnext
    rw [gone, next_reach]
    unfold goneAt
    cases hwrapped : block.wrapped with
    | true =>
      simp only [reach, hwrapped, if_true, cons_append, nil_append, Splice.InOrder] at hnext ⊢
      refine ⟨by omega, by omega, by omega, by omega, hnext.weaken (by omega)⟩
    | false =>
      simp only [reach, hwrapped, Bool.false_eq_true, if_false] at hnext ⊢
      by_cases hread : isWrapped marker doc (rangeAt marker pos block) = true
      · rw [if_pos hread, nil_append]
        exact hnext.weaken (by omega)
      · rw [if_neg hread]
        simp only [cons_append, nil_append, Splice.InOrder]
        exact ⟨by omega, by omega, hnext.weaken (by omega)⟩

theorem gone_all : ∀ splice ∈ gone marker doc pos blocks,
    splice.insert = [] ∧ splice.stop ≤ pos + (flat marker blocks tail).length := by
  induction blocks generalizing pos with
  | nil => exact fun _ hm => (by cases hm)
  | cons block blocks ih =>
    have hflat := @flat_length marker tail block blocks pos
    intro splice hm
    rcases mem_append.mp hm with hm | hm
    · have hend := @next_reach marker block pos
      unfold goneAt at hm
      dsimp only at hm
      cases hwrapped : block.wrapped with
      | true =>
        simp only [reach, hwrapped, if_true] at hend
        rw [hwrapped, if_pos rfl] at hm
        rcases mem_cons.mp hm with rfl | hm
        · exact ⟨rfl, by dsimp only; omega⟩
        · rw [mem_singleton.mp hm]
          exact ⟨rfl, by dsimp only; omega⟩
      | false =>
        simp only [reach, hwrapped, Bool.false_eq_true, if_false] at hend
        rw [hwrapped, if_neg Bool.false_ne_true] at hm
        by_cases hread : isWrapped marker doc (rangeAt marker pos block) = true
        · rw [if_pos hread] at hm
          cases hm
        · rw [if_neg hread] at hm
          rw [mem_singleton.mp hm]
          exact ⟨rfl, by dsimp only; omega⟩
    · have hrest := ih splice hm
      exact ⟨hrest.1, by omega⟩

theorem isWrapped_bare (hwrapped : block.wrapped = false) :
    isWrapped marker (front ++ flat marker (block :: blocks) tail) (rangeAt marker front.length block) = true ↔
      marker <:+ front ++ block.gap ∧ marker <+: flat marker blocks tail := by
  have hflat : front ++ flat marker (block :: blocks) tail = (front ++ block.gap) ++ (block.text ++ flat marker blocks tail) := by
    simp [flat, body, hwrapped]
  have hreach : reach marker block = 0 := by simp [reach, hwrapped]
  rw [hflat]
  refine isWrapped_between ?_ ?_
  · rw [rangeAt_from, hreach, length_append, Nat.add_zero]
  · rw [rangeAt_to, hreach, length_append, Nat.add_zero]

theorem changes_block (htext : block.text ≠ []) (hdoc : doc = front ++ flat marker (block :: blocks) tail) :
    (wrapRange marker placeholder doc (rangeAt marker front.length block)).changes =
      if block.wrapped = false ∧ isWrapped marker doc (rangeAt marker front.length block) = true then
        [⟨front.length + block.gap.length - marker.length, front.length + block.gap.length, []⟩,
          ⟨front.length + block.gap.length + block.text.length,
            front.length + block.gap.length + block.text.length + marker.length, []⟩]
      else (changeAt marker front.length block).changes := by
  by_cases hagain : block.wrapped = false ∧ isWrapped marker doc (rangeAt marker front.length block) = true
  · have hreach : reach marker block = 0 := by simp [reach, hagain.1]
    rw [if_pos hagain]
    unfold wrapRange
    dsimp only
    rw [if_pos hagain.2, rangeAt_from, rangeAt_to, hreach, Nat.add_zero]
  · rw [if_neg hagain, hdoc, wrapRange_block htext fun hfalse hboth => hagain ⟨hfalse, ?_⟩]
    rw [hdoc]
    exact (isWrapped_bare hfalse).mpr hboth

theorem gone_covered (hfilled : Filled blocks) (hdoc : doc = front ++ flat marker blocks tail) (p : Nat)
    (h : (gone marker doc front.length blocks).any (Splice.removes p) = true) :
    (((rangesOf marker front.length blocks).map (wrapRange marker placeholder doc)).flatMap (·.changes)).any
      (Splice.removes p) = true := by
  induction blocks generalizing front with
  | nil => cases h
  | cons block blocks ih =>
    have hchanges := @changes_block marker placeholder doc front tail block blocks (hfilled block mem_cons_self) hdoc
    rw [gone, any_append, Bool.or_eq_true] at h
    show ((wrapRange marker placeholder doc (rangeAt marker front.length block)).changes ++ _).any _ = true
    rw [any_append, Bool.or_eq_true]
    rcases h with h | h
    · refine Or.inl ?_
      rw [hchanges]
      unfold goneAt at h
      dsimp only at h
      cases hwrapped : block.wrapped with
      | true =>
        rw [hwrapped, if_pos rfl] at h
        rw [if_neg (fun hboth => Bool.false_ne_true hboth.1.symm), changeAt]
        simpa [hwrapped, Splice.removes] using h
      | false =>
        rw [hwrapped, if_neg Bool.false_ne_true] at h
        by_cases hread : isWrapped marker doc (rangeAt marker front.length block) = true
        · rw [if_pos hread] at h
          cases h
        · rw [if_neg hread] at h
          rw [if_neg (fun hboth => hread hboth.2), changeAt]
          simpa [hwrapped, Splice.removes] using h
    · refine Or.inr (next_length ▸ ih (fun other hm => hfilled other (mem_cons_of_mem _ hm)) ?_ ?_)
      · rw [hdoc, flat_cons]
      · rw [← next_length]
        exact h

theorem length_toggled (hmarker : marker ≠ []) (hfilled : Filled blocks) (hdoc : doc = front ++ flat marker blocks tail) :
    ((((rangesOf marker front.length blocks).map (wrapRange marker placeholder doc)).flatMap (·.changes)).flatMap
        (·.insert)).length + (flat marker blocks tail).length ≤
      (flat marker (blocks.map flip) tail).length + Splice.places (gone marker doc front.length blocks) ∧
    ((flat marker (blocks.map flip) tail).length + Splice.places (gone marker doc front.length blocks) ≤
      ((((rangesOf marker front.length blocks).map (wrapRange marker placeholder doc)).flatMap (·.changes)).flatMap
        (·.insert)).length + (flat marker blocks tail).length → Reads marker front blocks tail) := by
  have hwidth := length_pos_iff.mpr hmarker
  induction blocks generalizing front with
  | nil => exact ⟨by simp [flat, rangesOf], fun _ => trivial⟩
  | cons block blocks ih =>
    have hchanges := @changes_block marker placeholder doc front tail block blocks (hfilled block mem_cons_self) hdoc
    have hnext := @ih (front ++ (block.gap ++ body marker block)) (fun other hm => hfilled other (mem_cons_of_mem _ hm))
      (by rw [hdoc, flat_cons])
    rw [← next_length] at hnext
    have hranges : ((rangesOf marker front.length (block :: blocks)).map (wrapRange marker placeholder doc)).flatMap
        (·.changes) = (wrapRange marker placeholder doc (rangeAt marker front.length block)).changes ++
          ((rangesOf marker (next marker front.length block) blocks).map (wrapRange marker placeholder doc)).flatMap
            (·.changes) := rfl
    have hplaces : Splice.places (gone marker doc front.length (block :: blocks)) =
        Splice.places (goneAt marker doc front.length block) +
          Splice.places (gone marker doc (next marker front.length block) blocks) := by
      unfold Splice.places
      rw [gone, map_append, sum_append]
    have hflat : (flat marker (block :: blocks) tail).length =
        block.gap.length + (body marker block).length + (flat marker blocks tail).length := by
      simp only [flat, length_append, Nat.add_assoc]
    have hflip : (flat marker ((block :: blocks).map flip) tail).length =
        block.gap.length + (body marker block.flip).length + (flat marker (blocks.map flip) tail).length := by
      simp only [map_cons, flat, flip_gap, length_append, Nat.add_assoc]
    rw [hranges, hplaces, hflat, hflip, hchanges, flatMap_append, length_append, body_length, body_length]
    generalize ((((rangesOf marker (next marker front.length block) blocks).map
      (wrapRange marker placeholder doc)).flatMap (·.changes)).flatMap (·.insert)).length = inserted at hnext ⊢
    obtain ⟨hle, hreads⟩ := hnext
    unfold goneAt
    dsimp only
    cases hwrapped : block.wrapped with
    | true =>
      rw [if_neg (fun hboth => Bool.false_ne_true hboth.1.symm), if_pos rfl]
      simp only [changeAt, reach, flip, hwrapped, if_true, Bool.not_true, Bool.false_eq_true, if_false, flatMap_cons,
        flatMap_nil, append_nil, length_nil, Splice.places, map_cons, map_nil, sum_cons,
        sum_nil] at hle hreads ⊢
      refine ⟨by omega, fun hback => ⟨fun hfalse => ?_, hreads (by omega)⟩⟩
      rw [hwrapped] at hfalse
      cases hfalse
    | false =>
      rw [if_neg Bool.false_ne_true]
      by_cases hread : isWrapped marker doc (rangeAt marker front.length block) = true
      · rw [if_pos ⟨rfl, hread⟩, if_pos hread]
        simp only [reach, flip, hwrapped, if_true, Bool.not_false, Bool.false_eq_true, if_false, flatMap_cons,
          flatMap_nil, append_nil, length_nil, Splice.places, map_nil, sum_nil] at hle ⊢
        exact ⟨by omega, fun hback => by omega⟩
      · rw [if_neg (fun hboth => hread hboth.2), if_neg hread]
        simp only [changeAt, reach, flip, hwrapped, if_true, Bool.not_false, Bool.false_eq_true, if_false, flatMap_cons,
          flatMap_nil, append_nil, length_append, Splice.places, map_cons, map_nil,
          sum_cons, sum_nil] at hle hreads ⊢
        refine ⟨by omega, fun hback => ⟨fun _ hboth => hread ?_, hreads (by omega)⟩⟩
        rw [hdoc]
        exact (isWrapped_bare hwrapped).mpr hboth

end

end WrapBlock

section
variable {changeByRange : ChangeByRange} {marker placeholder tail : JsString} {state : EditorState}

theorem reads_of_restored (hlaw : LawfulByRange changeByRange) (hmarker : marker ≠ []) {blocks : List WrapBlock}
    (hdoc : state.doc = flat marker blocks tail) (hranges : state.ranges = rangesOf marker 0 blocks)
    (hfilled : Filled blocks)
    (h : (toggleWrap changeByRange marker placeholder state).doc = flat marker (blocks.map WrapBlock.flip) tail) :
    Reads marker [] blocks tail := by
  have hfront : state.doc = [] ++ flat marker blocks tail := hdoc
  have hlength := @length_toggled marker placeholder state.doc [] tail blocks hmarker hfilled hfront
  have hall := @gone_all marker state.doc tail blocks 0
  have hmerged := @Splice.length_merged_le _ state.doc
    ((state.ranges.map (wrapRange marker placeholder state.doc)).flatMap (·.changes)) (gone marker state.doc 0 blocks)
    (gone_inOrder hmarker hfilled) (fun splice hm => (hall splice hm).1)
    (fun splice hm => by rw [hdoc, ← Nat.zero_add (flat marker blocks tail).length]; exact (hall splice hm).2)
    (fun p hp => by rw [hranges]; exact gone_covered hfilled hfront p hp)
  unfold toggleWrap at h
  rw [hlaw.doc] at h
  rw [h, hranges, hdoc] at hmerged
  rw [hdoc] at hlength
  exact hlength.2 (by rw [length_nil]; omega)

/-- Toggling twice restores the document and the ranges exactly if no text that loses its markers stands between
markers again. The ranges come back pointing ahead. -/
theorem toggleWrap_twice (hlaw : LawfulByRange changeByRange) (hmarker : marker ≠ [])
    (hapart : MarkersApart marker state.doc 0 state.ranges) :
    (StaysStripped marker placeholder state.doc state.ranges →
      toggleWrap changeByRange marker placeholder (toggleWrap changeByRange marker placeholder state) =
        ⟨state.doc, state.ranges.map SelectionRange.ahead, state.mainIndex⟩) ∧
    ((toggleWrap changeByRange marker placeholder (toggleWrap changeByRange marker placeholder state)).doc = state.doc →
      StaysStripped marker placeholder state.doc state.ranges) := by
  obtain ⟨blocks, tail, hdoc, hranges, hfilled, hreads⟩ := cut_blocks hapart
  rw [take_zero, nil_append] at hdoc
  rw [take_zero] at hreads
  have hstays := @staysStripped_iff marker placeholder state.doc tail state.ranges blocks hdoc hranges hfilled hreads
  rw [toggle_blocks hlaw hmarker hdoc hranges.symm hfilled hreads, hstays]
  constructor
  · intro hagain
    have hahead : (rangesOf marker 0 (blocks.map WrapBlock.flip)).map SelectionRange.ahead =
        rangesOf marker 0 (blocks.map WrapBlock.flip) := ahead_ranges
    rw [toggle_blocks hlaw hmarker rfl hahead hfilled.flipped hagain, WrapBlock.flip_flip, ← hdoc, hranges]
  · intro hrestored
    refine @reads_of_restored changeByRange marker placeholder tail
      ⟨flat marker (blocks.map WrapBlock.flip) tail, rangesOf marker 0 (blocks.map WrapBlock.flip), state.mainIndex⟩
      hlaw hmarker _ rfl rfl hfilled.flipped ?_
    rw [WrapBlock.flip_flip, ← hdoc]
    exact hrestored

end

/-- What toggling twice leaves, for the document, the ranges and the directions they are selected in. -/
theorem toggleWrap_restores_iff {changeByRange : ChangeByRange} (hlaw : LawfulByRange changeByRange) {marker : JsString}
    (hmarker : marker ≠ []) (placeholder : JsString) (state : EditorState)
    (hapart : MarkersApart marker state.doc 0 state.ranges) :
    let twice := toggleWrap changeByRange marker placeholder (toggleWrap changeByRange marker placeholder state)
    (twice.doc = state.doc ∧ twice.ranges.map SelectionRange.ahead = state.ranges.map SelectionRange.ahead ∧
        twice.mainIndex = state.mainIndex ↔ StaysStripped marker placeholder state.doc state.ranges) ∧
      (twice = state ↔ StaysStripped marker placeholder state.doc state.ranges ∧
        ∀ range ∈ state.ranges, range.ahead = range) := by
  obtain ⟨hstays, hrestored⟩ := @toggleWrap_twice changeByRange marker placeholder state hlaw hmarker hapart
  have htwice : ∀ range : SelectionRange, range.ahead.ahead = range.ahead := by
    intro range
    show SelectionRange.mk range.ahead.from_ range.ahead.to_ = ⟨range.from_, range.to_⟩
    rw [WrapBlock.ahead_from, WrapBlock.ahead_to]
  refine ⟨⟨fun h => hrestored h.1, fun h => ?_⟩, fun h => ?_, fun ⟨h, hahead⟩ => ?_⟩
  · rw [hstays h]
    refine ⟨rfl, ?_, rfl⟩
    rw [map_map]
    exact map_congr_left fun range _ => htwice range
  · have hstripped := hrestored (congrArg EditorState.doc h)
    have hranges : state.ranges.map SelectionRange.ahead = state.ranges :=
      congrArg EditorState.ranges ((hstays hstripped).symm.trans h)
    exact ⟨hstripped, map_inj_left.mp (hranges.trans (map_id _).symm)⟩
  · have hranges : state.ranges.map SelectionRange.ahead = state.ranges :=
      (map_congr_left hahead).trans (map_id _)
    rw [hstays h, hranges]

def mergedByRange : ChangeByRange := fun state f =>
  ⟨Splice.merged state.doc ((state.ranges.map f).flatMap (·.changes)), RangeChange.mapped 0 (state.ranges.map f),
    state.mainIndex⟩

theorem mergedByRange_lawful : LawfulByRange mergedByRange := ⟨fun _ _ => rfl, fun _ _ _ => rfl, fun _ _ => rfl⟩

theorem toggleBold_letter : toggleBold mergedByRange (toggleBold mergedByRange ⟨[98], [⟨0, 1⟩], 0⟩) = ⟨[98], [⟨0, 1⟩], 0⟩ ↔
    StaysStripped (.ofString "**") (.ofString "bold text") [98] [⟨0, 1⟩] ∧
      ∀ range ∈ [(⟨0, 1⟩ : SelectionRange)], range.ahead = range :=
  (@toggleWrap_restores_iff mergedByRange mergedByRange_lawful (.ofString "**") (by decide) (.ofString "bold text")
    ⟨[98], [⟨0, 1⟩], 0⟩ ⟨by decide, by decide, Nat.le_refl 1⟩).2

def Selected (length : Nat) : Nat → List SelectionRange → Prop
  | pos, [] => pos ≤ length
  | pos, range :: rest => pos ≤ range.from_ ∧ range.from_ < range.to_ ∧ Selected length range.to_ rest

/-- Toggling italic twice makes a bold letter plain. -/
theorem italic_strips_bold : ¬ ∀ changeByRange, LawfulByRange changeByRange → ∀ state : EditorState,
    Selected state.doc.length 0 state.ranges → toggleItalic changeByRange (toggleItalic changeByRange state) = state := by
  intro h
  have hsame := h mergedByRange mergedByRange_lawful ⟨[42, 42, 120, 42, 42], [⟨2, 3⟩], 0⟩
    ⟨by decide, by decide, (by decide : 3 ≤ 5)⟩
  exact absurd hsame (by decide +kernel)

end Marks
