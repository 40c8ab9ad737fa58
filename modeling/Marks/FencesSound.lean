import Marks.Fences
import Marks.ReportSound
import Marks.SourceBlocksSound

/-! # Where the fence scanners agree

The analyser and the source blocks run one machine over the lines of a text, and the context signals run it over the
pieces of the lines. On a text where it reads every marker as CommonMark does they all find the same fenced code. -/

namespace Marks

open JsString Mealy List

/-- All four read the same lines of a text as fenced code. The context signals know offsets only: those of a line are
inside of a fence when the line is. -/
structure FencesAgree (text : JsString) : Prop where
  analyser : codeLines text = fencedCode text
  blocks : ∀ i < (lines text).length, (fencedCode text)[i]? = some (inFenceBlock text i)
  signals : ∀ before source after, lines text = before ++ source :: after → ∀ k < (withoutReturn source).length,
    (fencedCode text)[before.length]? = some (signalsFenced text ((leading before).length + k))

/-! ## Markers -/

section
variable {value : JsString} {opened marker : Fence}

theorem fenceMarker_shape (h : fenceMarker value = some marker) : (marker.1 = 96 ∨ marker.1 = 126) ∧ 3 ≤ marker.2 := by
  unfold fenceMarker at h
  dsimp only at h
  cases hdrop : value.drop (run (· == space) value) with
  | nil =>
    rw [hdrop] at h
    cases h
  | cons c rest =>
    rw [hdrop] at h
    dsimp only at h
    by_cases hcond : run (· == space) value ≤ 3 ∧ (c = 96 ∨ c = 126) ∧ 3 ≤ run (· == c) (c :: rest)
    · rw [if_pos hcond] at h
      cases h
      exact hcond.2
    · rw [if_neg hcond] at h
      cases h

theorem isFence_eq (line : JsString) : isFence line = fenceMarker line := by
  unfold isFence fenceMarker indented
  dsimp only
  by_cases hindent : run (· == space) line ≤ 3
  · rw [if_pos hindent]
    cases line.drop (run (· == space) line) with
    | nil => rfl
    | cons c rest =>
      dsimp only
      by_cases hcond : (c = 96 ∨ c = 126) ∧ 3 ≤ run (· == c) (c :: rest)
      · rw [if_pos hcond, if_pos ⟨hindent, hcond⟩]
      · rw [if_neg hcond, if_neg (fun h => hcond h.2)]
  · rw [if_neg hindent]
    cases line.drop (run (· == space) line) with
    | nil => rfl
    | cons c rest =>
      dsimp only
      rw [if_neg (fun h => hindent h.1)]

theorem closesFence_iff (hchar : opened.1 = 96 ∨ opened.1 = 126) (hlength : 3 ≤ opened.2) (line : JsString) :
    closesFence opened line = true ↔ ∃ marker, fenceMarker line = some marker ∧ opened.1 = marker.1 ∧ opened.2 ≤ marker.2 := by
  unfold closesFence fenceMarker indented
  dsimp only
  by_cases hindent : run (· == space) line ≤ 3
  · rw [if_pos hindent]
    dsimp only
    rw [decide_eq_true_eq]
    cases hdrop : line.drop (run (· == space) line) with
    | nil =>
      constructor
      · intro h
        have hzero : run (· == opened.1) [] = 0 := rfl
        omega
      · rintro ⟨marker, hmarker, -⟩
        cases hmarker
    | cons c rest =>
      dsimp only
      constructor
      · intro h
        have hc : c = opened.1 := by
          by_cases hc : c = opened.1
          · exact hc
          · have hzero : run (· == opened.1) (c :: rest) = 0 := run_zero (beq_eq_false_iff_ne.mpr hc)
            omega
        subst hc
        exact ⟨_, if_pos ⟨hindent, hchar, Nat.le_trans hlength h⟩, rfl, h⟩
      · rintro ⟨marker, hmarker, hsame, hle⟩
        by_cases hcond : run (· == space) line ≤ 3 ∧ (c = 96 ∨ c = 126) ∧ 3 ≤ run (· == c) (c :: rest)
        · rw [if_pos hcond] at hmarker
          cases hmarker
          rw [hsame]
          exact hle
        · rw [if_neg hcond] at hmarker
          cases hmarker
  · rw [if_neg hindent]
    dsimp only
    constructor
    · intro h
      cases h
    rintro ⟨marker, hmarker, -⟩
    cases hdrop : line.drop (run (· == space) line) with
    | nil =>
      rw [hdrop] at hmarker
      cases hmarker
    | cons c rest =>
      rw [hdrop] at hmarker
      dsimp only at hmarker
      rw [if_neg (fun h => hindent h.1)] at hmarker
      cases hmarker

end

/-! ## One machine -/

def fenceScan : Machine (Option Fence) JsString Bool where
  step := fun fence value => stepFence fence (fenceMarker value)
  out := fun fence value => fence.isSome || (fenceMarker value).isSome

/-- A line is settled when its marker, if it has one, does for the scanners what it does in CommonMark: outside of
fenced code it opens a fence, and inside, where it goes with the fence, it closes it. -/
def settled : Option Fence → JsString → Bool
  | none, value => (fenceMarker value).isNone || (opensCode value).isSome
  | some opened, value =>
    (fenceMarker value).all (fun marker => !(opened.1 == marker.1 && decide (opened.2 ≤ marker.2))) || closesCode opened value

def unmistakenFrom (fence : Option Fence) : List JsString → Bool
  | [] => true
  | value :: rest => settled fence value && unmistakenFrom (commonMark.step fence value) rest

def Unmistaken (text : JsString) : Prop := unmistakenFrom none (bareLines text) = true

variable {all before after : List JsString} {text : JsString}

section
variable {fence : Option Fence} {value : JsString} {opened marker : Fence}

theorem opensCode_some (h : opensCode value = some marker) : fenceMarker value = some marker :=
  (Option.filter_eq_some_iff.mp h).1

theorem settled_same (h : settled fence value = true) : SameAt fenceScan commonMark fence value := by
  cases fence with
  | none =>
    have hopens : fenceMarker value = opensCode value := by
      cases hmarker : fenceMarker value with
      | none => rw [opensCode, hmarker]; rfl
      | some marker =>
        have h : ((fenceMarker value).isNone || (opensCode value).isSome) = true := h
        rw [hmarker, Option.isNone_some, Bool.false_or] at h
        obtain ⟨found, hfound⟩ := Option.isSome_iff_exists.mp h
        have hsame := opensCode_some hfound
        rw [hmarker] at hsame
        rw [hfound, hsame]
    constructor
    · show (false || (fenceMarker value).isSome) = (false || (opensCode value).isSome)
      rw [hopens]
    · show stepFence none (fenceMarker value) = opensCode value
      rw [hopens]
      cases opensCode value <;> rfl
  | some opened =>
    refine ⟨rfl, ?_⟩
    show stepFence (some opened) (fenceMarker value) = if closesCode opened value then none else some opened
    have h : ((fenceMarker value).all (fun marker => !(opened.1 == marker.1 && decide (opened.2 ≤ marker.2))) ||
        closesCode opened value) = true := h
    have hcloses : closesCode opened value = (fenceMarker value).any fun marker =>
        opened.1 == marker.1 && decide (opened.2 ≤ marker.2) && (fenceRest value marker).all isGap := rfl
    cases hmarker : fenceMarker value with
    | none =>
      rw [hmarker] at hcloses
      rw [hcloses]
      rfl
    | some marker =>
      rw [hmarker, Option.all_some] at h
      have hstep : stepFence (some opened) (some marker) =
          if opened.1 = marker.1 ∧ opened.2 ≤ marker.2 then none else some opened := rfl
      rw [hstep]
      by_cases hgoes : opened.1 = marker.1 ∧ opened.2 ≤ marker.2
      · have htrue : (opened.1 == marker.1 && decide (opened.2 ≤ marker.2)) = true := by simp [hgoes.1, hgoes.2]
        rw [htrue] at h
        have hclosed : closesCode opened value = true := h
        rw [if_pos hgoes, if_pos hclosed]
      · have hopen : closesCode opened value = false := by
          rw [hcloses, hmarker, Option.any_some]
          have hfalse : (opened.1 == marker.1 && decide (opened.2 ≤ marker.2)) = false := by
            rw [Bool.and_eq_false_iff, beq_eq_false_iff_ne, decide_eq_false_iff_not]
            by_cases hsame : opened.1 = marker.1
            · exact Or.inr fun hle => hgoes ⟨hsame, hle⟩
            · exact Or.inl hsame
          rw [hfalse, Bool.false_and]
        rw [if_neg hgoes, hopen]
        rfl

theorem unmistaken_at (hsplit : all = before ++ value :: after)
    (h : unmistakenFrom fence all = true) : settled (commonMark.behind fence before) value = true := by
  induction before generalizing all fence with
  | nil =>
    rw [hsplit] at h
    exact ((Bool.and_eq_true _ _).mp h).1
  | cons first before ih =>
    rw [hsplit] at h
    exact ih rfl ((Bool.and_eq_true _ _).mp h).2

theorem Unmistaken.outputs (h : Unmistaken text) :
    fenceScan.outputs none (bareLines text) = fencedCode text :=
  (outputs_congr fun _ _ _ hsplit => settled_same (unmistaken_at hsplit h)).1

end

/-! ## The analyser -/

theorem scanFrom_code (all : List JsString) (from_ number : Nat) (fence : Option Fence) :
    (scanFrom 0 all from_ number fence).map (·.code) = fenceScan.outputs fence (all.map withoutReturn) := by
  induction all generalizing from_ number fence with
  | nil => rfl
  | cons source rest ih =>
    have hmarker : markerAt 0 from_ source = fenceMarker (withoutReturn source) := if_pos (Nat.zero_le _)
    rw [scanFrom_cons, map_cons, map_cons, ih, outputs_cons, hmarker]
    rfl

theorem codeLines_eq (h : (envelope text).exists_ = false) :
    codeLines text = fenceScan.outputs none (bareLines text) := by
  rw [codeLines, bodyFrom_none h, scanLines, scanFrom_code]
  rfl

/-! ## Source blocks -/

theorem bare_outputs (all : List JsString) (fence : Option Fence) :
    fenceScan.outputs fence (all.map withoutReturn) = fenceScan.outputs fence all := by
  induction all generalizing fence with
  | nil => rfl
  | cons source rest ih =>
    have hout : fenceScan.out fence (withoutReturn source) = fenceScan.out fence source := by
      show (fence.isSome || (fenceMarker (withoutReturn source)).isSome) = (fence.isSome || (fenceMarker source).isSome)
      rw [fenceMarker_bare]
    have hstep : fenceScan.step fence (withoutReturn source) = fenceScan.step fence source := by
      show stepFence fence (fenceMarker (withoutReturn source)) = stepFence fence (fenceMarker source)
      rw [fenceMarker_bare]
    rw [map_cons, outputs_cons, outputs_cons, hout, hstep, ih]

theorem fenceMarker_blank {line : JsString} (h : isBlank line = true) : fenceMarker line = none := by
  unfold fenceMarker
  dsimp only
  cases hdrop : line.drop (run (· == space) line) with
  | nil => rfl
  | cons c rest =>
    have hspace := all_eq_true.mp h c (mem_of_mem_drop (by rw [hdrop]; exact mem_cons_self))
    dsimp only
    rw [if_neg]
    rintro ⟨-, rfl | rfl, -⟩
    · cases hspace
    · cases hspace

section
variable {line : JsString} {rest : List JsString} {opened : Fence}

theorem scan_marked {marker : Fence} (h : fenceMarker line = some marker) :
    fenceScan.outputs none (line :: rest) = true :: fenceScan.outputs (some marker) rest := by
  have hout : fenceScan.out none line = true := by
    show (false || (fenceMarker line).isSome) = true
    rw [h]
    rfl
  have hstep : fenceScan.step none line = some marker := by
    show stepFence none (fenceMarker line) = some marker
    rw [h]
    rfl
  rw [outputs_cons, hout, hstep]

theorem fenceLines_outputs (hchar : opened.1 = 96 ∨ opened.1 = 126) (hlength : 3 ≤ opened.2) (rest : List JsString) :
    fenceScan.outputs (some opened) rest =
      List.replicate (fenceLines opened rest) true ++ fenceScan.outputs none (rest.drop (fenceLines opened rest)) := by
  induction rest with
  | nil => rfl
  | cons line rest ih =>
    have hstep : fenceScan.step (some opened) line = if closesFence opened line then none else some opened := by
      have hiff := closesFence_iff hchar hlength line
      show stepFence (some opened) (fenceMarker line) = _
      cases hcloses : closesFence opened line with
      | true =>
        obtain ⟨marker, hmarker, hsame, hle⟩ := hiff.mp hcloses
        rw [hmarker]
        exact if_pos ⟨hsame, hle⟩
      | false =>
        cases hmarker : fenceMarker line with
        | none => rfl
        | some marker =>
          refine if_neg fun hgoes => ?_
          rw [hiff.mpr ⟨marker, hmarker, hgoes⟩] at hcloses
          cases hcloses
    have hunfold : fenceLines opened (line :: rest) = if closesFence opened line then 1 else fenceLines opened rest + 1 := rfl
    rw [outputs_cons, hstep, hunfold]
    cases closesFence opened line with
    | true => rfl
    | false =>
      have hwrites : fenceScan.out (some opened) line = true := rfl
      rw [if_neg Bool.false_ne_true, if_neg Bool.false_ne_true, ih, hwrites, replicate_succ]
      rfl

theorem listLines_plain (rest : List JsString) : ∀ next ∈ rest.take (listLines rest), fenceMarker next = none := by
  induction rest with
  | nil => intro next hnext; cases hnext
  | cons first rest ih =>
    have hunfold : listLines (first :: rest) =
        if isBlank first then
          if isListStart (rest.headD []) ∨ rest.headD [] = [] ∨ (rest.headD []).head? = some space then listLines rest + 1
          else 0
        else if (isFence first).isSome ∨ isHeadingStart first then 0
        else listLines rest + 1 := rfl
    have hmore : ∀ n, (n = 0 ∨ n = listLines rest + 1) → fenceMarker first = none →
        ∀ next ∈ (first :: rest).take n, fenceMarker next = none := by
      rintro n (rfl | rfl) hfirst next hnext
      · cases hnext
      rw [take_succ_cons, mem_cons] at hnext
      rcases hnext with rfl | hnext
      · exact hfirst
      · exact ih next hnext
    rw [hunfold]
    by_cases hblank : isBlank first = true
    · rw [if_pos hblank]
      refine hmore _ ?_ (fenceMarker_blank hblank)
      by_cases hahead : isListStart (rest.headD []) ∨ rest.headD [] = [] ∨ (rest.headD []).head? = some space
      · rw [if_pos hahead]
        exact Or.inr rfl
      · rw [if_neg hahead]
        exact Or.inl rfl
    · rw [if_neg hblank]
      by_cases hstops : (isFence first).isSome ∨ isHeadingStart first
      · rw [if_pos hstops]
        intro next hnext
        cases hnext
      rw [if_neg hstops]
      refine hmore _ (Or.inr rfl) ?_
      rw [not_or, isFence_eq] at hstops
      exact Option.not_isSome_iff_eq_none.mp hstops.1

theorem paragraphLines_plain (rest : List JsString) :
    ∀ next ∈ rest.take (paragraphLines rest), fenceMarker next = none := by
  induction rest with
  | nil => intro next hnext; cases hnext
  | cons first rest ih =>
    have hunfold : paragraphLines (first :: rest) =
        if isBlank first ∨ (isFence first).isSome ∨ isListStart first ∨ isHeadingStart first then 0
        else paragraphLines rest + 1 := rfl
    rw [hunfold]
    by_cases hstops : isBlank first ∨ (isFence first).isSome ∨ isListStart first ∨ isHeadingStart first
    · rw [if_pos hstops]
      intro next hnext
      cases hnext
    rw [if_neg hstops, take_succ_cons]
    rw [not_or, not_or, isFence_eq] at hstops
    intro next hnext
    rcases mem_cons.mp hnext with rfl | hnext
    · exact Option.not_isSome_iff_eq_none.mp hstops.2.1
    · exact ih next hnext

theorem plain_outputs {plain : List JsString} (h : ∀ line ∈ plain, fenceMarker line = none) (rest : List JsString) :
    fenceScan.outputs none (plain ++ rest) = List.replicate plain.length false ++ fenceScan.outputs none rest := by
  have hstill := @outputs_still _ _ _ fenceScan none plain fun line hline => by
    show stepFence none (fenceMarker line) = none
    rw [h line hline]
    rfl
  have hfalse : plain.map (fenceScan.out none) = List.replicate plain.length false := by
    refine eq_replicate_iff.mpr ⟨length_map _, fun b hb => ?_⟩
    obtain ⟨line, hline, rfl⟩ := mem_map.mp hb
    show (false || (fenceMarker line).isSome) = false
    rw [h line hline]
    rfl
  rw [outputs_append, hstill.1, hstill.2, hfalse]

theorem block_outputs (line : JsString) (rest : List JsString) :
    fenceScan.outputs none (line :: rest) = List.replicate (blockLines line rest) (isFence line).isSome ++
      fenceScan.outputs none ((line :: rest).drop (blockLines line rest)) := by
  have hplain : ∀ n, n ≤ rest.length → (∀ next ∈ rest.take n, fenceMarker next = none) → fenceMarker line = none →
      fenceScan.outputs none (line :: rest) =
        List.replicate (n + 1) false ++ fenceScan.outputs none ((line :: rest).drop (n + 1)) := by
    intro n hn hrest hline
    have hall : ∀ next ∈ line :: rest.take n, fenceMarker next = none := forall_mem_cons.mpr ⟨hline, hrest⟩
    have houtputs := plain_outputs hall (rest.drop n)
    rw [cons_append, take_append_drop, length_cons, length_take, Nat.min_eq_left hn] at houtputs
    exact houtputs
  unfold blockLines
  rw [isFence_eq]
  cases hmarker : fenceMarker line with
  | some marker =>
    obtain ⟨hchar, hlength⟩ := fenceMarker_shape hmarker
    rw [scan_marked hmarker, fenceLines_outputs hchar hlength]
    rfl
  | none =>
    dsimp only
    by_cases hlist : isListStart line = true
    · rw [if_pos hlist]
      exact hplain _ (listLines_le rest) (listLines_plain rest) hmarker
    · rw [if_neg hlist]
      exact hplain _ (paragraphLines_le rest) (paragraphLines_plain rest) hmarker

end

def inFenceSpan (all : List JsString) (spans : List (Nat × Nat)) (i : Nat) : Bool :=
  spans.any fun span => decide (span.1 ≤ i) && decide (i < span.2) && (isFence (all.getD span.1 [])).isSome

theorem spans_before {rest : List JsString} {index i : Nat} {spans : List (Nat × Nat)} (h : LineSpans index rest spans)
    (hi : i < index) : inFenceSpan all spans i = false := by
  refine any_eq_false.mpr fun span hspan hin => ?_
  have hle := (h.within span hspan).1
  rw [Bool.and_eq_true, Bool.and_eq_true, decide_eq_true_eq, decide_eq_true_eq] at hin
  omega

theorem blockSpans_outputs {fuel index : Nat} {rest : List JsString} (hfuel : rest.length ≤ fuel)
    (hall : all.drop index = rest) : ∀ i < rest.length,
    (fenceScan.outputs none rest)[i]? = some (inFenceSpan all (blockSpans fuel index rest) (index + i)) := by
  induction fuel generalizing index rest with
  | zero =>
    intro i hi
    omega
  | succ fuel ih =>
    intro i hi
    cases rest with
    | nil => cases hi
    | cons line rest =>
      rw [length_cons] at hfuel hi
      have hnext : ∀ n, all.drop (index + n) = (line :: rest).drop n := fun n => by rw [← drop_drop, hall]
      have hunfold : blockSpans (fuel + 1) index (line :: rest) = if isBlank line then blockSpans fuel (index + 1) rest else
          (index, index + blockLines line rest) ::
            blockSpans fuel (index + blockLines line rest) ((line :: rest).drop (blockLines line rest)) := rfl
      rw [hunfold]
      by_cases hblank : isBlank line = true
      · rw [if_pos hblank]
        have houtputs := plain_outputs (forall_mem_singleton.mpr (fenceMarker_blank hblank)) rest
        rw [singleton_append] at houtputs
        rw [houtputs]
        cases i with
        | zero =>
          rw [spans_before (blockSpans_spans (by omega)) (by omega)]
          rfl
        | succ i =>
          have hrest := @ih (index + 1) rest (by omega) (hnext 1) i (by omega)
          have hindex : index + 1 + i = index + (i + 1) := by omega
          rw [hindex] at hrest
          exact hrest
      · rw [if_neg hblank]
        obtain ⟨hpos, -⟩ := blockLines_bounds line rest
        have hlength : ((line :: rest).drop (blockLines line rest)).length ≤ fuel := by
          rw [length_drop, length_cons]
          omega
        have hline : all.getD index [] = line := by
          have hget := congrArg (fun l : List JsString => l[0]?) hall
          simp only [getElem?_drop, Nat.add_zero, getElem?_cons_zero] at hget
          rw [getD_eq_getElem?_getD, hget]
          rfl
        have hsplit : ∀ spans, inFenceSpan all ((index, index + blockLines line rest) :: spans) (index + i) =
            ((decide (index ≤ index + i) && decide (index + i < index + blockLines line rest) && (isFence line).isSome) ||
              inFenceSpan all spans (index + i)) := by
          intro spans
          rw [← hline]
          rfl
        rw [block_outputs, hsplit]
        by_cases hin : i < blockLines line rest
        · have hlater : inFenceSpan all (blockSpans fuel (index + blockLines line rest)
              ((line :: rest).drop (blockLines line rest))) (index + i) = false :=
            spans_before (blockSpans_spans hlength) (by omega)
          rw [getElem?_append_left (by rw [length_replicate]; exact hin), getElem?_replicate, if_pos hin,
            hlater, decide_eq_true (Nat.le_add_right _ _), decide_eq_true (by omega)]
          simp
        · have hrest := ih hlength (hnext _) (i - blockLines line rest) (by
            rw [length_drop, length_cons]
            omega)
          have hindex : index + blockLines line rest + (i - blockLines line rest) = index + i := by omega
          rw [hindex] at hrest
          rw [getElem?_append_right (by rw [length_replicate]; omega), length_replicate, hrest]
          have hfalse : decide (index + i < index + blockLines line rest) = false := decide_eq_false (by omega)
          rw [hfalse, Bool.and_false, Bool.false_and, Bool.false_or]

theorem splitSourceBlocks_outputs (text : JsString) :
    ∀ i < (lines text).length, (fenceScan.outputs none (lines text))[i]? = some (inFenceBlock text i) := by
  intro i hi
  have hspans : ∀ spans, inFenceSpan (lines text) ((pushBlocks text (lines text) (lineOffsets (lines text) 0) [] spans).map
      fun block => (block.start, block.end_)) i = inFenceSpan (lines text) spans i := by
    intro spans
    rw [(pushBlocks_spec _ _ _ _ _).1]
  have houtputs := blockSpans_outputs (Nat.le_refl _) (drop_zero (l := lines text)) i hi
  rw [Nat.zero_add] at houtputs
  have hblock : ∀ blocks : List SourceBlock, (blocks.any fun block =>
      decide (block.start ≤ i) && decide (i < block.end_) && (isFence ((lines text).getD block.start [])).isSome) =
      inFenceSpan (lines text) (blocks.map fun block => (block.start, block.end_)) i := by
    intro blocks
    rw [inFenceSpan, any_map]
    rfl
  rw [houtputs, inFenceBlock, hblock, splitSourceBlocks, hspans]
  by_cases hnone : blockSpans (lines text).length 0 (lines text) = [] ∧ text ≠ []
  · -- all lines are blank, so the one block opens no fence
    rw [if_pos hnone, hnone.1]
    rw [hnone.1] at houtputs
    have hfirst : (isFence ((lines text).getD 0 [])).isSome = false := by
      have hzero := blockSpans_outputs (Nat.le_refl _) (drop_zero (l := lines text)) 0 (by omega)
      rw [hnone.1] at hzero
      cases hlines : lines text with
      | nil => rfl
      | cons line rest =>
        rw [hlines, outputs_cons, getElem?_cons_zero] at hzero
        have hout : (false || (fenceMarker line).isSome) = false := Option.some.inj hzero
        rw [isFence_eq]
        exact hout
    have hone : inFenceSpan (lines text) [(0, (lines text).length)] i =
        ((decide (0 ≤ i) && decide (i < (lines text).length) && (isFence ((lines text).getD 0 [])).isSome) || false) := rfl
    rw [hone, hfirst, Bool.and_false]
    rfl
  · rw [if_neg hnone]

/-! ## Context signals -/

section
variable {s t v : JsString} {fence : Option Fence}

theorem fencedRangesFrom_cons (textLength : Nat) (piece : JsString) (rest : List JsString) (from_ : Nat)
    (open_ : Option (Fence × Nat)) :
    fencedRangesFrom textLength (piece :: rest) from_ open_ =
      match fenceMarker piece, open_ with
      | none, _ => fencedRangesFrom textLength rest (from_ + (piece.length + 1)) open_
      | some marker, none => fencedRangesFrom textLength rest (from_ + (piece.length + 1)) (some (marker, from_))
      | some marker, some (opened, start) =>
        if opened.1 = marker.1 ∧ opened.2 ≤ marker.2 then
          (start, from_ + piece.length) :: fencedRangesFrom textLength rest (from_ + (piece.length + 1)) none
        else fencedRangesFrom textLength rest (from_ + (piece.length + 1)) (some (opened, start)) := rfl

theorem ranges_before {textLength offset : Nat} (pieces : List JsString) {from_ : Nat} (open_ : Option (Fence × Nat))
    (hfrom : offset < from_) (htext : offset < textLength) :
    insideFence (fencedRangesFrom textLength pieces from_ open_) offset =
      open_.any fun opened => decide (opened.2 ≤ offset) := by
  induction pieces generalizing from_ open_ with
  | nil =>
    cases open_ with
    | none => rfl
    | some opened =>
      show (decide (opened.2 ≤ offset) && decide (offset < textLength) || false) = decide (opened.2 ≤ offset)
      rw [decide_eq_true htext, Bool.and_true, Bool.or_false]
  | cons piece rest ih =>
    have hnext : offset < from_ + (piece.length + 1) := by omega
    rw [fencedRangesFrom_cons]
    cases fenceMarker piece with
    | none => exact ih _ hnext
    | some marker =>
      cases open_ with
      | none =>
        refine (ih _ hnext).trans ?_
        exact decide_eq_false (by omega)
      | some opened =>
        obtain ⟨opened, start⟩ := opened
        dsimp only
        by_cases hgoes : opened.1 = marker.1 ∧ opened.2 ≤ marker.2
        · rw [if_pos hgoes]
          show (decide (start ≤ offset) && decide (offset < from_ + piece.length) || insideFence _ offset) = decide (start ≤ offset)
          rw [ih none hnext, decide_eq_true (by omega : offset < from_ + piece.length), Bool.and_true]
          exact Bool.or_false _
        · rw [if_neg hgoes]
          exact ih _ hnext

theorem insideFence_cons (range : Nat × Nat) (ranges : List (Nat × Nat)) (offset : Nat) :
    insideFence (range :: ranges) offset =
      (decide (range.1 ≤ offset) && decide (offset < range.2) || insideFence ranges offset) := rfl

theorem ranges_inside {textLength : Nat} (pieces : List JsString) {from_ : Nat} (open_ : Option (Fence × Nat))
    (hstart : ∀ opened, open_ = some opened → opened.2 ≤ from_) {before after : List JsString} {piece : JsString}
    (hsplit : pieces = before ++ piece :: after) {k : Nat} (hk : k ≤ piece.length)
    (htext : from_ + (leading before).length + k < textLength) :
    insideFence (fencedRangesFrom textLength pieces from_ open_) (from_ + (leading before).length + k) =
      if k < piece.length then fenceScan.out (fenceScan.behind (open_.map (·.1)) before) piece
      else (fenceScan.step (fenceScan.behind (open_.map (·.1)) before) piece).isSome := by
  induction before generalizing pieces from_ open_ with
  | nil =>
    have hoffset : from_ + (leading []).length + k = from_ + k := rfl
    rw [hoffset] at htext ⊢
    rw [hsplit, nil_append, fencedRangesFrom_cons]
    have hscan : (if k < piece.length then fenceScan.out (fenceScan.behind (open_.map (·.1)) []) piece
        else (fenceScan.step (fenceScan.behind (open_.map (·.1)) []) piece).isSome) =
        if k < piece.length then (open_.map (·.1)).isSome || (fenceMarker piece).isSome
        else (stepFence (open_.map (·.1)) (fenceMarker piece)).isSome := rfl
    rw [hscan]
    have hnext : from_ + k < from_ + (piece.length + 1) := by omega
    have hopen : ∀ opened, open_ = some opened → (decide (opened.2 ≤ from_ + k)) = true := fun opened h =>
      decide_eq_true (Nat.le_trans (hstart opened h) (Nat.le_add_right _ _))
    cases fenceMarker piece with
    | none =>
      dsimp only
      rw [ranges_before after open_ hnext htext]
      cases open_ with
      | none => exact (ite_self _).symm
      | some opened => exact (hopen opened rfl).trans (ite_self _).symm
    | some marker =>
      cases open_ with
      | none =>
        dsimp only
        rw [ranges_before after _ hnext htext]
        exact (decide_eq_true (Nat.le_add_right from_ k)).trans (ite_self _).symm
      | some opened =>
        obtain ⟨opened, start⟩ := opened
        have hstep : stepFence ((some (opened, start)).map (·.1)) (some marker) =
            if opened.1 = marker.1 ∧ opened.2 ≤ marker.2 then none else some opened := rfl
        have hbefore := hopen _ rfl
        dsimp only at hbefore ⊢
        rw [hstep]
        by_cases hgoes : opened.1 = marker.1 ∧ opened.2 ≤ marker.2
        · rw [if_pos hgoes, if_pos hgoes, insideFence_cons, ranges_before after none hnext htext]
          dsimp only
          rw [hbefore]
          by_cases hin : k < piece.length
          · rw [if_pos hin, decide_eq_true (by omega)]
            rfl
          · rw [if_neg hin, decide_eq_false (by omega)]
            rfl
        · rw [if_neg hgoes, if_neg hgoes, ranges_before after _ hnext htext]
          exact hbefore.trans (ite_self _).symm
  | cons first before ih =>
    have hoffset : from_ + (leading (first :: before)).length + k =
        from_ + (first.length + 1) + (leading before).length + k := by
      rw [leading_cons_length]
      omega
    rw [hoffset] at htext ⊢
    rw [hsplit, cons_append, fencedRangesFrom_cons]
    have hbehind : ∀ fence, fenceScan.behind fence (first :: before) =
        fenceScan.behind (stepFence fence (fenceMarker first)) before := fun _ => rfl
    rw [hbehind]
    cases fenceMarker first with
    | none =>
      exact ih _ open_ (fun opened h => Nat.le_trans (hstart opened h) (Nat.le_add_right _ _)) rfl htext
    | some marker =>
      cases open_ with
      | none =>
        refine ih _ (some (marker, from_)) (fun opened h => ?_) rfl htext
        cases h
        exact Nat.le_add_right _ _
      | some opened =>
        obtain ⟨opened, start⟩ := opened
        have hstep : stepFence ((some (opened, start)).map (·.1)) (some marker) =
            if opened.1 = marker.1 ∧ opened.2 ≤ marker.2 then none else some opened := rfl
        dsimp only
        rw [hstep]
        by_cases hgoes : opened.1 = marker.1 ∧ opened.2 ≤ marker.2
        · have hpast : decide (from_ + (first.length + 1) + (leading before).length + k < from_ + first.length) = false :=
            decide_eq_false (by omega)
          rw [if_pos hgoes, if_pos hgoes, insideFence_cons]
          dsimp only
          rw [hpast, Bool.and_false, Bool.false_or]
          exact ih _ none (fun opened h => absurd h (by simp)) rfl htext
        · rw [if_neg hgoes, if_neg hgoes]
          exact ih _ (some (opened, start)) (fun other h => Nat.le_trans (hstart other h) (Nat.le_add_right _ _)) rfl htext

/-! ### Pieces of lines -/

theorem multilines_append {c : UInt16} (hc : isLineTerminator c = true) (s t : JsString) :
    multilines (s ++ c :: t) = multilines s ++ multilines t := by
  induction s with
  | nil => exact if_pos hc
  | cons d s ih =>
    have hunfold : ∀ u, multilines (d :: u) =
        if isLineTerminator d then [] :: multilines u
        else
          match multilines u with
          | [] => [[d]]
          | piece :: more => (d :: piece) :: more := fun _ => rfl
    rw [cons_append, hunfold, hunfold, ih]
    by_cases hd : isLineTerminator d = true
    · rw [if_pos hd, if_pos hd]
      rfl
    rw [if_neg hd, if_neg hd]
    cases hs : multilines s with
    | nil =>
      have hne : multilines s ≠ [] := by
        cases s with
        | nil => simp [multilines]
        | cons e s =>
          intro hnil
          unfold multilines at hnil
          by_cases he : isLineTerminator e = true
          · rw [if_pos he] at hnil
            cases hnil
          rw [if_neg he] at hnil
          cases hrest : multilines s with
          | nil => rw [hrest] at hnil; cases hnil
          | cons p ps => rw [hrest] at hnil; cases hnil
      exact absurd hs hne
    | cons piece more => rfl

theorem multilines_first (s : JsString) : ∃ piece more, multilines s = piece :: more ∧
    ((more = [] ∧ s = piece) ∨ ∃ c rest, s = piece ++ c :: rest ∧ isLineTerminator c = true ∧ more = multilines rest) := by
  induction s with
  | nil => exact ⟨[], [], rfl, Or.inl ⟨rfl, rfl⟩⟩
  | cons c s ih =>
    by_cases hc : isLineTerminator c = true
    · exact ⟨[], multilines s, if_pos hc, Or.inr ⟨c, s, rfl, hc, rfl⟩⟩
    obtain ⟨piece, more, hs, hrest⟩ := ih
    have hunfold : multilines (c :: s) =
        if isLineTerminator c then [] :: multilines s
        else
          match multilines s with
          | [] => [[c]]
          | piece :: more => (c :: piece) :: more := rfl
    refine ⟨c :: piece, more, by rw [hunfold, if_neg hc, hs], ?_⟩
    rcases hrest with ⟨hmore, rfl⟩ | ⟨d, rest, rfl, hd, hmore⟩
    · exact Or.inl ⟨hmore, rfl⟩
    · exact Or.inr ⟨d, rest, rfl, hd, hmore⟩

theorem multilines_joinLines (hne : all ≠ []) :
    multilines (joinLines all) = all.flatMap multilines := by
  induction all with
  | nil => exact absurd rfl hne
  | cons line rest ih =>
    cases rest with
    | nil => simp [joinLines, List.intercalate]
    | cons next rest =>
      rw [joinLines_cons line (by simp), multilines_append rfl, ih (by simp), flatMap_cons (x := line)]

theorem multilines_unbroken (h : unbroken s = true) : multilines s = [s] := by
  obtain ⟨piece, more, hs, hrest⟩ := multilines_first s
  rcases hrest with ⟨rfl, rfl⟩ | ⟨c, rest, rfl, hc, -⟩
  · exact hs
  · rw [unbroken_append, unbroken_cons] at h
    rw [h.2.1] at hc
    cases hc

theorem leading_multilines (s : JsString) : (leading (multilines s)).length = s.length + 1 := by
  induction hn : s.length using Nat.strongRecOn generalizing s with
  | ind n ih =>
    obtain ⟨piece, more, hs, hrest⟩ := multilines_first s
    rw [hs, leading_cons_length]
    rcases hrest with ⟨rfl, rfl⟩ | ⟨c, rest, rfl, -, rfl⟩
    · rw [hn]
      rfl
    · rw [length_append, length_cons] at hn
      rw [ih rest.length (by omega) rest rfl]
      omega

theorem pieces_at {pieces : List JsString} {k : Nat} (h : k < (leading pieces).length) :
    ∃ before piece after i, pieces = before ++ piece :: after ∧ k = (leading before).length + i ∧ i ≤ piece.length := by
  induction pieces generalizing k with
  | nil => exact absurd h (Nat.not_lt_zero k)
  | cons piece rest ih =>
    rw [leading_cons_length] at h
    by_cases hin : k ≤ piece.length
    · exact ⟨[], piece, rest, k, rfl, (Nat.zero_add k).symm, hin⟩
    obtain ⟨before, other, after, i, hsplit, hk, hi⟩ := @ih (k - (piece.length + 1)) (by omega)
    refine ⟨piece :: before, other, after, i, by rw [hsplit]; rfl, ?_, hi⟩
    rw [leading_cons_length]
    omega

theorem fenceMarker_first {piece : JsString} {more : List JsString} (h : multilines v = piece :: more) :
    fenceMarker piece = fenceMarker v := by
  obtain ⟨first, rest, hs, hrest⟩ := multilines_first v
  obtain ⟨rfl, -⟩ := List.cons.inj (h.symm.trans hs)
  rcases hrest with ⟨-, hpiece⟩ | ⟨c, behind, hpiece, hc, -⟩
  · rw [hpiece]
  rw [hpiece, fenceMarker_stop]
  intro d hd
  cases hd
  refine ⟨?_, ?_, ?_⟩ <;> rintro rfl <;> cases hc

end

/-! ### Lines -/

def PiecesPlain (source : JsString) : Prop :=
  ((multilines (withoutReturn source)).tail.all fun piece => (fenceMarker piece).isNone) = true

theorem PiecesPlain.piece {source : JsString} (h : PiecesPlain source) :
    ∀ piece ∈ (multilines (withoutReturn source)).tail, fenceMarker piece = none :=
  fun piece hpiece => Option.isNone_iff_eq_none.mp (all_eq_true.mp h piece hpiece)

section
variable {source v : JsString} {fence : Option Fence} {opened : Fence}

theorem bare_pieces (source : JsString) :
    ∃ more, multilines source = multilines (withoutReturn source) ++ more ∧ ∀ piece ∈ more, fenceMarker piece = none := by
  obtain ⟨more, hsource, hmore⟩ := withoutReturn_split source
  rcases hmore with rfl | rfl
  · refine ⟨[], ?_, fun _ hpiece => by cases hpiece⟩
    rw [append_nil] at hsource
    rw [← hsource, append_nil]
  refine ⟨[[]], ?_, fun piece hpiece => by rw [mem_singleton.mp hpiece]; rfl⟩
  have happend := @multilines_append 13 rfl (withoutReturn source) []
  rw [← hsource] at happend
  exact happend

theorem scan_still {pieces : List JsString} (h : ∀ piece ∈ pieces, fenceMarker piece = none) (fence : Option Fence) :
    fenceScan.behind fence pieces = fence :=
  (@outputs_still _ _ _ fenceScan fence pieces fun piece hpiece => by
    show stepFence fence (fenceMarker piece) = fence
    rw [h piece hpiece]
    rfl).2

theorem pieces_behind (h : PiecesPlain source) (fence : Option Fence) :
    fenceScan.behind fence (multilines source) = stepFence fence (fenceMarker (withoutReturn source)) := by
  obtain ⟨more, hsource, hmore⟩ := bare_pieces source
  obtain ⟨piece, rest, hpieces, -⟩ := multilines_first (withoutReturn source)
  have hfirst := fenceMarker_first hpieces
  have hplain : ∀ other ∈ rest, fenceMarker other = none := fun other hother =>
    h.piece other (by rw [hpieces]; exact hother)
  have hbehind : fenceScan.behind fence (piece :: (rest ++ more)) =
      fenceScan.behind (stepFence fence (fenceMarker piece)) (rest ++ more) := rfl
  rw [hsource, hpieces, cons_append, hbehind, hfirst, behind_append, scan_still hplain, scan_still hmore]

theorem lines_behind (h : ∀ source ∈ before, PiecesPlain source) (fence : Option Fence) :
    fenceScan.behind fence (before.flatMap multilines) = fenceScan.behind fence (before.map withoutReturn) := by
  induction before generalizing fence with
  | nil => rfl
  | cons source before ih =>
    obtain ⟨hsource, hbefore⟩ := forall_mem_cons.mp h
    rw [flatMap_cons, behind_append, pieces_behind hsource, ih hbefore]
    rfl

theorem leading_flatMap (before : List JsString) :
    (leading (before.flatMap multilines)).length = (leading before).length := by
  induction before with
  | nil => rfl
  | cons source before ih =>
    rw [flatMap_cons, leading_append, length_append, leading_multilines, ih, leading_cons_length]

theorem closesCode_marker (h : closesCode opened v = true) :
    ∃ marker, fenceMarker v = some marker ∧ (fenceRest v marker).all isGap = true := by
  unfold closesCode at h
  cases hmarker : fenceMarker v with
  | none =>
    rw [hmarker] at h
    cases h
  | some marker =>
    rw [hmarker, Option.any_some, Bool.and_eq_true] at h
    exact ⟨marker, rfl, h.2⟩

theorem closesCode_unbroken (h : closesCode opened v = true) : unbroken v = true := by
  obtain ⟨marker, hmarker, hrest⟩ := closesCode_marker h
  unfold fenceMarker at hmarker
  dsimp only at hmarker
  cases hdrop : v.drop (run (· == space) v) with
  | nil =>
    rw [hdrop] at hmarker
    cases hmarker
  | cons c rest =>
    rw [hdrop] at hmarker
    dsimp only at hmarker
    by_cases hcond : run (· == space) v ≤ 3 ∧ (c = 96 ∨ c = 126) ∧ 3 ≤ run (· == c) (c :: rest)
    · rw [if_pos hcond] at hmarker
      cases hmarker
      rw [fenceRest, ← drop_drop, hdrop] at hrest
      rw [← take_append_drop (run (· == space) v) v, hdrop, ← take_append_drop (run (· == c) (c :: rest)) (c :: rest)]
      refine unbroken_append.mpr ⟨?_, unbroken_append.mpr ⟨?_, ?_⟩⟩
      · refine all_eq_true.mpr fun d hd => ?_
        have hspace := eq_of_beq (all_eq_true.mp (take_run_all (· == space) v) d hd)
        rw [hspace]
        rfl
      · refine all_eq_true.mpr fun d hd => ?_
        have hsame := eq_of_beq (all_eq_true.mp (take_run_all (· == c) (c :: rest)) d hd)
        rw [hsame]
        rcases hcond.2.1 with rfl | rfl <;> rfl
      · refine all_eq_true.mpr fun d hd => ?_
        rw [gap_unbroken (all_eq_true.mp hrest d hd)]
        rfl
    · rw [if_neg hcond] at hmarker
      cases hmarker

theorem piece_inside (h : settled fence v = true) {piece : JsString}
    (hsplit : multilines v = before ++ piece :: after) (hplain : ∀ other ∈ (multilines v).tail, fenceMarker other = none)
    {i : Nat} (hi : i ≤ piece.length) (hk : (leading before).length + i < v.length) :
    (if i < piece.length then fenceScan.out (fenceScan.behind fence before) piece
      else (fenceScan.step (fenceScan.behind fence before) piece).isSome) = fenceScan.out fence v := by
  by_cases hone : unbroken v = true
  · -- the line is its only piece
    rw [multilines_unbroken hone] at hsplit
    cases before with
    | nil =>
      obtain ⟨rfl, -⟩ := List.cons.inj hsplit
      have hlt : i < v.length := Nat.lt_of_le_of_lt (Nat.le_add_left _ _) hk
      rw [if_pos hlt]
      rfl
    | cons first before =>
      have hlength := congrArg List.length hsplit
      rw [length_singleton, length_append, length_cons, length_cons] at hlength
      omega
  · -- so it closes nothing, and behind its first piece the fence is what the line opens
    have hstays : (stepFence fence (fenceMarker v)).isSome = fenceScan.out fence v := by
      show _ = (fence.isSome || (fenceMarker v).isSome)
      cases fence with
      | none => cases fenceMarker v <;> rfl
      | some opened =>
        have hstep := (settled_same h).2
        have hstep : stepFence (some opened) (fenceMarker v) = if closesCode opened v then none else some opened := hstep
        have hopen : closesCode opened v = false := Bool.eq_false_iff.mpr fun hclosed => hone (closesCode_unbroken hclosed)
        rw [hstep, hopen]
        rfl
    cases before with
    | nil =>
      have hmarker := fenceMarker_first hsplit
      have hout : fenceScan.out (fenceScan.behind fence []) piece = fenceScan.out fence v := by
        show (fence.isSome || (fenceMarker piece).isSome) = (fence.isSome || (fenceMarker v).isSome)
        rw [hmarker]
      have hstep : (fenceScan.step (fenceScan.behind fence []) piece).isSome = fenceScan.out fence v := by
        rw [← hstays]
        show (stepFence fence (fenceMarker piece)).isSome = _
        rw [hmarker]
      rw [hout, hstep]
      exact ite_self _
    | cons first before =>
      have hfirst := fenceMarker_first hsplit
      rw [hsplit] at hplain
      have hbefore : ∀ other ∈ before, fenceMarker other = none := fun other hother =>
        hplain other (mem_append_left _ hother)
      have hpiece : fenceMarker piece = none := hplain piece (mem_append_right _ mem_cons_self)
      have hbehind : fenceScan.behind fence (first :: before) = stepFence fence (fenceMarker v) := by
        show fenceScan.behind (stepFence fence (fenceMarker first)) before = _
        rw [scan_still hbefore, hfirst]
      have hout : fenceScan.out (fenceScan.behind fence (first :: before)) piece = fenceScan.out fence v := by
        rw [hbehind, ← hstays]
        show ((stepFence fence (fenceMarker v)).isSome || (fenceMarker piece).isSome) = _
        rw [hpiece]
        exact Bool.or_false _
      have hstep : (fenceScan.step (fenceScan.behind fence (first :: before)) piece).isSome = fenceScan.out fence v := by
        rw [hbehind, ← hstays]
        show (stepFence (stepFence fence (fenceMarker v)) (fenceMarker piece)).isSome = _
        rw [hpiece]
        rfl
      rw [hout, hstep]
      exact ite_self _

end

theorem signals_settled (hsettled : Unmistaken text) (hplain : ∀ source ∈ lines text, PiecesPlain source)
    (hlength : text.length ≤ maxContextScanChars) {source : JsString}
    (hsplit : lines text = before ++ source :: after) {k : Nat} (hk : k < (withoutReturn source).length) :
    (fencedCode text)[before.length]? = some (signalsFenced text ((leading before).length + k)) := by
  have hbare : bareLines text = before.map withoutReturn ++ withoutReturn source :: after.map withoutReturn := by
    rw [bareLines, hsplit, map_append, map_cons]
  have hline := unmistaken_at hbare hsettled
  -- the fence in front of the line
  have hfence : fenceScan.behind none (before.flatMap multilines) = commonMark.behind none (before.map withoutReturn) := by
    rw [lines_behind fun line hmem => hplain line (by rw [hsplit]; exact mem_append_left _ hmem)]
    refine (outputs_congr fun start value rest heq => ?_).2
    have hwhere : bareLines text = start ++ value :: (rest ++ withoutReturn source :: after.map withoutReturn) := by
      rw [hbare, heq, append_assoc]
      rfl
    exact settled_same (unmistaken_at hwhere hsettled)
  have hsourcePlain : PiecesPlain source := hplain source (by rw [hsplit]; exact mem_append_right _ mem_cons_self)
  obtain ⟨start, piece, rest, i, hpieces, hki, hi⟩ :=
    @pieces_at (multilines (withoutReturn source)) k (by rw [leading_multilines]; omega)
  obtain ⟨more, hmore, -⟩ := bare_pieces source
  have hall : multilines text = (before.flatMap multilines ++ start) ++ piece :: (rest ++ more ++ after.flatMap multilines) := by
    rw [← joinLines_lines text, multilines_joinLines (lines_ne_nil text), hsplit, flatMap_append, flatMap_cons,
      hmore, hpieces]
    simp only [append_assoc, cons_append]
  have hoffset : (leading (before.flatMap multilines ++ start)).length + i = (leading before).length + k := by
    rw [leading_append, length_append, leading_flatMap, hki]
    omega
  have htext : (leading before).length + k < text.length := by
    have hjoin := joinLines_lines text
    rw [hsplit, joinLines_append before (by simp)] at hjoin
    have hlengths := congrArg List.length hjoin
    have hlines : source.length ≤ (joinLines (source :: after)).length := by
      cases after with
      | nil => simp [joinLines, List.intercalate]
      | cons next after =>
        rw [joinLines_cons source (by simp), length_append]
        omega
    have hshort : (withoutReturn source).length ≤ source.length := by
      obtain ⟨tail, htail, -⟩ := withoutReturn_split source
      have hsum := congrArg List.length htail
      rw [length_append] at hsum
      omega
    rw [length_append] at hlengths
    omega
  have hinside := @ranges_inside text.length (multilines text) 0 none (fun _ h => absurd h (by simp)) _ _ _ hall i hi
    (by rw [Nat.zero_add, hoffset]; exact htext)
  rw [Nat.zero_add, hoffset] at hinside
  have hsame := piece_inside hline hpieces hsourcePlain.piece hi (by omega)
  have hbehind : fenceScan.behind (Option.map (·.1) (none : Option (Fence × Nat))) (before.flatMap multilines ++ start) =
      fenceScan.behind (commonMark.behind none (before.map withoutReturn)) start := by
    rw [behind_append]
    exact congrArg (fenceScan.behind · start) hfence
  rw [hbehind, hsame, (settled_same hline).1] at hinside
  have hout := @outputs_at _ _ _ commonMark none (before.map withoutReturn) (withoutReturn source)
    (after.map withoutReturn)
  rw [← hbare, length_map] at hout
  rw [signalsFenced, take_of_length_le hlength, fencedRanges, hinside]
  exact hout

/-! ## Agreement -/

/-- Where every line does what CommonMark says, all four agree. Where a first line does not, they differ: at that line, if
no code is open there, and at the next one, if it is no fence line. -/
theorem fences_agree {text : JsString} (h : (envelope text).exists_ = false) :
    (Unmistaken text → (∀ source ∈ lines text, PiecesPlain source) → text.length ≤ maxContextScanChars → FencesAgree text) ∧
    ∀ before value after, bareLines text = before ++ value :: after → unmistakenFrom none before = true →
      settled (commonMark.behind none before) value = false →
      (commonMark.behind none before = none ∨ ∃ next rest, after = next :: rest ∧ fenceMarker next = none) →
      ¬FencesAgree text := by
  constructor
  · intro hsettled hplain hlength
    refine ⟨by rw [codeLines_eq h, hsettled.outputs], fun i hi => ?_, fun before source after hsplit k hk => ?_⟩
    · rw [← splitSourceBlocks_outputs text i hi, ← hsettled.outputs, bareLines, bare_outputs]
    · exact signals_settled hsettled hplain hlength hsplit hk
  · intro before value after hsplit hbefore hunsettled hwhere hagree
    have hsame : fenceScan.behind none before = commonMark.behind none before :=
      (outputs_congr fun start other rest heq => settled_same (unmistaken_at heq hbefore)).2
    have hcode := hagree.analyser
    rw [codeLines_eq h, fencedCode, hsplit, outputs_append, outputs_append, hsame] at hcode
    have hrest := (append_inj hcode (by rw [length_outputs, length_outputs])).2
    rw [outputs_cons, outputs_cons] at hrest
    obtain ⟨hhere, hbehind⟩ := List.cons.inj hrest
    generalize commonMark.behind none before = fence at hunsettled hwhere hhere hbehind
    cases fence with
    | none =>
      -- a marker that opens nothing
      have hvalue : ((fenceMarker value).isNone || (opensCode value).isSome) = false := hunsettled
      rw [Bool.or_eq_false_iff] at hvalue
      have hout : (fenceMarker value).isSome = (opensCode value).isSome := hhere
      rw [hvalue.2] at hout
      have hnone : fenceMarker value = none := Option.not_isSome_iff_eq_none.mp (by rw [hout]; exact Bool.false_ne_true)
      rw [hnone] at hvalue
      cases hvalue.1
    | some opened =>
      obtain ⟨next, rest, rfl, hnext⟩ := hwhere.resolve_left (by simp)
      -- a marker that closes nothing, and a line of text
      have hvalue : ((fenceMarker value).all (fun marker => !(opened.1 == marker.1 && decide (opened.2 ≤ marker.2))) ||
          closesCode opened value) = false := hunsettled
      rw [Bool.or_eq_false_iff] at hvalue
      obtain ⟨hall, hopen⟩ := hvalue
      have hcommon : commonMark.step (some opened) value = some opened := by
        show (if closesCode opened value then none else some opened) = some opened
        rw [hopen]
        rfl
      have hscan : fenceScan.step (some opened) value = none := by
        show stepFence (some opened) (fenceMarker value) = none
        cases hmarker : fenceMarker value with
        | none =>
          rw [hmarker] at hall
          cases hall
        | some marker =>
          rw [hmarker, Option.all_some, Bool.not_eq_false', Bool.and_eq_true, beq_iff_eq, decide_eq_true_eq] at hall
          exact if_pos hall
      rw [hcommon, hscan, outputs_cons, outputs_cons] at hbehind
      have hout : (fenceMarker next).isSome = true := (List.cons.inj hbehind).1
      rw [hnext] at hout
      cases hout

/-- A fence and text around it. -/
theorem fences_agree_closed : FencesAgree (ofString "a\n```js\n`` x\n````\nb") :=
  (@fences_agree (ofString "a\n```js\n`` x\n````\nb") (by decide +kernel)).1 (by unfold Unmistaken; decide +kernel)
    (fun source hsource => all_eq_true.mp (by decide +kernel :
      (lines (ofString "a\n```js\n`` x\n````\nb")).all (fun source =>
        (multilines (withoutReturn source)).tail.all fun piece => (fenceMarker piece).isNone) = true) source hsource)
    (by decide +kernel)

/-- A line of three backticks and a word closes a fence for the scanners and not in CommonMark. -/
theorem closing_word_differs :
    (envelope (ofString "```\n``` x\nfoo")).exists_ = false ∧ ¬FencesAgree (ofString "```\n``` x\nfoo") := by
  refine ⟨by decide +kernel, fun h => ?_⟩
  have hscan : codeLines (ofString "```\n``` x\nfoo") = [true, true, false] := by decide +kernel
  have hcommon : fencedCode (ofString "```\n``` x\nfoo") = [true, true, true] := by decide +kernel
  have hsame := h.analyser
  rw [hscan, hcommon] at hsame
  cases hsame

end Marks
