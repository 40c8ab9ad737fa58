import Mathlib.Data.Nat.Digits.Defs
import Mathlib.Data.List.Pairwise
import Marks.LinesSound
import Marks.PresentSound

/-! # Source blocks

The blocks of a text are spans of its lines, one behind the other, with only blank lines between them. Each is the
slice of the text between its offsets. -/

namespace Marks

open JsString List

/-! ## Offsets -/

variable {i : Nat}

theorem lineOffsets_getD (lines : List JsString) (offset : Nat) (h : i < lines.length) :
    (lineOffsets lines offset).getD i 0 = offset + (leading (lines.take i)).length := by
  induction lines generalizing offset i with
  | nil => cases h
  | cons line lines ih =>
    cases i with
    | zero => rfl
    | succ i =>
      have hrest := ih (offset + line.length + 1) (Nat.lt_of_succ_lt_succ h)
      rw [lineOffsets, getD_cons_succ, hrest, take_succ_cons]
      simp [leading]
      omega

theorem sourceOf_slice (text : JsString) {start stop : Nat} (h : start < stop) (hstop : stop ≤ (lines text).length) :
    sourceOf (lines text) start stop = text.slice ((lineOffsets (lines text) 0).getD start 0)
      (if (lines text).length ≤ stop then text.length else (lineOffsets (lines text) 0).getD stop 0 - 1) := by
  obtain ⟨before, mid, after, hlines, hbefore, hmid⟩ : ∃ before mid after, lines text = before ++ (mid ++ after) ∧
      before.length = start ∧ before.length + mid.length = stop := by
    refine ⟨(lines text).take start, ((lines text).take stop).drop start, (lines text).drop stop, ?_, ?_, ?_⟩
    · have htake : (lines text).take start = ((lines text).take stop).take start := by
        rw [take_take, Nat.min_eq_left (Nat.le_of_lt h)]
      rw [← append_assoc, htake, take_append_drop, take_append_drop]
    · rw [length_take]
      omega
    · rw [length_take, length_drop, length_take]
      omega
  have hne : mid ≠ [] := by
    intro hnil
    rw [hnil] at hmid
    simp at hmid
    omega
  have hsource : sourceOf (lines text) start stop = joinLines mid := by
    have htake : (before ++ (mid ++ after)).take stop = before ++ mid := by
      rw [← append_assoc, take_left' (by simp [hmid])]
    rw [sourceOf, hlines, htake, drop_left' hbefore]
  have hstart : (lineOffsets (lines text) 0).getD start 0 = (leading before).length := by
    rw [lineOffsets_getD _ _ (by omega), hlines, take_left' hbefore, Nat.zero_add]
  have htext : text = leading before ++ joinLines (mid ++ after) := by
    have hjoin := joinLines_lines text
    rw [hlines, joinLines_append before (by simp [hne])] at hjoin
    exact hjoin.symm
  rw [hsource, hstart]
  cases after with
  | nil =>
    have hall : (lines text).length ≤ stop := by
      rw [hlines]
      simp [hmid]
    rw [if_pos hall, slice, take_length]
    rw [htext, append_nil, drop_left]
  | cons next after =>
    have hmore : ¬ (lines text).length ≤ stop := by
      rw [hlines]
      simp
      omega
    have hoffset : (lineOffsets (lines text) 0).getD stop 0 = (leading before).length + (joinLines mid).length + 1 := by
      have htake : (before ++ (mid ++ next :: after)).take stop = before ++ mid := by
        rw [← append_assoc, take_left' (by simp [hmid])]
      rw [lineOffsets_getD _ _ (by omega), hlines, htake, leading_append, leading_joinLines hne]
      simp
      omega
    have hjoin : text = (leading before ++ joinLines mid) ++ newline :: joinLines (next :: after) := by
      rw [joinLines_append mid (by simp), leading_joinLines hne] at htext
      simpa using htext
    rw [if_neg hmore, hoffset, Nat.add_sub_cancel, slice]
    calc joinLines mid = (leading before ++ joinLines mid).drop (leading before).length := drop_left.symm
      _ = (text.take ((leading before).length + (joinLines mid).length)).drop (leading before).length := by
        conv_rhs => rw [hjoin]
        rw [take_left' (by simp)]

/-! ## Spans -/

theorem fenceLines_le (close : UInt16 × Nat) (rest : List JsString) : fenceLines close rest ≤ rest.length := by
  induction rest with
  | nil => exact Nat.le_refl 0
  | cons line rest ih =>
    unfold fenceLines
    split
    · exact Nat.succ_pos _
    · exact Nat.succ_le_succ ih

theorem listLines_le (rest : List JsString) : listLines rest ≤ rest.length := by
  induction rest with
  | nil => exact Nat.le_refl 0
  | cons next rest ih =>
    simp only [listLines, length_cons]
    split
    · split
      · exact Nat.succ_le_succ ih
      · exact Nat.zero_le _
    · split
      · exact Nat.zero_le _
      · exact Nat.succ_le_succ ih

theorem paragraphLines_le (rest : List JsString) : paragraphLines rest ≤ rest.length := by
  induction rest with
  | nil => exact Nat.le_refl 0
  | cons next rest ih =>
    unfold paragraphLines
    split
    · exact Nat.zero_le _
    · exact Nat.succ_le_succ ih

theorem blockLines_bounds (line : JsString) (rest : List JsString) :
    0 < blockLines line rest ∧ blockLines line rest ≤ rest.length + 1 := by
  unfold blockLines
  split
  · exact ⟨Nat.succ_pos _, Nat.succ_le_succ (fenceLines_le _ rest)⟩
  · split
    · exact ⟨Nat.succ_pos _, Nat.succ_le_succ (listLines_le rest)⟩
    · exact ⟨Nat.succ_pos _, Nat.succ_le_succ (paragraphLines_le rest)⟩

variable {fuel index : Nat}

theorem blockSpans_fuel {more : Nat} {lines : List JsString} (h : lines.length ≤ fuel)
    (hmore : lines.length ≤ more) : blockSpans fuel index lines = blockSpans more index lines := by
  induction fuel generalizing more index lines with
  | zero =>
    have hnil : lines = [] := eq_nil_of_length_eq_zero (Nat.le_zero.mp h)
    rw [hnil]
    cases more <;> rfl
  | succ fuel ih =>
    cases lines with
    | nil => cases more <;> rfl
    | cons line rest =>
      cases more with
      | zero => cases hmore
      | succ more =>
        rw [length_cons] at h hmore
        unfold blockSpans
        split
        · exact ih (Nat.le_of_succ_le_succ h) (Nat.le_of_succ_le_succ hmore)
        obtain ⟨hpos, -⟩ := blockLines_bounds line rest
        have hdrop : ((line :: rest).drop (blockLines line rest)).length ≤ rest.length := by
          rw [length_drop, length_cons]
          omega
        dsimp only
        rw [ih (hdrop.trans (Nat.le_of_succ_le_succ h)) (hdrop.trans (Nat.le_of_succ_le_succ hmore))]

/-- LineSpans of the lines from `index` on: in order, and around every line that is not blank. -/
structure LineSpans (index : Nat) (lines : List JsString) (spans : List (Nat × Nat)) : Prop where
  ordered : spans.Pairwise fun a b => a.2 ≤ b.1
  within : ∀ span ∈ spans, index ≤ span.1 ∧ span.1 < span.2 ∧ span.2 ≤ index + lines.length
  cover : ∀ i line, lines[i]? = some line → isBlank line = false →
    ∃ span ∈ spans, span.1 ≤ index + i ∧ index + i < span.2

variable {spans : List (Nat × Nat)}

theorem LineSpans.skip {line : JsString} {rest : List JsString}
    (h : LineSpans (index + 1) rest spans) (hblank : isBlank line = true) : LineSpans index (line :: rest) spans where
  ordered := h.ordered
  within := by
    intro span hspan
    obtain ⟨hlow, hpos, hhigh⟩ := h.within span hspan
    rw [length_cons]
    exact ⟨by omega, hpos, by omega⟩
  cover := by
    intro i other hi hother
    cases i with
    | zero =>
      rw [getElem?_cons_zero] at hi
      rw [← Option.some.inj hi, hblank] at hother
      cases hother
    | succ i =>
      obtain ⟨span, hspan, hlow, hhigh⟩ := h.cover i other hi hother
      exact ⟨span, hspan, by omega, by omega⟩

variable {n : Nat}

theorem LineSpans.block {lines : List JsString} (hpos : 0 < n)
    (hn : n ≤ lines.length) (h : LineSpans (index + n) (lines.drop n) spans) :
    LineSpans index lines ((index, index + n) :: spans) where
  ordered := pairwise_cons.mpr ⟨fun span hspan => (h.within span hspan).1, h.ordered⟩
  within := by
    intro span hspan
    rcases mem_cons.mp hspan with rfl | hspan
    · exact ⟨Nat.le_refl _, by omega, by omega⟩
    · obtain ⟨hlow, hlt, hhigh⟩ := h.within span hspan
      rw [length_drop] at hhigh
      exact ⟨by omega, hlt, by omega⟩
  cover := by
    intro i line hi hline
    by_cases hin : i < n
    · exact ⟨_, mem_cons_self, by omega, by omega⟩
    have hdrop : (lines.drop n)[i - n]? = some line := by
      rw [getElem?_drop, Nat.add_sub_cancel' (Nat.not_lt.mp hin)]
      exact hi
    obtain ⟨span, hspan, hlow, hhigh⟩ := h.cover (i - n) line hdrop hline
    exact ⟨span, mem_cons_of_mem _ hspan, by omega, by omega⟩

theorem blockSpans_spans {lines : List JsString} (h : lines.length ≤ fuel) :
    LineSpans index lines (blockSpans fuel index lines) := by
  induction fuel generalizing index lines with
  | zero =>
    rw [eq_nil_of_length_eq_zero (Nat.le_zero.mp h)]
    exact ⟨List.Pairwise.nil, fun _ hspan => absurd hspan not_mem_nil, fun _ _ hi => by cases hi⟩
  | succ fuel ih =>
    cases lines with
    | nil => exact ⟨List.Pairwise.nil, fun _ hspan => absurd hspan not_mem_nil, fun _ _ hi => by cases hi⟩
    | cons line rest =>
      rw [length_cons] at h
      unfold blockSpans
      split
      · next hblank => exact (ih (Nat.le_of_succ_le_succ h)).skip hblank
      obtain ⟨hpos, hle⟩ := blockLines_bounds line rest
      have hdrop : ((line :: rest).drop (blockLines line rest)).length ≤ fuel := by
        rw [length_drop, length_cons]
        omega
      exact LineSpans.block hpos hle (ih hdrop)

theorem LineSpans.whole {lines : List JsString} (h : LineSpans index lines []) (hne : lines ≠ []) :
    LineSpans index lines [(index, index + lines.length)] where
  ordered := pairwise_singleton _ _
  within := by
    intro span hspan
    have hpos : 0 < lines.length := length_pos_of_ne_nil hne
    rw [mem_singleton.mp hspan]
    exact ⟨Nat.le_refl _, by omega, Nat.le_refl _⟩
  cover := by
    intro i line hi hline
    obtain ⟨span, hspan, -⟩ := h.cover i line hi hline
    cases hspan

/-! ## Blocks -/

theorem pushBlocks_spec (text : JsString) (lines : List JsString) (offsets seen : List Nat) (spans : List (Nat × Nat)) :
    (pushBlocks text lines offsets seen spans).map (fun block => (block.start, block.end_)) = spans ∧
      ∀ block ∈ pushBlocks text lines offsets seen spans, block.source = sourceOf lines block.start block.end_ ∧
        block.sourceStart = offsets.getD block.start 0 ∧
          block.sourceEnd = if lines.length ≤ block.end_ then text.length else offsets.getD block.end_ 0 - 1 := by
  induction spans generalizing seen with
  | nil => exact ⟨rfl, fun _ hblock => by cases hblock⟩
  | cons span spans ih =>
    obtain ⟨hspans, hfields⟩ := ih (seen ++ [hashString (sourceOf lines span.1 span.2)])
    rw [pushBlocks]
    refine ⟨?_, fun block hblock => ?_⟩
    · rw [map_cons, hspans]
    · rcases mem_cons.mp hblock with rfl | hblock
      · exact ⟨rfl, rfl, rfl⟩
      · exact hfields block hblock

/-! ## Keys -/

/-- `toString(radix)`. -/
def radixText (radix n : Nat) : List Char :=
  if n = 0 then ['0'] else (Nat.digits radix n).reverse.map radixDigit
where
  radixDigit (d : Nat) : Char := Char.ofNat (if d < 10 then 48 + d else 87 + d)

/-- The key as the preview's nodes carry it. -/
def BlockKey.text : BlockKey → List Char
  | .block base occurrence => radixText 36 base ++ if occurrence = 1 then [] else '~' :: radixText 10 occurrence
  | .error seq => "error-".toList ++ radixText 10 seq
  | .terminalError => "worker-terminal-error".toList

variable {d : Nat}

theorem radixDigit_inj {e : Nat} (hd : d < 36) (he : e < 36)
    (h : radixText.radixDigit d = radixText.radixDigit e) : d = e := by
  have hall : ∀ d e : Fin 36, radixText.radixDigit d = radixText.radixDigit e → d = e := by decide +kernel
  exact congrArg Fin.val (hall ⟨d, hd⟩ ⟨e, he⟩ h)

theorem radixDigit_ne_tilde (hd : d < 36) : radixText.radixDigit d ≠ '~' := by
  have hall : ∀ d : Fin 36, radixText.radixDigit d ≠ '~' := by decide +kernel
  exact hall ⟨d, hd⟩

variable {radix : Nat}

theorem radixText_eq (h : 1 < radix) (n : Nat) :
    ∃ digits, radixText radix n = digits.reverse.map radixText.radixDigit ∧ (∀ d ∈ digits, d < radix) ∧
      Nat.ofDigits radix digits = n := by
  by_cases hn : n = 0
  · refine ⟨[0], ?_, ?_, ?_⟩
    · rw [hn]
      rfl
    · intro d hd
      rw [mem_singleton.mp hd]
      omega
    · rw [hn, Nat.ofDigits_singleton]
  · exact ⟨Nat.digits radix n, if_neg hn, fun d hd => Nat.digits_lt_base h hd, Nat.ofDigits_digits radix n⟩

theorem map_radixDigit_inj {l l' : List Nat} (h : ∀ d ∈ l, d < 36) (h' : ∀ d ∈ l', d < 36)
    (heq : l.map radixText.radixDigit = l'.map radixText.radixDigit) : l = l' := by
  induction l generalizing l' with
  | nil => exact (map_eq_nil_iff.mp heq.symm).symm
  | cons d l ih =>
    cases l' with
    | nil => cases heq
    | cons d' l' =>
      obtain ⟨hd, hrest⟩ := List.cons.inj heq
      rw [forall_mem_cons] at h h'
      rw [radixDigit_inj h.1 h'.1 hd, ih h.2 h'.2 hrest]

theorem radixText_inj {m : Nat} (h : 1 < radix) (hr : radix ≤ 36) (heq : radixText radix n = radixText radix m) :
    n = m := by
  obtain ⟨digits, htext, hlt, hn⟩ := radixText_eq h n
  obtain ⟨others, htext', hlt', hm⟩ := radixText_eq h m
  rw [htext, htext'] at heq
  have hreverse : digits.reverse = others.reverse :=
    map_radixDigit_inj (fun d hd => (hlt d (mem_reverse.mp hd)).trans_le hr)
      (fun d hd => (hlt' d (mem_reverse.mp hd)).trans_le hr) heq
  rw [← hn, ← hm, reverse_injective hreverse]

theorem radixText_no_tilde (n : Nat) : '~' ∉ radixText 36 n := by
  obtain ⟨digits, htext, hlt, -⟩ := radixText_eq (by decide : 1 < 36) n
  rw [htext]
  intro hmem
  obtain ⟨d, hd, heq⟩ := mem_map.mp hmem
  exact radixDigit_ne_tilde (hlt d (mem_reverse.mp hd)) heq

theorem block_text_inj {base occurrence base' occurrence' : Nat}
    (h : (BlockKey.block base occurrence).text = (BlockKey.block base' occurrence').text) :
    base = base' ∧ occurrence = occurrence' := by
  have hsplit : ∀ base occurrence, (BlockKey.block base occurrence).text.takeWhile (· != '~') = radixText 36 base ∧
      (BlockKey.block base occurrence).text.dropWhile (· != '~') =
        if occurrence = 1 then [] else '~' :: radixText 10 occurrence := by
    intro base occurrence
    have hhash : ∀ c ∈ radixText 36 base, (c != '~') = true := by
      intro c hc
      rw [bne_iff_ne]
      exact fun heq => radixText_no_tilde base (heq ▸ hc)
    have hmark : ∀ tail : List Char, (if occurrence = 1 then [] else '~' :: tail).takeWhile (· != '~') = [] ∧
        (if occurrence = 1 then [] else '~' :: tail).dropWhile (· != '~') =
          if occurrence = 1 then [] else '~' :: tail := by
      intro tail
      split
      · exact ⟨rfl, rfl⟩
      · exact ⟨rfl, rfl⟩
    unfold BlockKey.text
    rw [takeWhile_append_of_pos hhash, dropWhile_append_of_pos hhash, (hmark _).1, (hmark _).2,
      append_nil]
    exact ⟨rfl, rfl⟩
  obtain ⟨htake, hdrop⟩ := hsplit base occurrence
  obtain ⟨htake', hdrop'⟩ := hsplit base' occurrence'
  rw [h, htake'] at htake
  rw [h, hdrop'] at hdrop
  refine ⟨radixText_inj (by decide) (Nat.le_refl _) htake.symm, ?_⟩
  by_cases hone : occurrence = 1
  · by_cases hone' : occurrence' = 1
    · rw [hone, hone']
    · rw [if_pos hone, if_neg hone'] at hdrop
      cases hdrop
  · by_cases hone' : occurrence' = 1
    · rw [if_neg hone, if_pos hone'] at hdrop
      cases hdrop
    · rw [if_neg hone, if_neg hone'] at hdrop
      exact radixText_inj (by decide) (by decide) (List.cons.inj hdrop).2.symm

theorem pushBlocks_key (text : JsString) (lines : List JsString) (offsets seen : List Nat) (spans : List (Nat × Nat)) :
    ∀ block ∈ pushBlocks text lines offsets seen spans, ∃ base occurrence, block.key = .block base occurrence := by
  induction spans generalizing seen with
  | nil => exact fun _ hblock => by cases hblock
  | cons span spans ih =>
    intro block hblock
    rw [pushBlocks] at hblock
    rcases mem_cons.mp hblock with rfl | hblock
    · exact ⟨_, _, rfl⟩
    · exact ih _ block hblock

theorem splitSourceBlocks_texts (text : JsString) : ((splitSourceBlocks text).map fun block => block.key.text).Nodup := by
  have hkeys : ((splitSourceBlocks text).map (·.key)).Nodup := MarkdownWorker.splitSourceBlocks_nodup
  have hblock : ∀ block ∈ splitSourceBlocks text, ∃ base occurrence, block.key = .block base occurrence := by
    unfold splitSourceBlocks
    exact pushBlocks_key _ _ _ _ _
  have htexts : ((splitSourceBlocks text).map fun block => block.key.text) =
      ((splitSourceBlocks text).map (·.key)).map BlockKey.text := by
    rw [map_map]
    rfl
  rw [htexts]
  refine hkeys.map_on fun key hkey other hother heq => ?_
  obtain ⟨block, hmem, rfl⟩ := mem_map.mp hkey
  obtain ⟨block', hmem', rfl⟩ := mem_map.mp hother
  obtain ⟨base, occurrence, hk⟩ := hblock block hmem
  obtain ⟨base', occurrence', hk'⟩ := hblock block' hmem'
  rw [hk, hk'] at heq ⊢
  obtain ⟨hbase, hoccurrence⟩ := block_text_inj heq
  rw [hbase, hoccurrence]

/-! ## The partition -/

theorem splitSourceBlocks_eq (text : JsString) : ∃ spans, LineSpans 0 (lines text) spans ∧
    splitSourceBlocks text = pushBlocks text (lines text) (lineOffsets (lines text) 0) [] spans := by
  have hspans : LineSpans 0 (lines text) (blockSpans (lines text).length 0 (lines text)) :=
    blockSpans_spans (Nat.le_refl _)
  by_cases hblank : blockSpans (lines text).length 0 (lines text) = [] ∧ text ≠ []
  · refine ⟨[(0, (lines text).length)], ?_, ?_⟩
    · rw [hblank.1] at hspans
      have hwhole := hspans.whole (lines_ne_nil text)
      rwa [Nat.zero_add] at hwhole
    · simp only [splitSourceBlocks, if_pos hblank]
  · exact ⟨_, hspans, by simp only [splitSourceBlocks, if_neg hblank]⟩

theorem offset_lt {lines : List JsString} {j : Nat} (h : i < j) (hj : j < lines.length) :
    (lineOffsets lines 0).getD i 0 < (lineOffsets lines 0).getD j 0 := by
  rw [lineOffsets_getD _ _ hj, lineOffsets_getD _ _ (h.trans hj)]
  have hsplit : lines.take j = lines.take i ++ (lines.take j).drop i := by
    have htake : lines.take i = (lines.take j).take i := by
      rw [take_take, Nat.min_eq_left (Nat.le_of_lt h)]
    rw [htake, take_append_drop]
  have hmid : 0 < (leading ((lines.take j).drop i)).length := by
    cases hdrop : (lines.take j).drop i with
    | nil =>
      have hlength := congrArg List.length hdrop
      rw [length_drop, length_take, length_nil] at hlength
      omega
    | cons line rest => simp [leading]
  rw [hsplit, leading_append, length_append]
  omega

theorem offset_le (text : JsString) (h : i < (lines text).length) :
    (lineOffsets (lines text) 0).getD i 0 ≤ text.length := by
  have hjoin := joinLines_lines text
  have hne : (lines text).drop i ≠ [] := by
    intro hnil
    have hlength := congrArg List.length hnil
    rw [length_drop, length_nil] at hlength
    omega
  rw [← take_append_drop i (lines text), joinLines_append _ hne] at hjoin
  rw [lineOffsets_getD _ _ h, Nat.zero_add]
  calc (leading ((lines text).take i)).length ≤ _ := Nat.le_add_right _ (joinLines ((lines text).drop i)).length
    _ = text.length := by rw [← length_append, hjoin]

/-- **Source blocks.** The scan ends, and cuts a text into spans of whole lines, in order and apart, that are slices
of it and take up every line that is not blank once. -/
theorem splitSourceBlocks_partition (text : JsString) :
    (∀ fuel, (lines text).length ≤ fuel →
      blockSpans fuel 0 (lines text) = blockSpans (lines text).length 0 (lines text)) ∧
    (∀ block ∈ splitSourceBlocks text, block.start < block.end_ ∧ block.end_ ≤ (lines text).length ∧
      block.source = sourceOf (lines text) block.start block.end_ ∧
      block.source = text.slice block.sourceStart block.sourceEnd ∧
      block.sourceStart ≤ block.sourceEnd ∧ block.sourceEnd ≤ text.length) ∧
    ((splitSourceBlocks text).Pairwise fun a b => a.end_ ≤ b.start ∧ a.sourceEnd < b.sourceStart) ∧
    (∀ i line, (lines text)[i]? = some line → isBlank line = false →
      ∃! block, block ∈ splitSourceBlocks text ∧ block.start ≤ i ∧ i < block.end_) ∧
    ((splitSourceBlocks text).map fun block => block.key.text).Nodup := by
  obtain ⟨spans, hspans, heq⟩ := splitSourceBlocks_eq text
  obtain ⟨hmap, hfields⟩ := pushBlocks_spec text (lines text) (lineOffsets (lines text) 0) [] spans
  rw [← heq] at hmap hfields
  have hwithin : ∀ block ∈ splitSourceBlocks text, block.start < block.end_ ∧ block.end_ ≤ (lines text).length := by
    intro block hblock
    have hspan : (block.start, block.end_) ∈ spans := by
      rw [← hmap]
      exact mem_map_of_mem hblock
    obtain ⟨-, hlt, hle⟩ := hspans.within _ hspan
    rw [Nat.zero_add] at hle
    exact ⟨hlt, hle⟩
  have hordered : (splitSourceBlocks text).Pairwise fun a b => a.end_ ≤ b.start := by
    have hpairs := hspans.ordered
    rw [← hmap, pairwise_map] at hpairs
    exact hpairs
  refine ⟨fun fuel hfuel => blockSpans_fuel hfuel (Nat.le_refl _), fun block hblock => ?_, ?_, fun i line hi hline => ?_,
    splitSourceBlocks_texts text⟩
  · obtain ⟨hlt, hle⟩ := hwithin block hblock
    obtain ⟨hsource, hstart, hend⟩ := hfields block hblock
    refine ⟨hlt, hle, hsource, ?_, ?_, ?_⟩
    · rw [hsource, hstart, hend]
      exact sourceOf_slice text hlt hle
    · rw [hstart, hend]
      split
      · exact offset_le text (by omega)
      · have := offset_lt hlt (by omega : block.end_ < (lines text).length)
        omega
    · rw [hend]
      split
      · exact Nat.le_refl _
      · exact (Nat.sub_le _ 1).trans (offset_le text (by omega))
  · refine List.Pairwise.imp_of_mem (fun {a b} ha hb hab => ⟨hab, ?_⟩) hordered
    obtain ⟨halt, -⟩ := hwithin a ha
    obtain ⟨hblt, hble⟩ := hwithin b hb
    have hin : a.end_ < (lines text).length := by omega
    rw [(hfields a ha).2.2, (hfields b hb).2.1, if_neg (Nat.not_le.mpr hin)]
    have hpos := offset_lt (Nat.zero_lt_of_lt halt) hin
    rcases Nat.lt_or_eq_of_le hab with hab | hab
    · have := offset_lt hab (hblt.trans_le hble)
      omega
    · rw [← hab]
      omega
  · obtain ⟨span, hspan, hlow, hhigh⟩ := hspans.cover i line hi hline
    rw [Nat.zero_add] at hlow hhigh
    rw [← hmap] at hspan
    obtain ⟨block, hblock, rfl⟩ := mem_map.mp hspan
    refine ⟨block, ⟨hblock, hlow, hhigh⟩, fun other hother => ?_⟩
    obtain ⟨hmem, hlow', hhigh'⟩ := hother
    -- two blocks around the line are not apart
    have hapart := List.Pairwise.forall_of_forall_of_flip
      (R := fun a b : SourceBlock => a.start ≤ i → i < a.end_ → b.start ≤ i → i < b.end_ → b = a)
      (l := splitSourceBlocks text) (fun _ _ _ _ _ _ => rfl)
      (hordered.imp fun hab _ _ _ _ => by omega) (hordered.imp fun hab _ _ _ _ => by omega)
    exact hapart hblock hmem hlow hhigh hlow' hhigh'

end Marks
