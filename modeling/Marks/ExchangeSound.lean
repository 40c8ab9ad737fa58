import Marks.SectionsSound

/-! # Exchanged lines

Two runs of lines that follow each other, each with a heading at its start, change places. Where the fences are closed
behind both and the report has room for all of their headings, each heading is reported again in its new place. -/

namespace Marks

open JsString List

/-! ## Outlines elsewhere -/

theorem outline_length (all : List JsString) (from_ by_ number lines_ : Nat) (fence : Option Fence) :
    (outline 0 all from_ number fence).length = (outline 0 all by_ lines_ fence).length := by
  have hfirst := outline_placed all 0 from_ 0 number fence
  have hsecond := outline_placed all 0 by_ 0 lines_ fence
  rw [Nat.zero_add, Nat.zero_add] at hfirst hsecond
  rw [hfirst, hsecond, length_map, length_map]

def Again (entry again : OutlineEntry) (offset : Nat) : Prop :=
  again.level = entry.level ∧ again.text = entry.text ∧ again.from_ = offset

theorem outline_again {all : List JsString} {from_ number : Nat} {fence : Option Fence} {entry : OutlineEntry}
    (h : entry ∈ outline 0 all from_ number fence) (by_ lines_ : Nat) :
    ∃ again ∈ outline 0 all by_ lines_ fence, Again entry again (entry.from_ - from_ + by_) := by
  have hfirst := outline_placed all 0 from_ 0 number fence
  have hsecond := outline_placed all 0 by_ 0 lines_ fence
  rw [Nat.zero_add, Nat.zero_add] at hfirst hsecond
  rw [hfirst] at h
  obtain ⟨origin, horigin, rfl⟩ := mem_map.mp h
  rw [hsecond]
  refine ⟨_, mem_map_of_mem horigin, rfl, rfl, ?_⟩
  show origin.from_ + by_ = origin.from_ + from_ - from_ + by_
  rw [Nat.add_sub_cancel]

def runsOutline (bodyFrom : Nat) (before first second rest : List JsString) : List OutlineEntry :=
  outline bodyFrom before 0 1 none ++
    (outline 0 first (leading before).length (1 + before.length) none ++
    (outline 0 second ((leading before).length + (leading first).length) (1 + before.length + first.length) none ++
      outline 0 rest ((leading before).length + (leading first).length + (leading second).length)
        (1 + before.length + first.length + second.length) none))

section
variable {bodyFrom : Nat} {before first second rest : List JsString} {entry : OutlineEntry}

theorem outline_runs (hle : bodyFrom ≤ (leading before).length) (hbefore : fenceBehind bodyFrom before 0 none = none)
    (hfirst : fenceBehind 0 first 0 none = none) (hsecond : fenceBehind 0 second 0 none = none) :
    outline bodyFrom (before ++ (first ++ (second ++ rest))) 0 1 none = runsOutline bodyFrom before first second rest := by
  rw [outline_append, hbefore, Nat.zero_add, outline_body hle, outline_append,
    fenceBehind_body (Nat.zero_le _) first 0, hfirst, outline_append, fenceBehind_body (Nat.zero_le _) second 0, hsecond]
  rfl

/-- Where a code unit stands when `first` units behind `start` and the `second` units behind them change places, with
`gap` units between them. -/
def movedTo (start first second gap offset : Nat) : Nat :=
  if offset < start then offset
  else if offset < start + first then offset + second + gap
  else if offset < start + first + second then offset - first
  else offset + gap

def runsCount (bodyFrom : Nat) (before first second : List JsString) : Nat :=
  (outline bodyFrom before 0 1 none).length + (outline 0 first 0 0 none).length + (outline 0 second 0 0 none).length

theorem runsCount_symm (bodyFrom : Nat) (before first second : List JsString) :
    runsCount bodyFrom before second first = runsCount bodyFrom before first second := by
  unfold runsCount
  omega

theorem runsOutline_take (h : runsCount bodyFrom before first second ≤ maxItems) (rest : List JsString) :
    (runsOutline bodyFrom before first second rest).take maxItems =
      outline bodyFrom before 0 1 none ++
        (outline 0 first (leading before).length (1 + before.length) none ++
        (outline 0 second ((leading before).length + (leading first).length) (1 + before.length + first.length) none ++
          (outline 0 rest ((leading before).length + (leading first).length + (leading second).length)
            (1 + before.length + first.length + second.length) none).take
              (maxItems - runsCount bodyFrom before first second))) := by
  unfold runsCount at h ⊢
  rw [outline_length first 0 (leading before).length 0 (1 + before.length),
    outline_length second 0 ((leading before).length + (leading first).length) 0 (1 + before.length + first.length)] at h ⊢
  rw [runsOutline, take_append, take_of_length_le (by omega), take_append,
    take_of_length_le (by omega), take_append, take_of_length_le (by omega), Nat.sub_sub, Nat.sub_sub,
    ← Nat.add_assoc]

theorem runsOutline_again (h : runsCount bodyFrom before first second ≤ maxItems)
    (hentry : entry ∈ (runsOutline bodyFrom before first second rest).take maxItems) :
    ∃ again ∈ (runsOutline bodyFrom before second first rest).take maxItems,
      Again entry again (movedTo (leading before).length (leading first).length (leading second).length 0 entry.from_) := by
  have hother : runsCount bodyFrom before second first ≤ maxItems := by rw [runsCount_symm]; exact h
  rw [runsOutline_take h] at hentry
  rw [runsOutline_take hother, runsCount_symm]
  simp only [mem_append] at hentry ⊢
  unfold movedTo
  rcases hentry with hentry | hentry | hentry | hentry
  · have hoffset := outline_offsets hentry
    refine ⟨entry, Or.inl hentry, rfl, rfl, ?_⟩
    rw [if_pos (by omega)]
  · have hoffset := outline_offsets hentry
    obtain ⟨again, hagain, hlevel, htext, hfrom⟩ := outline_again hentry
      ((leading before).length + (leading second).length) (1 + before.length + second.length)
    refine ⟨again, Or.inr (Or.inr (Or.inl hagain)), hlevel, htext, ?_⟩
    rw [if_neg (by omega), if_pos (by omega)]
    omega
  · have hoffset := outline_offsets hentry
    obtain ⟨again, hagain, hlevel, htext, hfrom⟩ := outline_again hentry (leading before).length (1 + before.length)
    refine ⟨again, Or.inr (Or.inl hagain), hlevel, htext, ?_⟩
    rw [if_neg (by omega), if_neg (by omega), if_pos (by omega)]
    omega
  · have hoffset := outline_offsets (mem_of_mem_take hentry)
    have hwidth : (leading before).length + (leading second).length + (leading first).length =
        (leading before).length + (leading first).length + (leading second).length := by omega
    have hnumber : 1 + before.length + second.length + first.length = 1 + before.length + first.length + second.length := by
      omega
    refine ⟨entry, Or.inr (Or.inr (Or.inr ?_)), rfl, rfl, ?_⟩
    · rw [hwidth, hnumber]
      exact hentry
    · rw [if_neg (by omega), if_neg (by omega), if_neg (by omega)]
      rfl

end

/-! ## Front matter -/

theorem closes_append (first : List JsString) {rest : List JsString} (h : rest ≠ []) :
    closes (first ++ rest) = (first.any (fun source => source == dashes || source == dashes ++ [13]) || closes rest) := by
  induction first with
  | nil => rfl
  | cons source first ih =>
    obtain ⟨next, more, hnext⟩ : ∃ next more, first ++ rest = next :: more :=
      exists_cons_of_ne_nil (append_ne_nil_of_right_ne_nil first h)
    have hunfold : closes (source :: next :: more) =
        (source == dashes || source == dashes ++ [13] || closes (next :: more)) := rfl
    rw [cons_append, hnext, hunfold, ← hnext, ih, any_cons]
    simp only [Bool.or_assoc]

theorem dashless_closing {source : JsString} (h : Dashless (source ++ [])) :
    (source == dashes || source == dashes ++ [13]) = false := by
  rw [append_nil] at h
  rw [Bool.or_eq_false_iff, beq_eq_false_iff_ne, beq_eq_false_iff_ne]
  constructor
  · rintro rfl
    exact h.2 rfl
  · rintro rfl
    exact h.2 rfl

/-! ## The exchange -/

def exchanged (before first second rest : List JsString) : JsString :=
  leading before ++ (leading second ++ (leading first ++ joinLines rest))

theorem lines_exchanged {before first second rest : List JsString} (hrest : rest ≠ [])
    (h : ∀ line ∈ before ++ (first ++ (second ++ rest)), newline ∉ line) :
    lines (exchanged before first second rest) = before ++ (second ++ (first ++ rest)) := by
  have hjoin : exchanged before first second rest = joinLines (before ++ (second ++ (first ++ rest))) := by
    rw [joinLines_append before (by simp [hrest]), joinLines_append second (by simp [hrest]), joinLines_append first hrest]
    rfl
  rw [hjoin, lines_joinLines (by simp [hrest])]
  intro line hline
  refine h line ?_
  simp only [mem_append] at hline ⊢
  rcases hline with hline | hline | hline | hline
  · exact Or.inl hline
  · exact Or.inr (Or.inr (Or.inl hline))
  · exact Or.inr (Or.inl hline)
  · exact Or.inr (Or.inr (Or.inr hline))

structure Blocks (text : JsString) (first second : OutlineEntry) (before : List JsString) (one : JsString)
    (ones : List JsString) (two : JsString) (twos rest : List JsString) : Prop where
  last : rest ≠ []
  first : ∃ i, i < maxItems ∧ HeadingAt text i first before one (ones ++ (two :: twos ++ rest))
  second : ∃ i, i < maxItems ∧ HeadingAt text i second (before ++ one :: ones) two (twos ++ rest)

section
variable {text : JsString} {first second entry : OutlineEntry} {before ones twos rest : List JsString} {one two : JsString}

theorem entryOf_elsewhere {from_ number : Nat} {source : JsString} (h : entryOf from_ number source = some entry)
    (by_ lines_ : Nat) : ∃ again, entryOf by_ lines_ source = some again ∧ Again entry again by_ := by
  obtain ⟨found, hfound, rfl⟩ := Option.map_eq_some_iff.mp h
  exact ⟨⟨found.2.1, trim found.2.2, by_, lines_⟩, by rw [entryOf, hfound]; rfl, rfl, rfl, rfl⟩

section
variable (h : Blocks text first second before one ones two twos rest)
include h

theorem Blocks.split : lines text = before ++ (one :: ones ++ (two :: twos ++ rest)) := by
  obtain ⟨i, -, hat⟩ := h.first
  rw [hat.split]
  rfl

theorem Blocks.text_eq : exchanged before (two :: twos) (one :: ones) rest = text := by
  have hjoin : joinLines (before ++ (one :: ones ++ (two :: twos ++ rest))) = text := by rw [← h.split, joinLines_lines]
  rw [joinLines_append before (by simp), joinLines_append (one :: ones) (by simp),
    joinLines_append (two :: twos) h.last] at hjoin
  exact hjoin

theorem Blocks.lines_exchanged :
    lines (exchanged before (one :: ones) (two :: twos) rest) = before ++ (two :: twos ++ (one :: ones ++ rest)) :=
  Marks.lines_exchanged h.last (by rw [← h.split]; exact lines_no_newline text)

theorem Blocks.fence_before : bodyOf text ≤ (leading before).length ∧ fenceBehind (bodyOf text) before 0 none = none := by
  obtain ⟨i, -, hat⟩ := h.first
  exact ⟨hat.body, hat.fence⟩

theorem Blocks.fence_first : fenceBehind 0 (one :: ones) 0 none = none := by
  obtain ⟨j, -, hat⟩ := h.second
  have hfence := hat.fence
  rw [fenceBehind_append, h.fence_before.2, Nat.zero_add, fenceBehind_body h.fence_before.1 _ 0] at hfence
  exact hfence

theorem Blocks.exchanged_at : ∃ i again, Again second again (leading before).length ∧
    HeadingAt (exchanged before (one :: ones) (two :: twos) rest) i again before two (twos ++ (one :: ones ++ rest)) := by
  obtain ⟨i, -, hfirst⟩ := h.first
  obtain ⟨j, -, hsecond⟩ := h.second
  obtain ⟨again, hentry, hagain⟩ := entryOf_elsewhere hsecond.entry (leading before).length (before.length + 1)
  refine ⟨i, again, hagain, hfirst.replace h.lines_exchanged hentry ?_⟩
  have hone := dashless_closing (entryOf_dashless hfirst.entry [])
  have htwo := dashless_closing (entryOf_dashless hsecond.entry [])
  rw [closes_append ones (by simp), closes_append (two :: twos) h.last, closes_append twos (by simp),
    closes_append (one :: ones) h.last, any_cons, any_cons, hone, htwo]
  simp only [Bool.false_or, Bool.or_eq_false_iff]
  exact fun ⟨hones, htwos, hrest⟩ => ⟨htwos, hones, hrest⟩

theorem Blocks.bodyOf_exchanged : bodyOf (exchanged before (one :: ones) (two :: twos) rest) = bodyOf text := by
  obtain ⟨i, -, hfirst⟩ := h.first
  obtain ⟨j, again, -, hat⟩ := h.exchanged_at
  exact hfirst.bodyOf_eq_of_le hat

section
variable (hfence : fenceBehind 0 (two :: twos) 0 none = none)
include hfence

theorem Blocks.entries_eq : entries text = (runsOutline (bodyOf text) before (one :: ones) (two :: twos) rest).take maxItems := by
  rw [Marks.entries_eq, h.split, outline_runs h.fence_before.1 h.fence_before.2 h.fence_first hfence]

theorem Blocks.entries_exchanged : entries (exchanged before (one :: ones) (two :: twos) rest) =
    (runsOutline (bodyOf text) before (two :: twos) (one :: ones) rest).take maxItems := by
  rw [Marks.entries_eq, h.bodyOf_exchanged, h.lines_exchanged,
    outline_runs h.fence_before.1 h.fence_before.2 hfence h.fence_first]

variable (hroom : runsCount (bodyOf text) before (one :: ones) (two :: twos) ≤ maxItems)
include hroom

theorem Blocks.again (hentry : entry ∈ entries text) :
    ∃ again ∈ entries (exchanged before (one :: ones) (two :: twos) rest), Again entry again
      (movedTo (leading before).length (leading (one :: ones)).length (leading (two :: twos)).length 0 entry.from_) := by
  rw [h.entries_eq hfence] at hentry
  rw [h.entries_exchanged hfence]
  exact runsOutline_again hroom hentry

theorem Blocks.back (hentry : entry ∈ entries (exchanged before (one :: ones) (two :: twos) rest)) :
    ∃ found ∈ entries text, Again entry found
      (movedTo (leading before).length (leading (two :: twos)).length (leading (one :: ones)).length 0 entry.from_) := by
  rw [h.entries_exchanged hfence] at hentry
  rw [h.entries_eq hfence]
  exact runsOutline_again (by rw [runsCount_symm]; exact hroom) hentry

end

theorem Blocks.of_third {third : OutlineEntry} {three : JsString} {more : List JsString} {k : Nat} (hk : k < maxItems)
    (hat : HeadingAt text k third (before ++ (one :: ones ++ two :: twos)) three more) :
    fenceBehind 0 (two :: twos) 0 none = none ∧
      runsCount (bodyOf text) before (one :: ones) (two :: twos) ≤ maxItems := by
  have hfence := hat.fence
  rw [fenceBehind_append, h.fence_before.2, Nat.zero_add, fenceBehind_body h.fence_before.1 _ 0, fenceBehind_append,
    h.fence_first, Nat.zero_add, fenceBehind_body (Nat.zero_le _) _ 0] at hfence
  have hindex := hat.index
  have hruns := @outline_runs (bodyOf text) before (one :: ones) (two :: twos) [] h.fence_before.1 h.fence_before.2
    h.fence_first hfence
  rw [append_nil] at hruns
  rw [hruns, runsOutline] at hindex
  simp only [length_append] at hindex
  rw [outline_length (one :: ones) _ 0 _ 0, outline_length (two :: twos) _ 0 _ 0] at hindex
  refine ⟨hfence, ?_⟩
  unfold runsCount
  omega

theorem Blocks.of_end (hrest : rest = [[]]) :
    (fenceBehind (bodyOf text) (lines text) 0 none = none ∧ (outline (bodyOf text) (lines text) 0 1 none).length ≤ maxItems) ↔
      fenceBehind 0 (two :: twos) 0 none = none ∧
        runsCount (bodyOf text) before (one :: ones) (two :: twos) ≤ maxItems := by
  have hlast : ∀ from_ fence, fenceBehind 0 [[]] from_ fence = fence := fun _ _ => rfl
  have hbehind : fenceBehind (bodyOf text) (lines text) 0 none = fenceBehind 0 (two :: twos) 0 none := by
    rw [h.split, hrest, fenceBehind_append, h.fence_before.2, Nat.zero_add, fenceBehind_body h.fence_before.1 _ 0,
      fenceBehind_append, h.fence_first, fenceBehind_append, hlast, fenceBehind_body (Nat.zero_le _) _ 0]
  rw [hbehind]
  refine and_congr_right fun hfence => ?_
  have hnone : ∀ from_ number, outline 0 [[]] from_ number none = [] := fun _ _ => rfl
  rw [h.split, hrest, outline_runs h.fence_before.1 h.fence_before.2 h.fence_first hfence, runsOutline, hnone]
  simp only [length_append, length_nil, Nat.add_zero]
  rw [outline_length (one :: ones) _ 0 _ 0, outline_length (two :: twos) _ 0 _ 0]
  unfold runsCount
  omega

theorem Blocks.needs (hreported : ∀ entry ∈ entries text,
      ∃ again ∈ entries (exchanged before (one :: ones) (two :: twos) rest), Again entry again
        (movedTo (leading before).length (leading (one :: ones)).length (leading (two :: twos)).length 0 entry.from_)) :
    fenceBehind 0 (two :: twos) 0 none = none ∧
      (rest = [[]] → runsCount (bodyOf text) before (one :: ones) (two :: twos) ≤ maxItems) := by
  obtain ⟨i, hi, hfirst⟩ := h.first
  obtain ⟨j, hj, hsecond⟩ := h.second
  have hwidth : 0 < (leading (one :: ones)).length := by
    rw [leading_cons_length]
    omega
  have hfence : fenceBehind 0 (two :: twos) 0 none = none := by
    obtain ⟨again, hmem, -, -, hfrom⟩ := hreported first (hfirst.mem hi)
    rw [entryOf_from hfirst.entry, movedTo, if_neg (by omega), if_pos (by omega), Nat.add_zero, ← length_append,
      ← leading_append] at hfrom
    have hsplit := h.lines_exchanged
    rw [← append_assoc] at hsplit
    obtain ⟨_, _, hat⟩ := headingAt_line hmem hsplit hfrom
    have hopen := hat.fence
    rw [h.bodyOf_exchanged, fenceBehind_append, h.fence_before.2, Nat.zero_add,
      fenceBehind_body h.fence_before.1 _ 0] at hopen
    exact hopen
  refine ⟨hfence, fun hrest => ?_⟩
  subst hrest
  by_contra hfull
  have hswapped := @outline_runs (bodyOf text) before (two :: twos) (one :: ones) [[]] h.fence_before.1
    h.fence_before.2 hfence h.fence_first
  have hordered := outline_ordered (bodyOf text) (before ++ (two :: twos ++ (one :: ones ++ [[]]))) 0 1 none
  have hnone : ∀ from_ number, outline 0 [[]] from_ number none = [] := fun _ _ => rfl
  have hentries := h.entries_exchanged hfence
  rw [hswapped, runsOutline, hnone, append_nil] at hordered
  rw [runsOutline, hnone, append_nil] at hentries
  -- the last heading of the first run would be the last of the report
  have hheading : first ∈ outline 0 (one :: ones) (leading before).length (1 + before.length) none := by
    have hmarker : markerAt 0 (leading before).length one = none := by
      rw [markerAt, if_pos (Nat.zero_le _), heading_fence (entryOf_isSome hfirst.entry)]
    rw [outline_cons, if_pos ⟨Nat.zero_le _, rfl, hmarker⟩, Nat.add_comm 1, hfirst.entry]
    simp
  obtain ⟨moved, hmoved, -⟩ := outline_again hheading ((leading before).length + (leading (two :: twos)).length)
    (1 + before.length + (two :: twos).length)
  obtain ⟨start, last, hlast⟩ : ∃ start last, outline 0 (one :: ones)
      ((leading before).length + (leading (two :: twos)).length) (1 + before.length + (two :: twos).length) none =
        start ++ [last] :=
    ⟨_, _, (dropLast_append_getLast (ne_nil_of_mem hmoved)).symm⟩
  have hlength := outline_length (one :: ones) ((leading before).length + (leading (two :: twos)).length) 0
    (1 + before.length + (two :: twos).length) 0 none
  have hlastmem : last ∈ outline 0 (one :: ones) ((leading before).length + (leading (two :: twos)).length)
      (1 + before.length + (two :: twos).length) none := by
    rw [hlast]
    simp
  have hoffset := outline_offsets hlastmem
  obtain ⟨origin, horigin, -, -, hfrom⟩ := outline_again hlastmem (leading before).length (1 + before.length)
  have hreportedOrigin : origin ∈ entries text := by
    have hindex := hsecond.index
    rw [outline_append, h.fence_before.2, Nat.zero_add, outline_body h.fence_before.1] at hindex
    rw [h.entries_eq hfence, runsOutline, ← append_assoc, take_append, take_of_length_le (by omega)]
    simp [horigin]
  obtain ⟨again, hagain, -, -, hplace⟩ := hreported origin hreportedOrigin
  rw [movedTo, if_neg (by omega), if_pos (by omega)] at hplace
  rw [hlast, ← append_assoc, ← append_assoc] at hordered
  have hfull' : maxItems ≤ (outline (bodyOf text) before 0 1 none ++ outline 0 (two :: twos) (leading before).length
      (1 + before.length) none ++ start).length := by
    rw [hlast] at hlength
    unfold runsCount at hfull
    rw [outline_length (two :: twos) 0 (leading before).length 0 (1 + before.length)] at hfull
    simp only [length_append, length_singleton] at hlength ⊢
    omega
  rw [hentries, hlast, ← append_assoc, ← append_assoc, take_append_of_le_length hfull'] at hagain
  have hbefore := (pairwise_append.mp hordered).2.2 again (mem_of_mem_take hagain) last (by simp)
  omega

end

end

end Marks
