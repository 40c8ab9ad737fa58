import Marks.Version

/-! # New receipts as ranges

The ranges cut from two versions cover each sequence number that the second version has and the first
lacks once, and no other. -/

namespace Marks

open List

structure Receipts.WellFormed (r : Receipts) : Prop where
  sorted : r.sparse.Pairwise (· < ·)
  above : ∀ sequence ∈ r.sparse, r.contiguous < sequence

structure Version.WellFormed (v : Version) : Prop where
  sites : v.receipts.Pairwise fun a b => a.site ≠ b.site
  receipts : ∀ r ∈ v.receipts, r.WellFormed

def AcceptedRange.covers (range : AcceptedRange) (site : SiteId) (sequence : Nat) : Bool :=
  range.site == site && range.first ≤ sequence && sequence ≤ range.last

def coverage (ranges : List AcceptedRange) (site : SiteId) (sequence : Nat) : Nat :=
  ranges.countP (·.covers site sequence)

def Spans (ranges : List AcceptedRange) : Prop := ∀ range ∈ ranges, 0 < range.first ∧ range.first ≤ range.last

section
variable {ranges : List AcceptedRange} {site s : SiteId} {q : Nat}

theorem coverage_append (more : List AcceptedRange) :
    coverage (ranges ++ more) s q = coverage ranges s q + coverage more s q := countP_append

theorem coverage_single (first last : Nat) :
    coverage [⟨site, first, last⟩] s q = if site = s ∧ first ≤ q ∧ q ≤ last then 1 else 0 := by
  simp [coverage, AcceptedRange.covers, and_assoc]

theorem Spans.push (h : Spans ranges) (site : SiteId) (first last : Nat) :
    Spans (pushAcceptedRange ranges site first last) := by
  unfold pushAcceptedRange
  by_cases hempty : first = 0 ∨ last < first
  · rw [if_pos hempty]
    exact h
  rw [if_neg hempty]
  have hnew : Spans (ranges ++ [⟨site, first, last⟩]) := by
    intro range hrange
    rcases mem_append.mp hrange with hold | hnew
    · exact h range hold
    · rw [mem_singleton.mp hnew]
      show 0 < first ∧ first ≤ last
      omega
  cases hlast : ranges.getLast? with
  | none => exact hnew
  | some previous =>
    simp only
    by_cases hmerge : previous.site = site ∧ previous.last + 1 = first
    · rw [if_pos hmerge]
      intro range hrange
      rcases mem_append.mp hrange with hold | hnew
      · exact h range (dropLast_subset _ hold)
      have hp := h previous (mem_of_getLast? hlast)
      rw [mem_singleton.mp hnew]
      show 0 < previous.first ∧ previous.first ≤ last
      omega
    · rw [if_neg hmerge]
      exact hnew

theorem coverage_push (h : Spans ranges) {first : Nat} (hf : 0 < first) (last : Nat) :
    coverage (pushAcceptedRange ranges site first last) s q =
      coverage ranges s q + if site = s ∧ first ≤ q ∧ q ≤ last then 1 else 0 := by
  unfold pushAcceptedRange
  by_cases hempty : first = 0 ∨ last < first
  · have hnone : ¬ (site = s ∧ first ≤ q ∧ q ≤ last) := by omega
    rw [if_pos hempty, if_neg hnone, Nat.add_zero]
  rw [if_neg hempty]
  cases hlast : ranges.getLast? with
  | none => simp only [coverage_append, coverage_single]
  | some previous =>
    simp only
    by_cases hmerge : previous.site = site ∧ previous.last + 1 = first
    · obtain ⟨front, rfl⟩ := getLast?_eq_some_iff.mp hlast
      obtain ⟨hsite, hfirst⟩ := hmerge
      have hp := h previous (mem_append_right _ (mem_singleton.mpr rfl))
      have hold : coverage [previous] s q =
          if previous.site = s ∧ previous.first ≤ q ∧ q ≤ previous.last then 1 else 0 :=
        coverage_single previous.first previous.last
      rw [if_pos ⟨hsite, hfirst⟩, dropLast_concat, coverage_append, coverage_append, coverage_single,
        hold, hsite, Nat.add_assoc]
      congr 1
      by_cases heq : site = s
      · simp only [heq, true_and]
        split_ifs <;> omega
      · simp only [heq, false_and, if_false]
    · rw [if_neg hmerge, coverage_append, coverage_single]

theorem coverage_fillGaps {contiguous : Nat} {known : List Nat} (hsorted : known.Pairwise (· < ·))
    {start : Nat} (hs : 0 < start) (h : Spans ranges) :
    Spans (fillGaps site contiguous known start ranges).2 ∧
      0 < (fillGaps site contiguous known start ranges).1 ∧
      (coverage (fillGaps site contiguous known start ranges).2 s q +
        if site = s ∧ (fillGaps site contiguous known start ranges).1 ≤ q ∧ q ≤ contiguous then 1 else 0) =
        coverage ranges s q +
          if site = s ∧ start ≤ q ∧ q ≤ contiguous ∧ q ∉ known then 1 else 0 := by
  induction known generalizing start ranges with
  | nil =>
    refine ⟨h, hs, congrArg (coverage ranges s q + ·) (if_congr ?_ rfl rfl)⟩
    simp [fillGaps]
  | cons k rest ih =>
    obtain ⟨hlater, hrest⟩ := pairwise_cons.mp hsorted
    unfold fillGaps
    by_cases hout : k < start ∨ contiguous < k
    · rw [if_pos hout]
      obtain ⟨hspans, hpos, hcount⟩ := ih hrest hs h
      refine ⟨hspans, hpos, hcount.trans ?_⟩
      congr 1
      refine if_congr ?_ rfl rfl
      rw [mem_cons]
      constructor
      · rintro ⟨hsite, hlow, hhigh, hnot⟩
        refine ⟨hsite, hlow, hhigh, fun hmem => ?_⟩
        rcases hmem with rfl | hmem
        · omega
        · exact hnot hmem
      · rintro ⟨hsite, hlow, hhigh, hnot⟩
        exact ⟨hsite, hlow, hhigh, fun hmem => hnot (Or.inr hmem)⟩
    · rw [if_neg hout]
      have hpushed : Spans (if start < k then pushAcceptedRange ranges site start (k - 1) else ranges) := by
        split
        · exact h.push _ _ _
        · exact h
      have hcover : coverage (if start < k then pushAcceptedRange ranges site start (k - 1) else ranges) s q =
          coverage ranges s q + if site = s ∧ start ≤ q ∧ q < k then 1 else 0 := by
        by_cases hgap : start < k
        · rw [if_pos hgap, coverage_push h hs]
          congr 1
          refine if_congr ?_ rfl rfl
          constructor
          · exact fun h => ⟨h.1, h.2.1, by omega⟩
          · exact fun h => ⟨h.1, h.2.1, by omega⟩
        · have hnone : ¬ (site = s ∧ start ≤ q ∧ q < k) := by omega
          rw [if_neg hgap, if_neg hnone, Nat.add_zero]
      obtain ⟨hspans, hpos, hcount⟩ := ih hrest (Nat.succ_pos k) hpushed
      refine ⟨hspans, hpos, hcount.trans ?_⟩
      rw [hcover, Nat.add_assoc]
      congr 1
      have hbelow : q ≤ k → q ∉ rest := fun hle hmem => by
        have := hlater q hmem
        omega
      by_cases hsite : site = s
      · by_cases hmem : q ∈ rest
        · have hq := hlater q hmem
          have hnone : ¬ (start ≤ q ∧ q < k) := by omega
          simp [hsite, hmem, hnone]
        · simp only [hsite, mem_cons, hmem, true_and, or_false, not_false_iff, and_true]
          split_ifs <;> omega
      · simp [hsite]

end

section
variable {before : Version} {ranges : List AcceptedRange} {r : Receipts} {s : SiteId} {q : Nat}

theorem coverage_contiguous (hb : before.WellFormed) (h : Spans ranges) (hq : 0 < q) :
    let filled := fillGaps r.site r.contiguous
      (match before.find r.site with
        | some known => known.sparse
        | none => []) (before.observed r.site + 1) ranges
    let next := if before.observed r.site + 1 ≤ r.contiguous then
      if filled.1 ≤ r.contiguous then pushAcceptedRange filled.2 r.site filled.1 r.contiguous else filled.2
      else ranges
    Spans next ∧ coverage next s q = coverage ranges s q +
      if r.site = s ∧ q ≤ r.contiguous ∧ before.contains r.site q = false then 1 else 0 := by
  intro filled next
  have hsorted : (match before.find r.site with
      | some known => known.sparse
      | none => []).Pairwise (· < ·) := by
    cases hfind : before.find r.site with
    | none => exact List.Pairwise.nil
    | some known => exact (hb.receipts known (mem_of_find?_eq_some hfind)).sorted
  have hcontains : before.contains r.site q = false ↔ before.observed r.site + 1 ≤ q ∧
      q ∉ (match before.find r.site with
        | some known => known.sparse
        | none => []) := by
    unfold Version.contains Version.observed
    cases hfind : before.find r.site with
    | none => grind
    | some known => grind
  obtain ⟨hspans, hpos, hcount⟩ :=
    @coverage_fillGaps ranges r.site s q r.contiguous _ hsorted (before.observed r.site + 1)
      (Nat.succ_pos _) h
  by_cases hnew : before.observed r.site + 1 ≤ r.contiguous
  · have htotal : coverage ranges s q + (if r.site = s ∧ before.observed r.site + 1 ≤ q ∧
        q ≤ r.contiguous ∧ q ∉ (match before.find r.site with
          | some known => known.sparse
          | none => []) then 1 else 0) = coverage ranges s q +
        if r.site = s ∧ q ≤ r.contiguous ∧ before.contains r.site q = false then 1 else 0 := by
      congr 1
      refine if_congr ?_ rfl rfl
      rw [hcontains]
      exact ⟨fun h => ⟨h.1, h.2.2.1, h.2.1, h.2.2.2⟩, fun h => ⟨h.1, h.2.2.1, h.2.1, h.2.2.2⟩⟩
    by_cases hleft : filled.1 ≤ r.contiguous
    · have hnext : next = pushAcceptedRange filled.2 r.site filled.1 r.contiguous := by
        simp only [next, if_pos hnew, if_pos hleft]
      rw [hnext]
      refine ⟨hspans.push _ _ _, ?_⟩
      rw [coverage_push hspans hpos]
      exact hcount.trans htotal
    · have hnext : next = filled.2 := by simp only [next, if_pos hnew, if_neg hleft]
      rw [hnext]
      refine ⟨hspans, ?_⟩
      have hnone : ¬ (r.site = s ∧ filled.1 ≤ q ∧ q ≤ r.contiguous) := by omega
      rw [if_neg hnone, Nat.add_zero] at hcount
      exact hcount.trans htotal
  · have hnext : next = ranges := by simp only [next, if_neg hnew]
    rw [hnext]
    refine ⟨h, ?_⟩
    rw [if_neg, Nat.add_zero]
    rintro ⟨-, hle, hlacks⟩
    have := (hcontains.mp hlacks).1
    omega

theorem coverage_sparse {sparse : List Nat} (hnodup : sparse.Pairwise (· < ·)) (hpos : ∀ x ∈ sparse, 0 < x)
    (h : Spans ranges) (site : SiteId) :
    let next := sparse.foldl (fun ranges sequence =>
      if before.contains site sequence then ranges
      else pushAcceptedRange ranges site sequence sequence) ranges
    Spans next ∧ coverage next s q = coverage ranges s q +
      if site = s ∧ q ∈ sparse ∧ before.contains site q = false then 1 else 0 := by
  induction sparse generalizing ranges with
  | nil => exact ⟨h, by simp⟩
  | cons x sparse ih =>
    obtain ⟨hlater, hrest⟩ := pairwise_cons.mp hnodup
    have hposr : ∀ y ∈ sparse, 0 < y := fun y hy => hpos y (mem_cons_of_mem x hy)
    simp only [foldl_cons]
    by_cases hknown : before.contains site x = true
    · rw [if_pos hknown]
      obtain ⟨hspans, hcount⟩ := ih hrest hposr h
      refine ⟨hspans, hcount.trans ?_⟩
      congr 1
      refine if_congr ?_ rfl rfl
      rw [mem_cons]
      constructor
      · rintro ⟨hsite, hmem, hlacks⟩
        exact ⟨hsite, Or.inr hmem, hlacks⟩
      rintro ⟨hsite, hmem, hlacks⟩
      rcases hmem with rfl | hmem
      · rw [hknown] at hlacks
        cases hlacks
      · exact ⟨hsite, hmem, hlacks⟩
    · rw [if_neg hknown]
      obtain ⟨hspans, hcount⟩ := ih hrest hposr (h.push site x x)
      refine ⟨hspans, hcount.trans ?_⟩
      rw [coverage_push h (hpos x mem_cons_self), Nat.add_assoc]
      congr 1
      have hlacks : before.contains site x = false := by simpa using hknown
      by_cases hsite : site = s
      · subst hsite
        by_cases hx : q = x
        · have hnot : q ∉ sparse := fun hmem => by
            have := hlater q hmem
            omega
          subst hx
          simp [hnot, hlacks]
        · have hne : ¬ (x ≤ q ∧ q ≤ x) := by omega
          simp [hx, hne]
      · simp [hsite]

theorem coverage_site (hb : before.WellFormed) (hr : r.WellFormed) (h : Spans ranges) (hq : 0 < q) :
    Spans (siteReceiptRanges before ranges r) ∧
      coverage (siteReceiptRanges before ranges r) s q = coverage ranges s q +
        if r.site = s ∧ (q ≤ r.contiguous ∨ q ∈ r.sparse) ∧ before.contains r.site q = false then 1
        else 0 := by
  obtain ⟨hspans, hcontiguous⟩ := @coverage_contiguous before ranges r s q hb h hq
  have hpos : ∀ x ∈ r.sparse, 0 < x := fun x hx => Nat.lt_of_le_of_lt (Nat.zero_le _) (hr.above x hx)
  obtain ⟨hspans', hsparse⟩ := @coverage_sparse before _ s q r.sparse hr.sorted hpos hspans r.site
  refine ⟨hspans', hsparse.trans ?_⟩
  rw [hcontiguous, Nat.add_assoc]
  congr 1
  by_cases hmem : q ∈ r.sparse
  · have := hr.above q hmem
    have hnot : ¬ q ≤ r.contiguous := by omega
    simp [hmem, hnot]
  · simp [hmem]

end

theorem contains_iff {v : Version} (hv : v.WellFormed) {s : SiteId} {q : Nat} :
    v.contains s q = true ↔ ∃ r ∈ v.receipts, r.site = s ∧ (q ≤ r.contiguous ∨ q ∈ r.sparse) := by
  unfold Version.contains
  constructor
  · intro h
    cases hfind : v.find s with
    | none => rw [hfind] at h; cases h
    | some r =>
      rw [hfind] at h
      refine ⟨r, mem_of_find?_eq_some hfind, by simpa using find?_some hfind, ?_⟩
      simpa using h
  · rintro ⟨r, hr, hsite, hin⟩
    have hfind : v.find s = some r := by
      unfold Version.find
      obtain ⟨front, back, hsplit⟩ := append_of_mem hr
      have hsites := hv.sites
      rw [hsplit] at hsites
      rw [hsplit, find?_append, find?_eq_none.mpr, Option.none_or,
        find?_cons_of_pos (by simpa using hsite)]
      intro x hx heq
      exact (pairwise_append.mp hsites).2.2 x hx r mem_cons_self (by simpa [hsite] using heq)
    rw [hfind]
    simpa using hin

theorem coverage_sites {before : Version} (hb : before.WellFormed) {s : SiteId} {q : Nat} (hq : 0 < q)
    {receipts : List Receipts} (hsites : receipts.Pairwise fun a b => a.site ≠ b.site)
    (hwf : ∀ r ∈ receipts, r.WellFormed) {ranges : List AcceptedRange} (h : Spans ranges) :
    Spans (receipts.foldl (siteReceiptRanges before) ranges) ∧
      coverage (receipts.foldl (siteReceiptRanges before) ranges) s q = coverage ranges s q +
        if (∃ r ∈ receipts, r.site = s ∧ (q ≤ r.contiguous ∨ q ∈ r.sparse)) ∧
          before.contains s q = false then 1 else 0 := by
  induction receipts generalizing ranges with
  | nil => exact ⟨h, by simp⟩
  | cons r receipts ih =>
    obtain ⟨hother, hsites'⟩ := pairwise_cons.mp hsites
    obtain ⟨hspans, hcount⟩ := @coverage_site before ranges r s q hb (hwf r mem_cons_self) h hq
    obtain ⟨hspans', hcount'⟩ := ih hsites' (fun r' hr' => hwf r' (mem_cons_of_mem r hr')) hspans
    refine ⟨hspans', hcount'.trans ?_⟩
    rw [hcount, Nat.add_assoc]
    congr 1
    by_cases hsite : r.site = s
    · have hnone : ¬ ∃ r' ∈ receipts, r'.site = s ∧ (q ≤ r'.contiguous ∨ q ∈ r'.sparse) := by
        rintro ⟨r', hr', hsite', -⟩
        exact hother r' hr' (hsite.trans hsite'.symm)
      simp [hsite, hnone]
    · simp [hsite]

theorem newReceiptRanges_coverage {before after : Version} (hb : before.WellFormed) (ha : after.WellFormed)
    {s : SiteId} {q : Nat} (hq : 0 < q) :
    Spans (newReceiptRanges before after) ∧ coverage (newReceiptRanges before after) s q =
      if after.contains s q = true ∧ before.contains s q = false then 1 else 0 := by
  obtain ⟨hspans, hcount⟩ :=
    @coverage_sites before hb s q hq after.receipts ha.sites ha.receipts [] fun _ h => by cases h
  refine ⟨hspans, hcount.trans ?_⟩
  simp only [contains_iff ha, coverage, countP_nil, Nat.zero_add]

/-! ## Apart and in order -/

def Coalesced (ranges : List AcceptedRange) : Prop :=
  ranges.Pairwise fun a b => a.site = b.site → a.last + 1 < b.first

structure Rising (site : SiteId) (bound : Nat) (ranges : List AcceptedRange) : Prop where
  spans : Spans ranges
  site : ∀ range ∈ ranges, range.site = site
  below : ∀ range ∈ ranges, range.last < bound
  coalesced : Coalesced ranges

section
variable {before : Version} {old ranges : List AcceptedRange} {site : SiteId} {first last bound contiguous : Nat}
  {known sparse : List Nat}

theorem Rising.mono {more : Nat} (h : Rising site bound ranges) (hle : bound ≤ more) : Rising site more ranges :=
  ⟨h.spans, h.site, fun range hm => Nat.lt_of_lt_of_le (h.below range hm) hle, h.coalesced⟩

theorem Rising.push (h : Rising site bound ranges) (hbound : bound ≤ first) :
    Rising site (max bound (last + 1)) (pushAcceptedRange ranges site first last) := by
  suffices hparts : (∀ range ∈ pushAcceptedRange ranges site first last, range.site = site) ∧
      (∀ range ∈ pushAcceptedRange ranges site first last, range.last < max bound (last + 1)) ∧
      Coalesced (pushAcceptedRange ranges site first last) from
    ⟨h.spans.push _ _ _, hparts.1, hparts.2.1, hparts.2.2⟩
  unfold pushAcceptedRange
  by_cases hempty : first = 0 ∨ last < first
  · rw [if_pos hempty]
    have hsame := h.mono (Nat.le_max_left bound (last + 1))
    exact ⟨hsame.site, hsame.below, hsame.coalesced⟩
  rw [if_neg hempty]
  have hnew : (∀ a ∈ ranges, a.last + 1 < first) → Rising site (max bound (last + 1)) (ranges ++ [⟨site, first, last⟩]) := by
    intro hgap
    refine ⟨?_, ?_, ?_, ?_⟩
    · intro range hm
      rcases mem_append.mp hm with hm | hm
      · exact h.spans range hm
      · rw [mem_singleton.mp hm]
        show 0 < first ∧ first ≤ last
        omega
    · intro range hm
      rcases mem_append.mp hm with hm | hm
      · exact h.site range hm
      · rw [mem_singleton.mp hm]
    · intro range hm
      rcases mem_append.mp hm with hm | hm
      · have := h.below range hm
        omega
      · rw [mem_singleton.mp hm]
        show last < _
        omega
    · refine pairwise_append.mpr ⟨h.coalesced, pairwise_singleton _ _, fun a ha b hb _ => ?_⟩
      rw [mem_singleton.mp hb]
      exact hgap a ha
  cases hlast : ranges.getLast? with
  | none =>
    rw [getLast?_eq_none_iff.mp hlast] at hnew ⊢
    have hsame := hnew fun _ hm => (by cases hm)
    exact ⟨hsame.site, hsame.below, hsame.coalesced⟩
  | some previous =>
    obtain ⟨front, rfl⟩ := getLast?_eq_some_iff.mp hlast
    have hlater := (pairwise_append.mp h.coalesced).2.2
    have hprevious := h.site previous (mem_append_right _ mem_cons_self)
    have hspan := h.spans previous (mem_append_right _ mem_cons_self)
    have hbelow := h.below previous (mem_append_right _ mem_cons_self)
    simp only
    by_cases hmerge : previous.site = site ∧ previous.last + 1 = first
    · rw [if_pos hmerge, dropLast_concat]
      refine ⟨?_, ?_, ?_⟩
      · intro range hm
        rcases mem_append.mp hm with hm | hm
        · exact h.site range (mem_append_left _ hm)
        · rw [mem_singleton.mp hm]
          exact hprevious
      · intro range hm
        rcases mem_append.mp hm with hm | hm
        · have := h.below range (mem_append_left _ hm)
          omega
        · rw [mem_singleton.mp hm]
          show last < _
          omega
      · refine pairwise_append.mpr
          ⟨(pairwise_append.mp h.coalesced).1, pairwise_singleton _ _, fun a ha b hb hsite => ?_⟩
        rw [mem_singleton.mp hb] at hsite ⊢
        exact hlater a ha previous mem_cons_self hsite
    · rw [if_neg hmerge]
      have hsame := hnew fun a hm => by
        rcases mem_append.mp hm with hm | hm
        · have hsite := (h.site a (mem_append_left _ hm)).trans hprevious.symm
          have := hlater a hm previous mem_cons_self hsite
          omega
        · rw [mem_singleton.mp hm]
          have : previous.last + 1 ≠ first := fun heq => hmerge ⟨hprevious, heq⟩
          omega
      exact ⟨hsame.site, hsame.below, hsame.coalesced⟩

theorem Rising.fillGaps {start : Nat} (hsorted : known.Pairwise (· < ·)) (h : Rising site start ranges)
    (hstart : start ≤ contiguous + 1) :
    Rising site (fillGaps site contiguous known start ranges).1 (fillGaps site contiguous known start ranges).2 ∧
      (fillGaps site contiguous known start ranges).1 ≤ contiguous + 1 := by
  induction known generalizing start ranges with
  | nil => exact ⟨h, hstart⟩
  | cons k known ih =>
    obtain ⟨_, hrest⟩ := pairwise_cons.mp hsorted
    unfold Marks.fillGaps
    by_cases hout : k < start ∨ contiguous < k
    · rw [if_pos hout]
      exact ih hrest h hstart
    rw [if_neg hout]
    refine ih hrest ?_ (by omega)
    by_cases hgap : start < k
    · rw [if_pos hgap]
      exact (h.push (Nat.le_refl _)).mono (by omega)
    · rw [if_neg hgap]
      exact h.mono (by omega)

theorem Rising.above (hsorted : sparse.Pairwise (· < ·)) (habove : ∀ sequence ∈ sparse, bound ≤ sequence)
    (h : Rising site bound ranges) :
    Coalesced (sparse.foldl (fun ranges sequence =>
        if before.contains site sequence then ranges else pushAcceptedRange ranges site sequence sequence) ranges) ∧
      ∀ range ∈ sparse.foldl (fun ranges sequence =>
        if before.contains site sequence then ranges else pushAcceptedRange ranges site sequence sequence) ranges,
        range.site = site := by
  induction sparse generalizing bound ranges with
  | nil => exact ⟨h.coalesced, h.site⟩
  | cons sequence sparse ih =>
    obtain ⟨hlater, hrest⟩ := pairwise_cons.mp hsorted
    have hbound := habove sequence mem_cons_self
    rw [foldl_cons]
    refine @ih _ (sequence + 1) hrest hlater ?_
    by_cases hknown : before.contains site sequence = true
    · rw [if_pos hknown]
      exact h.mono (by omega)
    · rw [if_neg hknown]
      exact (h.push hbound).mono (by omega)

theorem siteReceiptRanges_coalesced {r : Receipts} (hb : before.WellFormed) (hr : r.WellFormed) :
    Coalesced (siteReceiptRanges before [] r) ∧ ∀ range ∈ siteReceiptRanges before [] r, range.site = r.site := by
  have hnone : ∀ bound, Rising r.site bound [] := fun bound =>
    ⟨fun _ hm => (by cases hm), fun _ hm => (by cases hm), fun _ hm => (by cases hm), List.Pairwise.nil⟩
  have hsorted : (match before.find r.site with
      | some known => known.sparse
      | none => []).Pairwise (· < ·) := by
    cases hfind : before.find r.site with
    | none => exact List.Pairwise.nil
    | some known => exact (hb.receipts known (mem_of_find?_eq_some hfind)).sorted
  have hdone : ∀ filled : Nat × List AcceptedRange, Rising r.site filled.1 filled.2 → filled.1 ≤ r.contiguous + 1 →
      Rising r.site (r.contiguous + 1)
        (if filled.1 ≤ r.contiguous then pushAcceptedRange filled.2 r.site filled.1 r.contiguous else filled.2) := by
    intro filled hfilled hle
    split
    · exact (hfilled.push (Nat.le_refl _)).mono (Nat.max_le.mpr ⟨hle, Nat.le_refl _⟩)
    · exact hfilled.mono hle
  refine @Rising.above before _ r.site (r.contiguous + 1) r.sparse hr.sorted hr.above ?_
  by_cases hmissing : before.observed r.site + 1 ≤ r.contiguous
  · obtain ⟨hfilled, hle⟩ := @Rising.fillGaps _ _ r.contiguous _ _ hsorted (hnone _) (Nat.le_succ_of_le hmissing)
    rw [if_pos hmissing]
    exact hdone _ hfilled hle
  · rw [if_neg hmissing]
    exact hnone _

/-! ### Ranges of other sites stay -/

theorem pushAcceptedRange_behind (hold : ∀ range ∈ old, range.site ≠ site) :
    pushAcceptedRange (old ++ ranges) site first last = old ++ pushAcceptedRange ranges site first last := by
  unfold pushAcceptedRange
  split
  · rfl
  rcases eq_nil_or_concat ranges with rfl | ⟨front, previous, rfl⟩
  · rw [append_nil]
    cases hlast : old.getLast? with
    | none => rfl
    | some previous =>
      simp only
      rw [if_neg fun hmerge => hold previous (mem_of_getLast? hlast) hmerge.1]
      rfl
  · rw [concat_eq_append, ← append_assoc, getLast?_concat, getLast?_concat]
    simp only
    split
    · rw [dropLast_concat, dropLast_concat, append_assoc]
    · simp only [append_assoc]

theorem fillGaps_behind {start : Nat} (hold : ∀ range ∈ old, range.site ≠ site) :
    fillGaps site contiguous known start (old ++ ranges) =
      ((fillGaps site contiguous known start ranges).1, old ++ (fillGaps site contiguous known start ranges).2) := by
  induction known generalizing start ranges with
  | nil => rfl
  | cons k known ih =>
    unfold fillGaps
    split
    · exact ih
    split
    · rw [pushAcceptedRange_behind hold]
      exact ih
    · exact ih

theorem sparse_behind (hold : ∀ range ∈ old, range.site ≠ site) :
    sparse.foldl (fun ranges sequence =>
        if before.contains site sequence then ranges else pushAcceptedRange ranges site sequence sequence) (old ++ ranges) =
      old ++ sparse.foldl (fun ranges sequence =>
        if before.contains site sequence then ranges else pushAcceptedRange ranges site sequence sequence) ranges := by
  induction sparse generalizing ranges with
  | nil => rfl
  | cons sequence sparse ih =>
    rw [foldl_cons, foldl_cons]
    split
    · exact ih
    · rw [pushAcceptedRange_behind hold]
      exact ih

theorem siteReceiptRanges_behind {r : Receipts} (hold : ∀ range ∈ old, range.site ≠ r.site) :
    siteReceiptRanges before old r = old ++ siteReceiptRanges before [] r := by
  unfold siteReceiptRanges
  have hfill := @fillGaps_behind old [] r.site r.contiguous
  simp only [append_nil] at hfill
  simp only
  by_cases hmissing : before.observed r.site + 1 ≤ r.contiguous
  · rw [if_pos hmissing, if_pos hmissing, hfill hold]
    simp only
    rw [pushAcceptedRange_behind hold, ← apply_ite (old ++ ·), sparse_behind hold]
  · rw [if_neg hmissing, if_neg hmissing, ← sparse_behind hold, append_nil]

theorem sites_coalesced {receipts : List Receipts} (hb : before.WellFormed)
    (hsites : receipts.Pairwise fun a b => a.site ≠ b.site) (hwf : ∀ r ∈ receipts, r.WellFormed)
    (hold : ∀ range ∈ old, ∀ r ∈ receipts, range.site ≠ r.site) (h : Coalesced old) :
    Coalesced (receipts.foldl (siteReceiptRanges before) old) := by
  induction receipts generalizing old with
  | nil => exact h
  | cons r receipts ih =>
    obtain ⟨hother, hrest⟩ := pairwise_cons.mp hsites
    obtain ⟨hcoalesced, hsite⟩ := siteReceiptRanges_coalesced hb (hwf r mem_cons_self)
    rw [foldl_cons, siteReceiptRanges_behind fun range hm => hold range hm r mem_cons_self]
    refine ih hrest (fun other hm => hwf other (mem_cons_of_mem _ hm)) (fun range hm other ho => ?_) ?_
    · rcases mem_append.mp hm with hm | hm
      · exact hold range hm other (mem_cons_of_mem _ ho)
      · rw [hsite range hm]
        exact hother other ho
    · refine pairwise_append.mpr ⟨h, hcoalesced, fun a ha b hb heq => ?_⟩
      exact absurd (heq.trans (hsite b hb)) (hold a ha r mem_cons_self)

end

/-- The ranges are not empty, ascend without meeting, and hold what the second version has and the first lacks. -/
theorem newReceiptRanges_exact {before after : Version} (hb : before.WellFormed) (ha : after.WellFormed) :
    Spans (newReceiptRanges before after) ∧ Coalesced (newReceiptRanges before after) ∧
      ∀ site sequence, (∃ range ∈ newReceiptRanges before after, range.covers site sequence = true) ↔
        0 < sequence ∧ after.contains site sequence = true ∧ before.contains site sequence = false := by
  have hspans := (@newReceiptRanges_coverage before after hb ha 0 1 Nat.one_pos).1
  refine ⟨hspans, sites_coalesced hb ha.sites ha.receipts (fun _ hm => (by cases hm)) List.Pairwise.nil,
    fun site sequence => ?_⟩
  rcases Nat.eq_zero_or_pos sequence with rfl | hpos
  · refine ⟨fun ⟨range, hm, hcovers⟩ => ?_, fun h => absurd h.1 (Nat.lt_irrefl 0)⟩
    have hfirst := (hspans range hm).1
    simp only [AcceptedRange.covers, Bool.and_eq_true, decide_eq_true_eq] at hcovers
    omega
  · have hcount := (@newReceiptRanges_coverage before after hb ha site sequence hpos).2
    have hsome : (∃ range ∈ newReceiptRanges before after, range.covers site sequence = true) ↔
        0 < coverage (newReceiptRanges before after) site sequence := countP_pos_iff.symm
    rw [hsome, hcount]
    refine ⟨fun h => ?_, fun h => ?_⟩
    · split at h
      · rename_i hnew
        exact ⟨hpos, hnew⟩
      · exact absurd h (Nat.lt_irrefl 0)
    · rw [if_pos h.2]
      exact Nat.one_pos

end Marks
