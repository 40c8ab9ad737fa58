import Mathlib.Data.List.Nodup
import Marks.Operations
import Marks.SectionsSound

/-! # Siblings

The sections of a report are nested like brackets. From this follows which section an exchange takes for the neighbour
of another: above it always the one that ends where it begins, and below it the one that begins where it ends, if that
has its level. -/

namespace Marks

open JsString List

structure Sectioned (stop : Nat) (headings : List IntelligenceHeading) : Prop where
  ordered : headings.Pairwise (·.sectionFrom < ·.sectionFrom)
  within : ∀ a ∈ headings, a.sectionFrom < a.sectionTo ∧ a.sectionTo ≤ stop
  below : ∀ a ∈ headings, ∀ b ∈ headings, a.sectionFrom < b.sectionFrom → b.sectionFrom < a.sectionTo → a.level < b.level
  closed : ∀ a ∈ headings, a.sectionTo = stop ∨ ∃ b ∈ headings, b.sectionFrom = a.sectionTo ∧ b.level ≤ a.level

/-! ## Reports are sectioned -/

theorem closeSections_back {stop : Nat} {headings : List IntelligenceHeading} {b : IntelligenceHeading}
    (h : b ∈ closeSections stop headings) : ∃ c ∈ headings, c.entry = b.entry := by
  have hmem := mem_map_of_mem (f := IntelligenceHeading.entry) h
  rw [closeSections_entries] at hmem
  exact mem_map.mp hmem

theorem closeSections_mem {headings : List IntelligenceHeading} {c : IntelligenceHeading} (h : c ∈ headings)
    (stop : Nat) : ∃ b ∈ closeSections stop headings, b.entry = c.entry := by
  have hmem := mem_map_of_mem (f := IntelligenceHeading.entry) h
  rw [← closeSections_entries stop] at hmem
  exact mem_map.mp hmem

theorem entry_from {a b : IntelligenceHeading} (h : a.entry = b.entry) : a.sectionFrom = b.sectionFrom :=
  congrArg OutlineEntry.from_ h

theorem entry_level {a b : IntelligenceHeading} (h : a.entry = b.entry) : a.level = b.level :=
  congrArg OutlineEntry.level h

theorem closeSections_sectioned {stop : Nat} {headings : List IntelligenceHeading}
    (hordered : headings.Pairwise (·.sectionFrom < ·.sectionFrom)) (hwithin : ∀ a ∈ headings, a.sectionFrom < stop) :
    Sectioned stop (closeSections stop headings) := by
  induction headings with
  | nil => exact ⟨List.Pairwise.nil, by simp [closeSections], by simp [closeSections], by simp [closeSections]⟩
  | cons heading rest ih =>
    rw [pairwise_cons] at hordered
    rw [forall_mem_cons] at hwithin
    obtain ⟨hrest, hrange, hbelow, hclosed⟩ := ih hordered.2 hwithin.2
    have hunfold : closeSections stop (heading :: rest) =
        { heading with
          sectionTo := ((rest.find? (·.level ≤ heading.level)).map (·.sectionFrom)).getD stop } ::
        closeSections stop rest := rfl
    have hafter : ∀ b ∈ closeSections stop rest, heading.sectionFrom < b.sectionFrom := by
      intro b hb
      obtain ⟨c, hc, hentry⟩ := closeSections_back hb
      rw [← entry_from hentry]
      exact hordered.1 c hc
    rw [hunfold]
    generalize hto : ((rest.find? (·.level ≤ heading.level)).map (·.sectionFrom)).getD stop = to_
    -- what the search for the end of the first section gives
    have hfound : (heading.sectionFrom < to_ ∧ to_ ≤ stop) ∧
        (∀ c ∈ rest, c.sectionFrom < to_ → heading.level < c.level) ∧
        (to_ = stop ∨ ∃ c ∈ rest, c.sectionFrom = to_ ∧ c.level ≤ heading.level) := by
      rw [← hto]
      cases hnext : rest.find? (·.level ≤ heading.level) with
      | none =>
        refine ⟨⟨hwithin.1, Nat.le_refl _⟩, fun c hc _ => ?_, Or.inl rfl⟩
        have hnot := find?_eq_none.mp hnext c hc
        rw [decide_eq_true_eq] at hnot
        omega
      | some next =>
        obtain ⟨hlevel, before, after, rfl, hbefore⟩ := find?_eq_some_iff_append.mp hnext
        have hmem : next ∈ before ++ next :: after := by simp
        refine ⟨⟨hordered.1 next hmem, Nat.le_of_lt (hwithin.2 next hmem)⟩, fun c hc hlt => ?_,
          Or.inr ⟨next, hmem, rfl, of_decide_eq_true hlevel⟩⟩
        rcases mem_append.mp hc with hc | hc
        · have hnot := hbefore c hc
          rw [Bool.not_eq_true', decide_eq_false_iff_not] at hnot
          omega
        have hle : next.sectionFrom ≤ c.sectionFrom := by
          rcases mem_cons.mp hc with rfl | hc
          · exact Nat.le_refl _
          · have hpair := (pairwise_append.mp hordered.2).2.1
            exact Nat.le_of_lt ((pairwise_cons.mp hpair).1 c hc)
        have hlt' : c.sectionFrom < next.sectionFrom := hlt
        omega
    obtain ⟨hin, hlevels, hend⟩ := hfound
    refine ⟨pairwise_cons.mpr ⟨hafter, hrest⟩, forall_mem_cons.mpr ⟨hin, hrange⟩, ?_, ?_⟩
    · intro a ha b hb hlt hinside
      rcases mem_cons.mp ha with rfl | ha
      · rcases mem_cons.mp hb with rfl | hb
        · omega
        · obtain ⟨c, hc, hentry⟩ := closeSections_back hb
          rw [← entry_level hentry]
          exact hlevels c hc (by rw [entry_from hentry]; exact hinside)
      · rcases mem_cons.mp hb with rfl | hb
        · exact absurd hlt (Nat.lt_asymm (hafter a ha))
        · exact hbelow a ha b hb hlt hinside
    · intro a ha
      rcases mem_cons.mp ha with rfl | ha
      · refine hend.imp_right ?_
        rintro ⟨c, hc, hfrom, hlevel⟩
        obtain ⟨b, hb, hentry⟩ := closeSections_mem hc stop
        exact ⟨b, mem_cons_of_mem _ hb, by rw [entry_from hentry]; exact hfrom, by rw [entry_level hentry]; exact hlevel⟩
      · refine (hclosed a ha).imp_right ?_
        rintro ⟨b, hb, hfacts⟩
        exact ⟨b, mem_cons_of_mem _ hb, hfacts⟩

theorem headingsOf_sectioned (text : JsString) : Sectioned text.length (headingsOf text) := by
  have hentries : entries text = (collectHeadings text.length (bodyOf text) (scanLines text (bodyOf text))).map
      IntelligenceHeading.entry := closeSections_entries _ _
  have hordered := entries_ordered text
  rw [hentries, pairwise_map] at hordered
  refine closeSections_sectioned hordered fun a ha => ?_
  have hmem : a.entry ∈ entries text := by
    rw [hentries]
    exact mem_map_of_mem ha
  exact entries_within hmem

/-! ## Nesting -/

section
variable {stop : Nat} {headings : List IntelligenceHeading} {a b selected other : IntelligenceHeading}

theorem Sectioned.unique (h : Sectioned stop headings) (ha : a ∈ headings) (hb : b ∈ headings)
    (hfrom : a.sectionFrom = b.sectionFrom) : a = b := by
  have hdistinct : (headings.map (·.sectionFrom)).Nodup :=
    pairwise_map.mpr (h.ordered.imp fun hlt => Nat.ne_of_lt hlt)
  exact inj_on_of_nodup_map hdistinct ha hb hfrom

theorem Sectioned.nested (h : Sectioned stop headings) (ha : a ∈ headings) (hb : b ∈ headings)
    (hlt : a.sectionFrom < b.sectionFrom) (hinside : b.sectionFrom < a.sectionTo) : b.sectionTo ≤ a.sectionTo := by
  have hlevel := h.below a ha b hb hlt hinside
  rcases h.closed a ha with hend | ⟨c, hc, hfrom, hle⟩
  · rw [hend]
    exact (h.within b hb).2
  · by_contra hnot
    have hdeep := h.below b hb c hc (by omega) (by omega)
    omega

theorem Sectioned.behind (h : Sectioned stop headings) (ha : a ∈ headings) (hb : b ∈ headings)
    (hlt : a.sectionFrom < b.sectionFrom) (hlevel : b.level ≤ a.level) : a.sectionTo ≤ b.sectionFrom := by
  by_contra hnot
  have hdeep := h.below a ha b hb hlt (by omega)
  omega

theorem Sectioned.sectionTo_eq (h : Sectioned stop headings) (ha : a ∈ headings) {end_ : Nat} (hlt : a.sectionFrom < end_)
    (hend : end_ = stop ∨ ∃ b ∈ headings, b.sectionFrom = end_ ∧ b.level ≤ a.level) (hle : end_ ≤ stop)
    (hbelow : ∀ b ∈ headings, a.sectionFrom < b.sectionFrom → b.sectionFrom < end_ → a.level < b.level) :
    a.sectionTo = end_ := by
  apply Nat.le_antisymm
  · rcases hend with rfl | ⟨b, hb, rfl, hlevel⟩
    · exact (h.within a ha).2
    · exact h.behind ha hb hlt hlevel
  rcases h.closed a ha with hstop | ⟨b, hb, hfrom, hlevel⟩
  · rw [hstop]
    exact hle
  · by_contra hnot
    have hdeep := hbelow b hb (by have := (h.within a ha).1; omega) (by omega)
    omega

/-! ## The scope of a heading -/

def isParent (selected candidate : IntelligenceHeading) : Bool :=
  candidate.sectionFrom < selected.sectionFrom && selected.sectionTo ≤ candidate.sectionTo &&
    candidate.level < selected.level

theorem isParent_iff : isParent selected a = true ↔
    a.sectionFrom < selected.sectionFrom ∧ selected.sectionTo ≤ a.sectionTo ∧ a.level < selected.level := by
  simp [isParent, and_assoc]

theorem Sectioned.parent_exists (h : Sectioned stop headings) (hselected : selected ∈ headings) (hb : b ∈ headings)
    (hlt : b.sectionFrom < selected.sectionFrom) (hlevel : b.level < selected.level) :
    ∃ k ∈ headings, b.sectionFrom ≤ k.sectionFrom ∧ isParent selected k = true := by
  generalize hdistance : selected.sectionFrom - b.sectionFrom = distance
  induction distance using Nat.strong_induction_on generalizing b with
  | _ distance ih =>
    by_cases hinside : selected.sectionFrom < b.sectionTo
    · exact ⟨b, hb, Nat.le_refl _, isParent_iff.mpr ⟨hlt, h.nested hb hselected hlt hinside, hlevel⟩⟩
    have hfurther := (h.within b hb).1
    rcases h.closed b hb with hstop | ⟨c, hc, hfrom, hle⟩
    · have hwithin := h.within selected hselected
      omega
    -- the section of `b` ends at a heading that is no deeper
    have hne : c.sectionFrom ≠ selected.sectionFrom := by
      intro heq
      rw [h.unique hc hselected heq] at hle
      omega
    obtain ⟨k, hk, hbehind, hparent⟩ :=
      ih (selected.sectionFrom - c.sectionFrom) (by omega) hc (by omega) (by omega) rfl
    exact ⟨k, hk, by omega, hparent⟩

theorem sectionParent_some (h : sectionParent headings selected = some a) :
    a ∈ headings ∧ isParent selected a = true :=
  ⟨mem_reverse.mp (mem_of_find?_eq_some h), find?_some (p := isParent selected) h⟩

theorem Sectioned.parent_last (h : Sectioned stop headings) (hb : b ∈ headings) (hparent : isParent selected b = true) :
    ∃ k, sectionParent headings selected = some k ∧ b.sectionFrom ≤ k.sectionFrom := by
  cases hfound : sectionParent headings selected with
  | none =>
    have hnot := find?_eq_none.mp hfound b (mem_reverse.mpr hb)
    exact absurd hparent hnot
  | some k =>
    refine ⟨k, rfl, ?_⟩
    obtain ⟨-, before, after, hsplit, hbefore⟩ := find?_eq_some_iff_append.mp hfound
    have hordered := pairwise_reverse.mpr h.ordered
    rw [hsplit, pairwise_append] at hordered
    have hmem : b ∈ before ++ k :: after := by
      rw [← hsplit]
      exact mem_reverse.mpr hb
    rcases mem_append.mp hmem with hmem | hmem
    · have hnot := hbefore b hmem
      have hparent' : (b.sectionFrom < selected.sectionFrom && selected.sectionTo ≤ b.sectionTo &&
        b.level < selected.level) = true := hparent
      rw [hparent'] at hnot
      cases hnot
    · rcases mem_cons.mp hmem with rfl | hmem
      · exact Nat.le_refl _
      · exact Nat.le_of_lt ((pairwise_cons.mp hordered.2.1).1 b hmem)

/-! ## The neighbour -/

theorem neighbor_split {before after : List IntelligenceHeading}
    (hbefore : ∀ c ∈ before, c.sectionFrom ≠ selected.sectionFrom) :
    neighbor (before ++ selected :: after) selected .up = before.getLast? ∧
      neighbor (before ++ selected :: after) selected .down = after.head? := by
  have hposition : (before ++ selected :: after).findIdx? (·.sectionFrom == selected.sectionFrom) =
      some before.length := by
    induction before with
    | nil => simp [findIdx?_cons]
    | cons first before ih =>
      rw [forall_mem_cons] at hbefore
      rw [cons_append, findIdx?_cons, ih hbefore.2]
      simp [hbefore.1]
  unfold neighbor
  rw [hposition]
  constructor
  · show (if before.length = 0 then none else (before ++ selected :: after)[before.length - 1]?) = before.getLast?
    rw [getLast?_eq_getElem?]
    by_cases hempty : before.length = 0
    · rw [if_pos hempty, length_eq_zero_iff.mp hempty]
      rfl
    · rw [if_neg hempty, getElem?_append_left (by omega)]
  · show (before ++ selected :: after)[before.length + 1]? = after.head?
    rw [getElem?_append_right (by omega), head?_eq_getElem?]
    have hone : before.length + 1 - before.length = 1 := by omega
    rw [hone]
    rfl

section
variable {all : List IntelligenceHeading}

section

variable (hall : all.Pairwise (·.sectionFrom < ·.sectionFrom))
include hall

theorem ordered_split (hselected : selected ∈ all) :
    ∃ before after, all = before ++ selected :: after ∧ (∀ c ∈ before, c.sectionFrom < selected.sectionFrom) ∧
      before.Pairwise (·.sectionFrom < ·.sectionFrom) ∧
      (selected :: after).Pairwise (·.sectionFrom < ·.sectionFrom) := by
  obtain ⟨before, after, rfl⟩ := append_of_mem hselected
  rw [pairwise_append] at hall
  exact ⟨before, after, rfl, fun c hc => hall.2.2 c hc selected mem_cons_self, hall.1, hall.2.1⟩

theorem neighbor_up (hselected : selected ∈ all) :
    neighbor all selected .up = some other ↔ other ∈ all ∧ other.sectionFrom < selected.sectionFrom ∧
      ∀ c ∈ all, c.sectionFrom < selected.sectionFrom → c.sectionFrom ≤ other.sectionFrom := by
  obtain ⟨before, after, rfl, hbefore, hfirst, hrest⟩ := ordered_split hall hselected
  rw [pairwise_cons] at hrest
  rw [(neighbor_split fun c hc => Nat.ne_of_lt (hbefore c hc)).1]
  have habove : ∀ c ∈ before ++ selected :: after, c.sectionFrom < selected.sectionFrom → c ∈ before := by
    intro c hc hlt
    rcases mem_append.mp hc with hc | hc
    · exact hc
    · rcases mem_cons.mp hc with rfl | hc
      · omega
      · exact absurd hlt (Nat.lt_asymm (hrest.1 c hc))
  constructor
  · intro hlast
    obtain ⟨start, rfl⟩ := getLast?_eq_some_iff.mp hlast
    refine ⟨by simp, hbefore other (by simp), fun c hc hlt => ?_⟩
    rcases mem_append.mp (habove c hc hlt) with hc | hc
    · exact Nat.le_of_lt ((pairwise_append.mp hfirst).2.2 c hc other (by simp))
    · rw [mem_singleton.mp hc]
  · rintro ⟨hother, hlt, hnearest⟩
    have hne := ne_nil_of_mem (habove other hother hlt)
    obtain ⟨start, last, rfl⟩ : ∃ start last, before = start ++ [last] :=
      ⟨_, _, (dropLast_append_getLast hne).symm⟩
    rw [getLast?_concat]
    rcases mem_append.mp (habove other hother hlt) with hmem | hmem
    · have hgreater := (pairwise_append.mp hfirst).2.2 other hmem last (by simp)
      have hless := hnearest last (by simp) (hbefore last (by simp))
      omega
    · rw [mem_singleton.mp hmem]

theorem neighbor_down (hselected : selected ∈ all) :
    neighbor all selected .down = some other ↔ other ∈ all ∧ selected.sectionFrom < other.sectionFrom ∧
      ∀ c ∈ all, selected.sectionFrom < c.sectionFrom → other.sectionFrom ≤ c.sectionFrom := by
  obtain ⟨before, after, rfl, hbefore, -, hrest⟩ := ordered_split hall hselected
  rw [pairwise_cons] at hrest
  rw [(neighbor_split fun c hc => Nat.ne_of_lt (hbefore c hc)).2]
  have hbelow : ∀ c ∈ before ++ selected :: after, selected.sectionFrom < c.sectionFrom → c ∈ after := by
    intro c hc hlt
    rcases mem_append.mp hc with hc | hc
    · exact absurd hlt (Nat.lt_asymm (hbefore c hc))
    · rcases mem_cons.mp hc with rfl | hc
      · omega
      · exact hc
  cases after with
  | nil =>
    refine ⟨fun h => absurd h (by simp), ?_⟩
    rintro ⟨hother, hlt, -⟩
    cases hbelow other hother hlt
  | cons next after =>
    have hnext := hrest.1 next (by simp)
    have hleast := (pairwise_cons.mp hrest.2).1
    constructor
    · intro hhead
      cases hhead
      refine ⟨by simp, hnext, fun c hc hlt => ?_⟩
      rcases mem_cons.mp (hbelow c hc hlt) with rfl | hc
      · exact Nat.le_refl _
      · exact Nat.le_of_lt (hleast c hc)
    · rintro ⟨hother, hlt, hnearest⟩
      rcases mem_cons.mp (hbelow other hother hlt) with rfl | hmem
      · rfl
      · have hgreater := hleast other hmem
        have hless := hnearest next (by simp) hnext
        omega

end

end

variable {text : JsString}

theorem mem_siblings : a ∈ siblings text headings selected ↔ a ∈ headings ∧ a.level = selected.level ∧
    ((sectionParent headings selected).map (·.sectionFrom)).getD 0 ≤ a.sectionFrom ∧
    a.sectionTo ≤ ((sectionParent headings selected).map (·.sectionTo)).getD text.length := by
  simp [siblings, and_assoc]

section

variable (h : Sectioned stop headings)
include h

theorem Sectioned.mem_siblings (htext : stop ≤ text.length) :
    a ∈ siblings text headings selected ↔ a ∈ headings ∧ a.level = selected.level ∧
      ∀ k, sectionParent headings selected = some k → k.sectionFrom ≤ a.sectionFrom ∧ a.sectionTo ≤ k.sectionTo := by
  rw [Marks.mem_siblings]
  refine and_congr_right fun ha => and_congr_right fun _ => ?_
  cases sectionParent headings selected with
  | none =>
    have hwithin := h.within a ha
    simp only [Option.map_none, Option.getD_none, Nat.zero_le, true_and]
    constructor
    · exact fun _ k hk => by cases hk
    · exact fun _ => by omega
  | some k => simp

theorem Sectioned.siblings_ordered (text : JsString) (selected : IntelligenceHeading) :
    (siblings text headings selected).Pairwise (·.sectionFrom < ·.sectionFrom) :=
  h.ordered.sublist filter_sublist

theorem Sectioned.self_sibling (htext : stop ≤ text.length) (hselected : selected ∈ headings) :
    selected ∈ siblings text headings selected := by
  refine (h.mem_siblings htext).mpr ⟨hselected, rfl, fun k hk => ?_⟩
  obtain ⟨hbefore, hafter, -⟩ := isParent_iff.mp (sectionParent_some hk).2
  exact ⟨Nat.le_of_lt hbefore, hafter⟩

theorem Sectioned.neighbor_up_iff (htext : stop ≤ text.length) (hselected : selected ∈ headings) :
    neighbor (siblings text headings selected) selected .up = some other ↔
      other ∈ headings ∧ other.level = selected.level ∧ other.sectionTo = selected.sectionFrom := by
  rw [neighbor_up (h.siblings_ordered text selected) (h.self_sibling htext hselected)]
  constructor
  · rintro ⟨hother, hlt, hnearest⟩
    obtain ⟨hmem, hlevel, hscope⟩ := (h.mem_siblings htext).mp hother
    refine ⟨hmem, hlevel, ?_⟩
    have hbehind := h.behind hmem hselected hlt (by omega)
    have hin := h.within selected hselected
    have hlater := h.within other hmem
    by_contra hne
    rcases h.closed other hmem with hstop | ⟨b, hb, hfrom, hle⟩
    · omega
    by_cases hsame : b.level = selected.level
    · have hafter := h.behind hb hselected (by omega) (by omega)
      have hsibling : b ∈ siblings text headings selected := by
        refine (h.mem_siblings htext).mpr ⟨hb, hsame, fun k hk => ?_⟩
        have hparent := (isParent_iff.mp (sectionParent_some hk).2).2.1
        have hfirst := (hscope k hk).1
        omega
      have hless := hnearest b hsibling (by omega)
      omega
    · -- a shallower heading between the two puts the parent behind the other
      obtain ⟨k, hk, hbefore, hparent⟩ := h.parent_exists hselected hb (by omega) (by omega)
      obtain ⟨parent, hfound, hlast⟩ := h.parent_last hk hparent
      have hfirst := (hscope parent hfound).1
      omega
  · rintro ⟨hmem, hlevel, hto⟩
    have hlater := h.within other hmem
    have hin := h.within selected hselected
    refine ⟨(h.mem_siblings htext).mpr ⟨hmem, hlevel, fun k hk => ?_⟩, by omega, fun c hc hlt => ?_⟩
    · obtain ⟨hkmem, hparent⟩ := sectionParent_some hk
      obtain ⟨hbefore, hafter, hshallow⟩ := isParent_iff.mp hparent
      refine ⟨?_, by omega⟩
      by_contra hnot
      have hdeep := h.below other hmem k hkmem (by omega) (by omega)
      omega
    · obtain ⟨hcmem, hclevel, -⟩ := (h.mem_siblings htext).mp hc
      by_contra hnot
      have hdeep := h.below other hmem c hcmem (by omega) (by omega)
      omega

theorem Sectioned.neighbor_down_of (htext : stop ≤ text.length)
    (hselected : selected ∈ headings) (hother : other ∈ headings) (hlevel : other.level = selected.level)
    (hfrom : other.sectionFrom = selected.sectionTo) :
    neighbor (siblings text headings selected) selected .down = some other := by
  rw [neighbor_down (h.siblings_ordered text selected) (h.self_sibling htext hselected)]
  have hin := h.within selected hselected
  have hlater := h.within other hother
  refine ⟨(h.mem_siblings htext).mpr ⟨hother, hlevel, fun k hk => ?_⟩, by omega, fun c hc hlt => ?_⟩
  · obtain ⟨hkmem, hparent⟩ := sectionParent_some hk
    obtain ⟨hbefore, hafter, hshallow⟩ := isParent_iff.mp hparent
    have hinside : other.sectionFrom < k.sectionTo := by
      rcases h.closed k hkmem with hstop | ⟨c, hc, hcfrom, hcle⟩
      · omega
      · by_contra hnot
        rw [h.unique hc hother (by omega)] at hcle
        omega
    exact ⟨by omega, h.nested hkmem hother (by omega) hinside⟩
  · obtain ⟨hcmem, hclevel, -⟩ := (h.mem_siblings htext).mp hc
    by_contra hnot
    have hdeep := h.below selected hselected c hcmem (by omega) (by omega)
    omega

end

end

end Marks
