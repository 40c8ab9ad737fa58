import Marks.Operations
import Marks.ReportSound

/-! # Renaming a heading

The analyser reads a line without its carriage return and drops the closing marks from a title, the rename reads the
raw line and keeps them. -/

namespace Marks

open JsString List

/-! ## The line -/

variable {s : JsString}

theorem endsTitle_heading (h : endsTitle s = true) : endsHeading s = true := by
  cases s with
  | nil => rfl
  | cons c s => exact ((Bool.and_eq_true _ _).mp h).2

theorem endsTitle_gap {c : UInt16} (h : endsTitle (c :: s) = true) : isGap c = true := by
  have hrun := of_decide_eq_true ((Bool.and_eq_true _ _).mp h).1
  cases hc : isGap c with
  | true => rfl
  | false =>
    rw [run_zero hc] at hrun
    exact absurd hrun (by omega)

variable {source marks found closing : JsString}

theorem titleMatch_eq_some :
    titleMatch source = some (marks, found, closing) ↔
      ∃ indent level behind gap, atxMarks source = some (indent, level, behind) ∧
        spaced endsTitle behind = some (gap, found) ∧ marks = source.take (indent + level) ∧
        closing = behind.drop (gap + found.length) := by
  unfold titleMatch
  constructor
  · intro h
    obtain ⟨⟨i, l, behind⟩, hmarks, h⟩ := Option.bind_eq_some_iff.mp h
    obtain ⟨⟨gap, t⟩, hspaced, h⟩ := Option.bind_eq_some_iff.mp h
    have htriple : some (source.take (i + l), t, behind.drop (gap + t.length)) = some (marks, found, closing) := h
    cases htriple
    exact ⟨i, l, behind, gap, hmarks, hspaced, rfl, rfl⟩
  · rintro ⟨indent, level, behind, gap, hmarks, hspaced, rfl, rfl⟩
    rw [hmarks]
    show (spaced endsTitle behind).bind _ = _
    rw [hspaced]
    rfl

theorem endsHeading_tail {c : UInt16} (h : endsHeading (c :: s) = true) : endsHeading s = true := by
  obtain ⟨x, y, z, hs, hx, hy, hz⟩ := endsHeading_iff.mp h
  cases x with
  | cons d x =>
    obtain ⟨-, rfl⟩ := List.cons.inj hs
    exact endsHeading_iff.mpr ⟨x, y, z, rfl, ((Bool.and_eq_true _ _).mp hx).2, hy, hz⟩
  | nil =>
    cases y with
    | cons d y =>
      obtain ⟨-, rfl⟩ := List.cons.inj hs
      exact endsHeading_iff.mpr ⟨[], y, z, rfl, rfl, ((Bool.and_eq_true _ _).mp hy).2, hz⟩
    | nil =>
      cases z with
      | nil => cases hs
      | cons d z =>
        obtain ⟨-, rfl⟩ := List.cons.inj hs
        exact endsHeading_iff.mpr ⟨[], [], s, rfl, rfl, rfl, ((Bool.and_eq_true _ _).mp hz).2⟩

theorem endsHeading_append {a : JsString} (h : endsHeading (a ++ s) = true) : endsHeading s = true := by
  induction a with
  | nil => exact h
  | cons c a ih => exact ih (endsHeading_tail h)

def Closed (title closing : JsString) : Prop := title.getLast? ≠ some 35 ∨ title.length = 1 ∨ 35 ∈ closing

instance (title closing : JsString) : Decidable (Closed title closing) :=
  inferInstanceAs (Decidable (_ ∨ _ ∨ _))

theorem closed_of_shortest {title : JsString} (hclosing : endsTitle closing = true)
    (h : ∀ a b, title = a ++ b → a ≠ [] → b ≠ [] → endsHeading (b ++ closing) = false) : Closed title closing := by
  by_cases hlast : title.getLast? = some 35
  · by_cases hlength : title.length = 1
    · exact Or.inr (Or.inl hlength)
    refine Or.inr (Or.inr (Decidable.byContradiction fun hmem => ?_))
    obtain ⟨start, hstart⟩ := getLast?_eq_some_iff.mp hlast
    have hne : start ≠ [] := by
      rintro rfl
      exact hlength (by rw [hstart]; rfl)
    have hgaps : closing.all isGap = true := by
      obtain ⟨a, b, c, rfl, ha, hb, hc⟩ := endsHeading_iff.mp (endsTitle_heading hclosing)
      have hnil : b = [] := by
        cases b with
        | nil => rfl
        | cons d b =>
          have hd : d = 35 := eq_of_beq (all_eq_true.mp hb d mem_cons_self)
          exact absurd (by simp [hd]) hmem
      rw [hnil, nil_append, all_append, ha, hc]
      rfl
    have htrue : endsHeading ([35] ++ closing) = true := endsHeading_iff.mpr ⟨[], [35], closing, rfl, rfl, rfl, hgaps⟩
    rw [h start [35] hstart hne (by simp)] at htrue
    cases htrue
  · exact Or.inl hlast

theorem shortest_of_closed {title a b : JsString} (htrimmed : Trimmed title) (hclosing : endsTitle closing = true)
    (h : Closed title closing) (hab : title = a ++ b) (ha : a ≠ []) (hb : b ≠ []) :
    endsHeading (b ++ closing) = false := by
  cases hends : endsHeading (b ++ closing) with
  | false => rfl
  | true =>
    exfalso
    obtain ⟨start, last, rfl⟩ : ∃ start last, b = start ++ [last] :=
      ⟨b.dropLast, b.getLast hb, (dropLast_append_getLast hb).symm⟩
    have hlast : title.getLast? = some last := by rw [hab, ← append_assoc, getLast?_concat]
    have hgap : isGap last = false := by
      cases hg : isGap last with
      | false => rfl
      | true =>
        have hspace := htrimmed.last last hlast
        rw [gap_space hg] at hspace
        cases hspace
    rw [append_assoc] at hends
    have hends' : endsHeading (last :: closing) = true := endsHeading_append hends
    have hhash : last = 35 := by
      cases hh : isHash last with
      | true => exact eq_of_beq hh
      | false =>
        have hall : (last :: closing).all isGap = true := by
          rw [endsHeading, run_zero hgap] at hends'
          have hdrop : (last :: closing).drop 0 = last :: closing := rfl
          simp only [hdrop] at hends'
          rw [run_zero hh] at hends'
          exact hends'
        exact absurd ((Bool.and_eq_true _ _).mp hall).1 (by simp [hgap])
    rcases h with h | h | h
    · exact h (by rw [hlast, hhash])
    · have hlength := congrArg List.length hab
      have hpos := length_pos_iff.mpr ha
      rw [length_append, length_append, length_singleton] at hlength
      omega
    · -- a hash, a gap and a hash again
      cases closing with
      | nil => cases h
      | cons g rest =>
        have hg := endsTitle_gap hclosing
        have hrest : (35 : UInt16) ∈ rest := by
          rcases mem_cons.mp h with heq | hmem
          · rw [← heq] at hg
            cases hg
          · exact hmem
        rw [hhash, endsHeading, run_zero (show isGap 35 = false from rfl)] at hends'
        have hdrop : ((35 : UInt16) :: g :: rest).drop 0 = [35] ++ (g :: rest) := rfl
        simp only [hdrop] at hends'
        have hrun : run isHash ([35] ++ (g :: rest)) = 1 := by
          rw [run_append rfl, run_zero (gap_not_hash hg)]
          rfl
        rw [hrun] at hends'
        cases all_eq_true.mp hends' 35 (mem_cons_of_mem _ hrest)

variable {indent level : Nat}

theorem headingMatch_title {title : JsString} (hindent : indent ≤ 3) (hpos : 1 ≤ level)
    (hle : level ≤ 6) (htitle : title ≠ []) (htrimmed : Trimmed title) (hclosing : endsTitle closing = true) :
    (∃ found, headingMatch (List.replicate indent 32 ++ (List.replicate level 35 ++ (32 :: (title ++ closing)))) =
        some (indent, level, found) ∧ trim found = title) ↔ unbroken title = true ∧ Closed title closing := by
  have hmarks : atxMarks (List.replicate indent 32 ++ (List.replicate level 35 ++ (32 :: (title ++ closing)))) =
      some (indent, level, 32 :: (title ++ closing)) :=
    atxMarks_eq_some.mpr ⟨rfl, hindent, hpos, hle, by simp⟩
  have hends := endsTitle_heading hclosing
  have hcontent : run isGap (title ++ closing) = 0 := by
    cases title with
    | nil => exact absurd rfl htitle
    | cons c title =>
      refine run_zero ?_
      cases hc : isGap c with
      | false => rfl
      | true =>
        have hspace := htrimmed.head c rfl
        rw [gap_space hc] at hspace
        cases hspace
  have hspaced : ∀ found, shortest endsHeading (title ++ closing) = some found →
      spaced endsHeading (32 :: (title ++ closing)) = some (1, found) := by
    intro found hfound
    have hgaps : ([32] : JsString).all isGap = true := rfl
    exact spaced_eq hgaps (by simp) hcontent hfound
  constructor
  · rintro ⟨found, hfound, htrim⟩
    have hplain : unbroken title = true := by
      have h := headingMatch_unbroken (Option.isSome_iff_exists.mpr ⟨_, hfound⟩)
      have h' := (unbroken_append.mp (unbroken_append.mp h).2).2
      exact (unbroken_append.mp (unbroken_cons.mp h').2).1
    refine ⟨hplain, ?_⟩
    have hshort : (shortest endsHeading (title ++ closing)).isSome = true := shortest_isSome rfl (by simp [htitle])
      (unbroken_append.mpr ⟨hplain, endsHeading_unbroken hends⟩)
    obtain ⟨short, hshort⟩ := Option.isSome_iff_exists.mp hshort
    obtain ⟨behind, gap, hmarks', hspaced'⟩ := headingMatch_eq_some.mp hfound
    rw [hmarks] at hmarks'
    cases hmarks'
    rw [hspaced short hshort] at hspaced'
    cases hspaced'
    obtain ⟨rest, hsplit, -, -, -, hearlier⟩ := shortest_eq_some.mp hshort
    -- the group is as long as the title, so it is the title
    have hlength := trim_length found
    rw [htrim] at hlength
    obtain ⟨more, rfl⟩ : ∃ more, found = title ++ more := by
      have hstarts : title <+: found :=
        prefix_of_prefix_length_le ⟨closing, rfl⟩ ⟨rest, hsplit.symm⟩ hlength
      obtain ⟨more, hmore⟩ := hstarts
      exact ⟨more, hmore.symm⟩
    rw [append_assoc] at hsplit
    have hrest : closing = more ++ rest := append_cancel_left hsplit
    have hmore : more = [] := by
      refine Decidable.byContradiction fun hne => ?_
      have hfalse := hearlier title more rfl htitle hne
      rw [← hrest, hends] at hfalse
      cases hfalse
    rw [hmore, nil_append] at hrest
    rw [hmore, append_nil] at hearlier
    refine closed_of_shortest hclosing fun a b hab ha hb => ?_
    rw [hrest]
    exact hearlier a b hab ha hb
  · rintro ⟨hplain, hclosed⟩
    have hshort : shortest endsHeading (title ++ closing) = some title :=
      shortest_eq_some.mpr ⟨closing, rfl, htitle, hplain, hends, fun a b hab ha hb =>
        shortest_of_closed htrimmed hclosing hclosed hab ha hb⟩
    exact ⟨title, headingMatch_eq_some.mpr ⟨_, _, hmarks, hspaced title hshort⟩, trim_trimmed htrimmed⟩

theorem endsHeading_take (h : endsHeading s = true) (n : Nat) : endsHeading (s.take n) = true := by
  obtain ⟨a, b, c, rfl, ha, hb, hc⟩ := endsHeading_iff.mp h
  have hall : ∀ {p : UInt16 → Bool} {t : JsString} (m : Nat), t.all p = true → (t.take m).all p = true := fun m ht =>
    all_eq_true.mpr fun d hd => all_eq_true.mp ht d (mem_of_mem_take hd)
  rw [take_append, take_append]
  exact endsHeading_iff.mpr ⟨_, _, _, rfl, hall _ ha, hall _ hb, hall _ hc⟩

theorem endsTitle_take (h : endsTitle s = true) (n : Nat) : endsTitle (s.take n) = true := by
  cases n with
  | zero => rfl
  | succ n =>
    cases s with
    | nil => rfl
    | cons c s =>
      have hgap := endsTitle_gap h
      have hends := endsHeading_take (endsTitle_heading h) (n + 1)
      have hpos : 0 < run isGap (c :: s.take n) := by
        rw [run, takeWhile_cons_of_pos hgap, length_cons]
        omega
      exact (Bool.and_eq_true _ _).mpr ⟨decide_eq_true hpos, hends⟩

theorem titleMatch_isSome :
    (titleMatch source).isSome = true ↔
      ∃ indent level behind, atxMarks source = some (indent, level, behind) ∧ 1 ≤ run isGap behind ∧
        2 ≤ behind.length ∧ unbroken behind = true := by
  have hnil : endsTitle [] = true := rfl
  have hline : ∀ s, endsTitle s = true → unbroken s = true := fun s h => endsHeading_unbroken (endsTitle_heading h)
  constructor
  · intro h
    obtain ⟨⟨marks, found, closing⟩, hsome⟩ := Option.isSome_iff_exists.mp h
    obtain ⟨indent, level, behind, gap, hmarks, hspaced, -⟩ := titleMatch_eq_some.mp hsome
    have hs : (spaced endsTitle behind).isSome = true := by rw [hspaced]; rfl
    exact ⟨indent, level, behind, hmarks, (spaced_isSome hnil hline).mp hs⟩
  · rintro ⟨indent, level, behind, hmarks, hbehind⟩
    obtain ⟨⟨gap, found⟩, hspaced⟩ := Option.isSome_iff_exists.mp ((spaced_isSome hnil hline).mpr hbehind)
    exact Option.isSome_iff_exists.mpr ⟨_, titleMatch_eq_some.mpr ⟨_, _, _, _, hmarks, hspaced, rfl, rfl⟩⟩

theorem titleMatch_parts (h : titleMatch source = some (marks, found, closing)) :
    ∃ indent level behind, atxMarks source = some (indent, level, behind) ∧ endsTitle closing = true ∧
      unbroken source = true ∧ marks = List.replicate indent 32 ++ List.replicate level 35 := by
  obtain ⟨indent, level, behind, gap, hmarks, hspaced, rfl, rfl⟩ := titleMatch_eq_some.mp h
  have hsome : (titleMatch source).isSome = true := by rw [h]; rfl
  obtain ⟨i, l, b, hmarks', -, -, hline⟩ := titleMatch_isSome.mp hsome
  rw [hmarks] at hmarks'
  cases hmarks'
  obtain ⟨-, -, hshort⟩ := spaced_some hspaced
  obtain ⟨rest, hrest, -, -, haccept, -⟩ := shortest_eq_some.mp hshort
  have hclosing : behind.drop (gap + found.length) = rest := by
    rw [← drop_drop, hrest, drop_left]
  obtain ⟨rfl, -⟩ := atxMarks_eq_some.mp hmarks
  refine ⟨indent, level, behind, hmarks, by rw [hclosing]; exact haccept, ?_, ?_⟩
  · refine unbroken_append.mpr ⟨?_, unbroken_append.mpr ⟨?_, hline⟩⟩
    · exact all_eq_true.mpr fun c hc => by rw [eq_of_mem_replicate hc]; rfl
    · exact all_eq_true.mpr fun c hc => by rw [eq_of_mem_replicate hc]; rfl
  · rw [← append_assoc, take_append_of_le_length (by simp), take_of_length_le (by simp)]

theorem atxMarks_indent {behind : JsString} (h : atxMarks s = some (indent, level, behind)) :
    run (· == space) s = indent := by
  unfold atxMarks at h
  dsimp only at h
  by_cases hcond : run (· == space) s ≤ 3 ∧ 1 ≤ run isHash (s.drop (run (· == space) s)) ∧
      run isHash (s.drop (run (· == space) s)) ≤ 6
  · rw [if_pos hcond] at h
    exact (Prod.mk.inj (Option.some.inj h)).1
  · rw [if_neg hcond] at h
    cases h

/-! ## The new title -/

theorem spaceBreaks_no_break {inRun : Bool} : ∀ c ∈ spaceBreaks inRun s, isBreak c = false := by
  induction s generalizing inRun with
  | nil => intro c hc; exact absurd hc (by simp [spaceBreaks])
  | cons d s ih =>
    intro c hc
    have hunfold : spaceBreaks inRun (d :: s) = if isBreak d then
        (if inRun then spaceBreaks true s else space :: spaceBreaks true s) else d :: spaceBreaks false s := rfl
    rw [hunfold] at hc
    cases hd : isBreak d with
    | false =>
      rw [hd, if_neg Bool.false_ne_true] at hc
      rcases mem_cons.mp hc with rfl | hc
      · exact hd
      · exact ih c hc
    | true =>
      rw [hd, if_pos rfl] at hc
      cases inRun with
      | true => exact ih c hc
      | false =>
        rw [if_neg Bool.false_ne_true] at hc
        rcases mem_cons.mp hc with rfl | hc
        · rfl
        · exact ih c hc

theorem nextTitle_no_break (title : JsString) : ∀ c ∈ nextTitle title, isBreak c = false := by
  intro c hc
  have hmem : c ∈ spaceBreaks false title :=
    (dropWhile_suffix isSpace).subset ((List.rdropWhile_prefix isSpace _).subset hc)
  exact spaceBreaks_no_break c hmem

theorem nextTitle_trimmed (title : JsString) : Trimmed (nextTitle title) := trimmed_trim _

/-! ## The operation -/

section
variable {text start line rest : JsString} {heading : IntelligenceHeading}
  (htext : text = start ++ (line ++ rest)) (hfrom : heading.sectionFrom = start.length) (hline : newline ∉ line)
  (hrest : rest = [] ∨ rest.head? = some newline)
include htext hfrom hline hrest

theorem headingLine_eq : headingLine text heading = (start.length, start.length + line.length, line) := by
  have hdrop : text.drop start.length = line ++ rest := by rw [htext, drop_left]
  have hstop : (if newline ∈ line ++ rest then start.length + (line ++ rest).idxOf newline else text.length) =
      start.length + line.length := by
    cases rest with
    | nil =>
      rw [append_nil, if_neg hline, htext]
      simp
    | cons c rest =>
      have hc : c = newline := Option.some.inj (hrest.resolve_left (by simp))
      rw [hc, if_pos (by simp), idxOf_append_of_notMem hline, idxOf_cons_self, Nat.add_zero]
  have hslice : text.slice start.length (start.length + line.length) = line := by
    rw [slice, htext, ← append_assoc, take_append_of_le_length (by simp), take_of_length_le (by simp),
      drop_left]
  unfold headingLine
  dsimp only
  rw [hfrom, hdrop, hstop, hslice]

theorem renameHeading_eq (title : JsString) :
    renameHeading text heading title =
      if nextTitle title = [] ∨ 240 < (nextTitle title).length then
        throw "Use a heading between 1 and 240 characters."
      else
        match titleMatch line with
        | none => throw "The heading changed; refresh the structure report."
        | some (marks, _, closing) => pure (start ++ ((marks ++ [space] ++ nextTitle title ++ closing) ++ rest)) := by
  have hreplace : ∀ replacement, replaceRange text start.length (start.length + line.length) replacement =
      pure (start ++ (replacement ++ rest)) := by
    intro replacement
    have hvalid : ¬ (start.length + line.length < start.length ∨ text.length < start.length + line.length) := by
      rw [htext]
      simp
    have htake : text.take start.length = start := by rw [htext, take_left]
    have hdrop : text.drop (start.length + line.length) = rest := by
      rw [← drop_drop, htext, drop_left, drop_left]
    rw [replaceRange, if_neg hvalid, htake, hdrop, append_assoc]
  unfold renameHeading
  dsimp only
  rw [headingLine_eq htext hfrom hline hrest]
  dsimp only
  cases titleMatch line with
  | none => rfl
  | some found =>
    dsimp only
    rw [hreplace]

end

def closingOf (line : JsString) : JsString := ((titleMatch line).map (·.2.2)).getD []

def titleEnd (line : JsString) (level : Nat) (title : JsString) : Nat := run (· == space) line + level + 1 + title.length

theorem space_head (s : JsString) : ((32 : UInt16) :: s).head? ≠ some 35 :=
  fun h => absurd (Option.some.inj h) (by decide)

theorem headingMatch_short {room : Nat} {title : JsString} {j l : Nat} (hindent : indent ≤ 3)
    (hpos : 1 ≤ level) (hle : level ≤ 6) (hroom : room < indent + level + 1 + title.length)
    (hfound : headingMatch ((List.replicate indent 32 ++ (List.replicate level 35 ++ (32 :: title))).take room) =
      some (j, l, found)) : trim found ≠ title := by
  rintro htrim
  have hlength : (List.replicate indent (32 : UInt16) ++ (List.replicate level 35 ++ (32 :: title))).length =
      indent + level + 1 + title.length := by
    simp
    omega
  obtain ⟨behind, gap, hmarks, hspaced⟩ := headingMatch_eq_some.mp hfound
  obtain ⟨hgap, -, hshort⟩ := spaced_some hspaced
  obtain ⟨more, hmore, hne, -⟩ := shortest_eq_some.mp hshort
  have hfilled := length_pos_iff.mpr hne
  have hdrop := congrArg List.length hmore
  rw [length_drop, length_append] at hdrop
  have hbehind : behind ≠ [] := by
    rintro rfl
    rw [length_nil] at hdrop
    omega
  -- the cut line has the marks of the whole
  have hwhole := atxMarks_append hmarks hbehind
    ((List.replicate indent (32 : UInt16) ++ (List.replicate level 35 ++ (32 :: title))).drop room)
  rw [take_append_drop, atxMarks_eq_some.mpr ⟨rfl, hindent, hpos, hle, space_head title⟩] at hwhole
  have hsame := (Prod.mk.inj (Prod.mk.inj (Option.some.inj hwhole)).2).2
  have hsum := congrArg List.length hsame
  rw [length_append, length_drop, hlength, length_cons] at hsum
  have hshorter := trim_length found
  rw [htrim] at hshorter
  omega

theorem renamed_line {line title : JsString} (at_ number room : Nat)
    (hmatch : titleMatch line = some (marks, found, closing))
    (hlevel : ∃ indent behind, atxMarks line = some (indent, level, behind)) (htitle : title ≠ [])
    (htrimmed : Trimmed title) (hbreaks : ∀ c ∈ title, isBreak c = false) :
    entryOf at_ number ((marks ++ [space] ++ title ++ closing).take room) = some ⟨level, title, at_, number⟩ ↔
      unbroken title = true ∧ Closed title (closing.take (room - titleEnd line level title)) ∧
        titleEnd line level title ≤ room := by
  obtain ⟨indent, level', behind, hmarks, hclosing, -, rfl⟩ := titleMatch_parts hmatch
  obtain ⟨i, b, hmarks'⟩ := hlevel
  rw [hmarks] at hmarks'
  cases hmarks'
  obtain ⟨-, hindent, hpos, hle, -⟩ := atxMarks_eq_some.mp hmarks
  have hend : titleEnd line level title = indent + level + 1 + title.length := by
    rw [titleEnd, atxMarks_indent hmarks]
  have hassoc : List.replicate indent (32 : UInt16) ++ List.replicate level 35 ++ [space] ++ title ++ closing =
      (List.replicate indent 32 ++ (List.replicate level 35 ++ (32 :: title))) ++ closing := by
    simp [space]
  have hlength : (List.replicate indent (32 : UInt16) ++ (List.replicate level 35 ++ (32 :: title))).length =
      indent + level + 1 + title.length := by
    simp
    omega
  rw [hassoc, hend]
  -- no carriage return is dropped from it
  have hreturn : (13 : UInt16) ∉
      ((List.replicate indent (32 : UInt16) ++ (List.replicate level 35 ++ (32 :: title))) ++ closing).take room := by
    intro hmem
    rcases mem_append.mp (mem_of_mem_take hmem) with hmem | hmem
    · rcases mem_append.mp hmem with hmem | hmem
      · cases eq_of_mem_replicate hmem
      rcases mem_append.mp hmem with hmem | hmem
      · cases eq_of_mem_replicate hmem
      · rcases mem_cons.mp hmem with hmem | hmem
        · cases hmem
        · cases hbreaks 13 hmem
    · have hc := all_eq_true.mp (endsHeading_unbroken (endsTitle_heading hclosing)) 13 hmem
      cases hc
  have hentry : entryOf at_ number (((List.replicate indent (32 : UInt16) ++ (List.replicate level 35 ++ (32 :: title))) ++
        closing).take room) = some ⟨level, title, at_, number⟩ ↔
      ∃ j found, headingMatch (((List.replicate indent (32 : UInt16) ++ (List.replicate level 35 ++ (32 :: title))) ++
        closing).take room) = some (j, level, found) ∧ trim found = title := by
    rw [entryOf, withoutReturn_of hreturn, Option.map_eq_some_iff]
    constructor
    · rintro ⟨⟨j, l, found⟩, hfound, heq⟩
      cases heq
      exact ⟨j, found, hfound, rfl⟩
    · rintro ⟨j, found, hfound, rfl⟩
      exact ⟨_, hfound, rfl⟩
  rw [hentry]
  by_cases hfits : indent + level + 1 + title.length ≤ room
  · have hcut : ((List.replicate indent (32 : UInt16) ++ (List.replicate level 35 ++ (32 :: title))) ++ closing).take room =
        List.replicate indent 32 ++ (List.replicate level 35 ++
          (32 :: (title ++ closing.take (room - (indent + level + 1 + title.length))))) := by
      rw [take_append, take_of_length_le (by rw [hlength]; exact hfits), hlength]
      simp
    have htitled := headingMatch_title hindent hpos hle htitle htrimmed
      (endsTitle_take hclosing (room - (indent + level + 1 + title.length)))
    rw [hcut]
    constructor
    · rintro ⟨j, found, hfound, htrim⟩
      obtain ⟨b, gap, hb, -⟩ := headingMatch_eq_some.mp hfound
      rw [atxMarks_eq_some.mpr ⟨rfl, hindent, hpos, hle, space_head _⟩] at hb
      obtain rfl := (Prod.mk.inj (Option.some.inj hb)).1
      obtain ⟨hunbroken, hclosed⟩ := htitled.mp ⟨found, hfound, htrim⟩
      exact ⟨hunbroken, hclosed, hfits⟩
    · rintro ⟨hunbroken, hclosed, -⟩
      obtain ⟨found, hfound, htrim⟩ := htitled.mpr ⟨hunbroken, hclosed⟩
      exact ⟨indent, found, hfound, htrim⟩
  · constructor
    · rintro ⟨j, found, hfound, htrim⟩
      rw [take_append_of_le_length (by rw [hlength]; omega)] at hfound
      exact absurd htrim (headingMatch_short hindent hpos hle (by omega) hfound)
    · rintro ⟨-, -, hwithin⟩
      exact absurd hwithin hfits

/-! ## Faithful renames -/

def OutlineEntry.carried (entry : OutlineEntry) (before after : Nat) : OutlineEntry :=
  { entry with from_ := entry.from_ + after - before }

/-- What the report should say of an entry after the rename of the heading at `at_`. -/
def renamedEntry (at_ : Nat) (title : JsString) (before after : Nat) (entry : OutlineEntry) : OutlineEntry :=
  if entry.from_ < at_ then entry
  else if entry.from_ = at_ then { entry with text := title }
  else entry.carried before after

structure RenamedTo (text : JsString) (heading : IntelligenceHeading) (title result : JsString) : Prop where
  line : ∃ start line next rest, text = start ++ (line ++ rest) ∧ result = start ++ (next ++ rest) ∧
    start.length = heading.sectionFrom ∧ newline ∉ line ∧ newline ∉ next ∧ (rest = [] ∨ rest.head? = some newline)
  report : (analyzeDocument result).headings.map IntelligenceHeading.entry =
    ((analyzeDocument text).headings.map IntelligenceHeading.entry).map
      (renamedEntry heading.sectionFrom title text.length result.length)

def Renames (text : JsString) (heading : IntelligenceHeading) (title : JsString) : Prop :=
  ∃ result, renameHeading text heading title = .ok result ∧ RenamedTo text heading (nextTitle title) result

/-! ### When they are -/

def roomAt (heading : IntelligenceHeading) : Nat := maxAnalyzedChars - heading.sectionFrom

def cutBehind (text : JsString) (heading : IntelligenceHeading) (kept : Nat) : JsString :=
  text.take heading.sectionFrom ++ ((headingLine text heading).2.2.take (roomAt heading) ++
    (text.drop (heading.sectionFrom + (headingLine text heading).2.2.length)).take kept)

/-- When a rename is faithful. The last two conditions are about a text that the analyser does not read to its end. -/
structure Renameable (text : JsString) (heading : IntelligenceHeading) (title : JsString) : Prop where
  line_unbroken : unbroken (headingLine text heading).2.2 = true
  title_unbroken : unbroken title = true
  closed : Closed title ((closingOf (headingLine text heading).2.2).take
    (roomAt heading - titleEnd (headingLine text heading).2.2 heading.level title))
  fits : titleEnd (headingLine text heading).2.2 heading.level title ≤ roomAt heading
  rest : entries (cutBehind text heading (roomAt heading -
    (titleEnd (headingLine text heading).2.2 heading.level title +
      (closingOf (headingLine text heading).2.2).length))) = entries (window text)

theorem carried_iff {base reported : List OutlineEntry} {at_ old new before after : Nat}
    (hreported : ∀ entry ∈ reported, at_ + (old + 1) ≤ entry.from_) (hwidth : before + new = after + old) :
    base.map (·.moved (at_ + (new + 1))) = reported.map (·.carried before after) ↔
      base.map (·.moved (at_ + (old + 1))) = reported := by
  have hforth : ∀ entry : OutlineEntry,
      (entry.moved (at_ + (old + 1))).carried before after = entry.moved (at_ + (new + 1)) := by
    intro entry
    refine congrArg (fun from_ => OutlineEntry.mk entry.level entry.text from_ entry.line) ?_
    show entry.from_ + (at_ + (old + 1)) + after - before = entry.from_ + (at_ + (new + 1))
    omega
  have hforth' : ∀ entry : OutlineEntry,
      (entry.moved (at_ + (new + 1))).carried after before = entry.moved (at_ + (old + 1)) := by
    intro entry
    refine congrArg (fun from_ => OutlineEntry.mk entry.level entry.text from_ entry.line) ?_
    show entry.from_ + (at_ + (new + 1)) + before - after = entry.from_ + (at_ + (old + 1))
    omega
  have hback : ∀ entry ∈ reported, (entry.carried before after).carried after before = entry := by
    intro entry hentry
    have hle := hreported entry hentry
    refine congrArg (fun from_ => OutlineEntry.mk entry.level entry.text from_ entry.line) ?_
    show entry.from_ + after - before + before - after = entry.from_
    omega
  constructor
  · intro h
    calc base.map (·.moved (at_ + (old + 1)))
        = (base.map (·.moved (at_ + (new + 1)))).map (·.carried after before) := by
          rw [map_map]
          exact map_congr_left fun entry _ => (hforth' entry).symm
      _ = (reported.map (·.carried before after)).map (·.carried after before) := by rw [h]
      _ = reported := by
          rw [map_map]
          exact (map_congr_left (g := id) hback).trans (map_id _)
  · rintro rfl
    rw [map_map]
    exact map_congr_left fun entry _ => (hforth entry).symm

section
variable {text title : JsString} {heading : IntelligenceHeading}

theorem reported_level {at_ number room : Nat} {line : JsString} {entry : OutlineEntry}
    (h : entryOf at_ number (line.take room) = some entry) :
    ∃ indent behind, atxMarks line = some (indent, entry.level, behind) ∧ 1 ≤ run isGap behind ∧ 2 ≤ behind.length := by
  obtain ⟨⟨indent, level, found⟩, hfound, rfl⟩ := Option.map_eq_some_iff.mp h
  obtain ⟨behind, gap, hmarks, hspaced⟩ := headingMatch_eq_some.mp hfound
  have hsome : (spaced endsHeading behind).isSome = true := by rw [hspaced]; rfl
  obtain ⟨hgap, hlength, -⟩ := (spaced_isSome (by rfl) fun _ => endsHeading_unbroken).mp hsome
  have hbehind : behind ≠ [] := by
    rintro rfl
    cases hlength
  obtain ⟨more, hmore, -⟩ := withoutReturn_split (line.take room)
  have hline : line = withoutReturn (line.take room) ++ (more ++ line.drop room) := by
    rw [← append_assoc, ← hmore, take_append_drop]
  have hwhole := atxMarks_append hmarks hbehind (more ++ line.drop room)
  rw [← hline] at hwhole
  refine ⟨indent, _, hwhole, ?_, by rw [length_append]; omega⟩
  obtain ⟨c, tail, rfl⟩ := exists_cons_of_ne_nil hbehind
  have hc : isGap c = true := by
    cases hc : isGap c with
    | true => rfl
    | false =>
      rw [run_zero hc] at hgap
      exact absurd hgap (by omega)
  rw [cons_append, run, takeWhile_cons_of_pos hc, length_cons]
  omega

theorem rest_iff {before after : Nat} {line next : JsString} (at_ room count number : Nat) (rest : JsString)
    (hwidth : before + next.length = after + line.length) :
    (outline 0 (behindBreak (rest.take (room - next.length))) (at_ + ((next.take room).length + 1)) number none).take count =
        ((outline 0 (behindBreak (rest.take (room - line.length))) (at_ + ((line.take room).length + 1)) number none).take
          count).map (·.carried before after) ↔
      (outline 0 (behindBreak (rest.take (room - next.length))) (at_ + ((line.take room).length + 1)) number none).take count =
        (outline 0 (behindBreak (rest.take (room - line.length))) (at_ + ((line.take room).length + 1)) number none).take
          count := by
  have hmoved : ∀ all to_, (outline 0 all to_ number none).take count =
      ((outline 0 all 0 number none).take count).map (·.moved to_) := by
    intro all to_
    have h := outline_moved all 0 to_ number none
    rw [Nat.zero_add] at h
    rw [h, map_take]
  rw [hmoved (behindBreak (rest.take (room - next.length))) (at_ + ((next.take room).length + 1)),
    hmoved (behindBreak (rest.take (room - next.length))) (at_ + ((line.take room).length + 1))]
  by_cases hshort : line.length < room ∧ next.length < room
  · have hline : line.take room = line := take_of_length_le (by omega)
    have hnext : next.take room = next := take_of_length_le (by omega)
    rw [hline, hnext]
    refine carried_iff (fun entry hentry => ?_) hwidth
    exact (outline_offsets (mem_of_mem_take hentry)).1
  · -- on one side the analyser stops with the line
    have hnone : ∀ width, room ≤ width → behindBreak (rest.take (room - width)) = [] := by
      intro width hle
      rw [Nat.sub_eq_zero_of_le hle, take_zero]
      rfl
    have hempty : outline 0 [] 0 number none = [] := rfl
    by_cases hnext : next.length < room
    · rw [hnone line.length (by omega)]
      have hnil : ∀ to_, (outline 0 [] to_ number none).take count = [] := fun to_ => take_nil
      rw [hnil, map_nil, map_eq_nil_iff, map_eq_nil_iff]
    rw [hnone next.length (by omega), hempty, take_nil, map_nil, map_nil]
    constructor
    · intro h
      exact (map_eq_nil_iff.mp h.symm).symm
    · intro h
      rw [← h, map_nil]

/-- A rename that goes through is faithful exactly when the analyser finds the new line where it looks, and finds
behind it what it found. -/
theorem renamed_iff {before : List JsString} {i : Nat} {line rest : JsString} (hi : i < maxItems)
    (htext : text = leading before ++ (line ++ rest)) (hline : newline ∉ line)
    (hrest : rest = [] ∨ rest.head? = some newline) (hroom : (leading before).length < maxAnalyzedChars)
    (hat : HeadingAt (window text) i heading.entry before (line.take (maxAnalyzedChars - (leading before).length))
      (behindBreak (rest.take (maxAnalyzedChars - (leading before).length - line.length))))
    (hfrom : heading.sectionFrom = (leading before).length)
    (hmatch : titleMatch line = some (marks, found, closing)) (htitle : title ≠ []) (htrimmed : Trimmed title)
    (hbreaks : ∀ c ∈ title, isBreak c = false) :
    RenamedTo text heading title (leading before ++ ((marks ++ [space] ++ title ++ closing) ++ rest)) ↔
      (unbroken title = true ∧
        Closed title (closing.take (maxAnalyzedChars - (leading before).length - titleEnd line heading.level title)) ∧
        titleEnd line heading.level title ≤ maxAnalyzedChars - (leading before).length) ∧
      entries (leading before ++ (line.take (maxAnalyzedChars - (leading before).length) ++
        rest.take (maxAnalyzedChars - (leading before).length - (titleEnd line heading.level title + closing.length)))) =
        entries (window text) := by
  obtain ⟨indent, level, behind, hmarks, hclosing, -, hpair⟩ := titleMatch_parts hmatch
  have hlevel : ∃ indent behind, atxMarks line = some (indent, heading.level, behind) := by
    obtain ⟨j, b, hj, -⟩ := reported_level hat.entry
    exact ⟨j, b, hj⟩
  have hwidth : (marks ++ [space] ++ title ++ closing).length = titleEnd line heading.level title + closing.length := by
    obtain ⟨j, b, hj⟩ := hlevel
    have hmarks' := hmarks
    rw [hj] at hmarks'
    cases hmarks'
    rw [titleEnd, atxMarks_indent hj, hpair]
    simp
    omega
  have hnext : newline ∉ marks ++ [space] ++ title ++ closing := by
    intro hmem
    rcases mem_append.mp hmem with hmem | hmem
    · rcases mem_append.mp hmem with hmem | hmem
      · rcases mem_append.mp hmem with hmem | hmem
        · rw [hpair] at hmem
          rcases mem_append.mp hmem with hmem | hmem
          · cases eq_of_mem_replicate hmem
          · cases eq_of_mem_replicate hmem
        · cases mem_singleton.mp hmem
      · cases hbreaks newline hmem
    · exact newline_not_mem (endsHeading_unbroken (endsTitle_heading hclosing)) hmem
  have hrenamed := renamed_line (leading before).length (before.length + 1) (maxAnalyzedChars - (leading before).length)
    hmatch hlevel htitle htrimmed hbreaks
  have hbefore := hat.no_newline.1
  rw [← hrenamed, ← hwidth]
  generalize marks ++ [space] ++ title ++ closing = next at hnext hrenamed ⊢
  have hlines : ∀ source : JsString, newline ∉ source → lines (leading before ++
      (source.take (maxAnalyzedChars - (leading before).length) ++
      rest.take (maxAnalyzedChars - (leading before).length - next.length))) =
      before ++ source.take (maxAnalyzedChars - (leading before).length) ::
        behindBreak (rest.take (maxAnalyzedChars - (leading before).length - next.length)) := fun source hsource => by
    rw [lines_leading hbefore, lines_break (fun hmem => hsource (mem_of_mem_take hmem)) (break_take hrest _)]
  have hwindow : window (leading before ++ (next ++ rest)) = leading before ++
      (next.take (maxAnalyzedChars - (leading before).length) ++
        rest.take (maxAnalyzedChars - (leading before).length - next.length)) := window_line (by omega)
  have hlines₁ := hlines line hline
  have hlines₂ : lines (window (leading before ++ (next ++ rest))) = _ := (congrArg lines hwindow).trans (hlines next hnext)
  -- what the report should be
  have hwant : (entries (window text)).map (renamedEntry heading.sectionFrom title text.length
      (leading before ++ (next ++ rest)).length) =
      outline (bodyOf (window text)) before 0 1 none ++ ⟨heading.level, title, (leading before).length, before.length + 1⟩ ::
        ((outline 0 (behindBreak (rest.take (maxAnalyzedChars - (leading before).length - line.length)))
          ((leading before).length + ((line.take (maxAnalyzedChars - (leading before).length)).length + 1))
            (before.length + 2) none).take
            (maxItems - (i + 1))).map (·.carried text.length (leading before ++ (next ++ rest)).length) := by
    rw [hat.entries_split hi, map_append, map_cons]
    have hearlier : (outline (bodyOf (window text)) before 0 1 none).map (renamedEntry heading.sectionFrom title text.length
        (leading before ++ (next ++ rest)).length) = outline (bodyOf (window text)) before 0 1 none := by
      refine (map_congr_left (g := id) fun entry hentry => ?_).trans (map_id _)
      have hlt := (outline_offsets hentry).2
      rw [renamedEntry, if_pos (by rw [hfrom]; omega)]
      rfl
    have hhere : renamedEntry heading.sectionFrom title text.length (leading before ++ (next ++ rest)).length
        heading.entry = ⟨heading.level, title, (leading before).length, before.length + 1⟩ := by
      have hnot : ¬ heading.entry.from_ < heading.sectionFrom := Nat.lt_irrefl _
      have hsame : heading.entry.from_ = heading.sectionFrom := rfl
      have hnumber := entryOf_line hat.entry
      rw [renamedEntry, if_neg hnot, if_pos hsame, ← hfrom, ← hnumber]
      rfl
    rw [hearlier, hhere]
    refine congrArg (fun tail => _ ++ _ :: tail) (map_congr_left fun entry hentry => ?_)
    have hle := (outline_offsets (mem_of_mem_take hentry)).1
    rw [renamedEntry, if_neg (by rw [hfrom]; omega), if_neg (by rw [hfrom]; omega)]
  have hwidths : text.length + next.length = (leading before ++ (next ++ rest)).length + line.length := by
    rw [htext]
    simp only [length_append]
    omega
  have htail := rest_iff (leading before).length (maxAnalyzedChars - (leading before).length) (maxItems - (i + 1))
    (before.length + 2) rest hwidths
  constructor
  · intro h
    have hreport : entries (window (leading before ++ (next ++ rest))) = _ :=
      (congrArg (List.map IntelligenceHeading.entry) (analyzeDocument_headings _)).symm.trans
        (h.report.trans ((congrArg (List.map _) (congrArg (List.map IntelligenceHeading.entry)
          (analyzeDocument_headings text))).trans hwant))
    have hmem : (⟨heading.level, title, (leading before).length, before.length + 1⟩ : OutlineEntry) ∈
        entries (window (leading before ++ (next ++ rest))) := by
      rw [hreport]
      simp
    obtain ⟨j, hj, hat₂⟩ := headingAt_line hmem hlines₂ rfl
    have hat₁ := hat₂.replace hlines₁ hat.entry fun hopen => hopen
    have hbody₁ := hat.bodyOf_eq_of_le hat₁
    have hbody₂ := hat.bodyOf_eq_of_le hat₂
    obtain rfl : i = j := by rw [← hat.index, ← hat₂.index, hbody₂]
    refine ⟨hat₂.entry, ?_⟩
    rw [hat₂.entries_split hi, hbody₂] at hreport
    have hcarried := (List.cons.inj (append_cancel_left hreport)).2
    rw [hat₁.entries_split hi, hat.entries_split hi, hbody₁, htail.mp hcarried]
  · rintro ⟨hentry, hentries⟩
    have hmem : heading.entry ∈ entries (leading before ++ (line.take (maxAnalyzedChars - (leading before).length) ++
        rest.take (maxAnalyzedChars - (leading before).length - next.length))) := by
      rw [hentries]
      exact hat.mem hi
    obtain ⟨j, hj, hat₁⟩ := headingAt_line hmem hlines₁ hfrom
    have hat₂ := hat₁.replace hlines₂ hentry fun hopen => hopen
    have hbody₁ := hat.bodyOf_eq_of_le hat₁
    have hbody₂ := hat.bodyOf_eq_of_le hat₂
    obtain rfl : i = j := by rw [← hat.index, ← hat₁.index, hbody₁]
    rw [hat₁.entries_split hi, hat.entries_split hi, hbody₁] at hentries
    have hcarried := htail.mpr (List.cons.inj (append_cancel_left hentries)).2
    refine ⟨⟨leading before, line, next, rest, htext, rfl, hfrom.symm, hline, hnext, hrest⟩, ?_⟩
    rw [analyzeDocument_headings, analyzeDocument_headings]
    show entries (window (leading before ++ (next ++ rest))) = (entries (window text)).map _
    rw [hwant, hat₂.entries_split hi, hbody₂, hcarried]

/-- A rename to an accepted title is faithful exactly when the line and the title are one line for the expressions and
nothing of the title is taken for a closing mark. -/
theorem renameHeading_faithful_iff (hreported : heading ∈ (analyzeDocument text).headings)
    (haccepted : nextTitle title ≠ [] ∧ (nextTitle title).length ≤ 240) :
    Renames text heading title ↔ Renameable text heading (nextTitle title) := by
  obtain ⟨i, before, line, rest, hi, htext, hline, hrest, hfrom, hroom, hat⟩ := reported_at hreported
  have hheadingLine := headingLine_eq htext hfrom hline hrest
  have hrename := renameHeading_eq htext hfrom hline hrest title
  rw [if_neg (by rintro (hnil | hlong); exacts [haccepted.1 hnil, absurd haccepted.2 (by omega)])] at hrename
  have htake : text.take heading.sectionFrom = leading before := by rw [hfrom, htext, take_left]
  have hdrop : text.drop (heading.sectionFrom + line.length) = rest := by
    rw [hfrom, ← drop_drop, htext, drop_left, drop_left]
  have hcut : ∀ kept, cutBehind text heading kept =
      leading before ++ (line.take (maxAnalyzedChars - (leading before).length) ++ rest.take kept) := by
    intro kept
    rw [cutBehind, hheadingLine]
    dsimp only
    rw [htake, hdrop, roomAt, hfrom]
  cases hmatch : titleMatch line with
  | none =>
    rw [hmatch] at hrename
    constructor
    · rintro ⟨result, hok, -⟩
      rw [hrename] at hok
      exact absurd hok (by simp [throw, throwThe, MonadExceptOf.throw])
    intro h
    have hunbroken := h.line_unbroken
    rw [hheadingLine] at hunbroken
    obtain ⟨indent, behind, hmarks, hgap, hlength⟩ := reported_level hat.entry
    obtain ⟨hsplit, -⟩ := atxMarks_eq_some.mp hmarks
    dsimp only at hunbroken
    rw [hsplit] at hunbroken
    have hsome := titleMatch_isSome.mpr ⟨indent, _, behind, hmarks, hgap, hlength,
      (unbroken_append.mp (unbroken_append.mp hunbroken).2).2⟩
    rw [hmatch] at hsome
    cases hsome
  | some found =>
    obtain ⟨marks, found, closing⟩ := found
    rw [hmatch] at hrename
    have hclosing : closingOf line = closing := by rw [closingOf, hmatch]; rfl
    have hiff := renamed_iff hi htext hline hrest hroom hat hfrom hmatch haccepted.1 (nextTitle_trimmed title)
      (nextTitle_no_break title)
    have hspec : Renameable text heading (nextTitle title) ↔
        (unbroken (nextTitle title) = true ∧
          Closed (nextTitle title) (closing.take
            (maxAnalyzedChars - (leading before).length - titleEnd line heading.level (nextTitle title))) ∧
          titleEnd line heading.level (nextTitle title) ≤ maxAnalyzedChars - (leading before).length) ∧
        entries (leading before ++ (line.take (maxAnalyzedChars - (leading before).length) ++
          rest.take (maxAnalyzedChars - (leading before).length -
            (titleEnd line heading.level (nextTitle title) + closing.length)))) = entries (window text) := by
      have hunbroken : unbroken line = true := by
        obtain ⟨-, -, -, -, -, hunbroken, -⟩ := titleMatch_parts hmatch
        exact hunbroken
      constructor
      · rintro ⟨-, htitle, hclosed, hfits, hsame⟩
        rw [hheadingLine] at hclosed hfits hsame
        dsimp only at hclosed hfits hsame
        rw [hclosing, roomAt, hfrom] at hclosed
        rw [roomAt, hfrom] at hfits
        rw [hcut, hclosing, roomAt, hfrom] at hsame
        exact ⟨⟨htitle, hclosed, hfits⟩, hsame⟩
      · rintro ⟨⟨htitle, hclosed, hfits⟩, hsame⟩
        refine ⟨by rw [hheadingLine]; exact hunbroken, htitle, ?_, ?_, ?_⟩
        · rw [hheadingLine, roomAt, hfrom]
          dsimp only
          rw [hclosing]
          exact hclosed
        · rw [hheadingLine, roomAt, hfrom]
          exact hfits
        · rw [hcut, hheadingLine, roomAt, hfrom]
          dsimp only
          rw [hclosing]
          exact hsame
    rw [hspec, ← hiff]
    constructor
    · rintro ⟨result, hok, hrenamed⟩
      rw [hrename] at hok
      cases hok
      exact hrenamed
    · intro hrenamed
      exact ⟨_, hrename, hrenamed⟩

end

/-- `# A` on the only line. -/
def plainHeading : IntelligenceHeading := ⟨1, [65], ⟨0, 3, 1, 1⟩, 0, 3⟩

theorem rename_faithful_plain :
    (plainHeading ∈ (analyzeDocument [35, 32, 65]).headings ∧ nextTitle [66] ≠ [] ∧ (nextTitle [66]).length ≤ 240) ∧
      (Renames [35, 32, 65] plainHeading [66] ↔ Renameable [35, 32, 65] plainHeading (nextTitle [66])) :=
  have hreported : plainHeading ∈ (analyzeDocument [35, 32, 65]).headings := by decide +kernel
  have haccepted : nextTitle [66] ≠ [] ∧ (nextTitle [66]).length ≤ 240 := by decide +kernel
  ⟨⟨hreported, haccepted⟩, renameHeading_faithful_iff hreported haccepted⟩

/-- `# A` on a line that ends in a carriage return and a line feed. -/
theorem rename_crlf_refused :
    ¬ ∀ text heading title, heading ∈ (analyzeDocument text).headings →
      nextTitle title ≠ [] ∧ (nextTitle title).length ≤ 240 → Renames text heading title := by
  intro h
  obtain ⟨result, hok, -⟩ := h [35, 32, 65, 13, 10] ⟨1, [65], ⟨0, 3, 1, 1⟩, 0, 5⟩ [66] (by decide +kernel)
    (by decide +kernel)
  have herror : (renameHeading [35, 32, 65, 13, 10] ⟨1, [65], ⟨0, 3, 1, 1⟩, 0, 5⟩ [66]).toOption = none := by
    decide +kernel
  rw [hok] at herror
  exact absurd herror (by simp [Except.toOption])

end Marks
