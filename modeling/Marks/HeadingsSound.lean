import Marks.Headings

/-! # What the analyser matches

The expressions are greedy and give back what they must, so what they match is said here without the search. -/

namespace Marks

open JsString List

/-! ## Searching -/

/-- No code unit that `.` refuses. -/
def unbroken (s : JsString) : Bool := s.all (!isLineTerminator ·)

theorem unbroken_append {a b : JsString} : unbroken (a ++ b) = true ↔ unbroken a = true ∧ unbroken b = true := by
  simp [unbroken, all_append]

variable {c : UInt16} {s : JsString}

theorem unbroken_cons :
    unbroken (c :: s) = true ↔ isLineTerminator c = false ∧ unbroken s = true := by
  simp [unbroken]

theorem newline_not_mem (h : unbroken s = true) : newline ∉ s := by
  intro hmem
  have hc := all_eq_true.mp h newline hmem
  cases hc

theorem gap_unbroken (h : isGap c = true) : isLineTerminator c = false := by
  rcases (Bool.or_eq_true _ _).mp h with hc | hc
  · rw [eq_of_beq hc]
    rfl
  · rw [eq_of_beq hc]
    rfl

theorem hash_unbroken (h : isHash c = true) : isLineTerminator c = false := by
  rw [eq_of_beq h]
  rfl

theorem hash_not_gap (h : isHash c = true) : isGap c = false := by
  rw [eq_of_beq h]
  rfl

theorem gap_space (h : isGap c = true) : isSpace c = true := by
  rcases (Bool.or_eq_true _ _).mp h with hc | hc
  · rw [eq_of_beq hc]
    rfl
  · rw [eq_of_beq hc]
    rfl

variable {p : UInt16 → Bool}

theorem run_append {a b : JsString} (ha : a.all p = true) : run p (a ++ b) = a.length + run p b := by
  rw [run, run, takeWhile_append_of_pos (all_eq_true.mp ha), length_append]

theorem run_le (p : UInt16 → Bool) (s : JsString) : run p s ≤ s.length := (List.takeWhile_prefix p).length_le

theorem take_run (p : UInt16 → Bool) (s : JsString) : s.take (run p s) = s.takeWhile p :=
  (prefix_iff_eq_take.mp (List.takeWhile_prefix p)).symm

theorem take_run_all (p : UInt16 → Bool) (s : JsString) : (s.take (run p s)).all p = true := by
  rw [take_run]
  exact all_takeWhile

theorem drop_run_eq (p : UInt16 → Bool) (s : JsString) : s.drop (run p s) = s.dropWhile p := by
  have h := takeWhile_append_dropWhile (p := p) (l := s)
  rw [← take_run] at h
  exact append_cancel_left ((take_append_drop (run p s) s).trans h.symm)

theorem run_zero (h : p c = false) : run p (c :: s) = 0 := by
  rw [run, takeWhile_cons_of_neg (by rw [h]; exact Bool.false_ne_true)]
  rfl

variable {accepts : JsString → Bool} {found : JsString}

theorem shortest_eq_some :
    shortest accepts s = some found ↔
      ∃ rest, s = found ++ rest ∧ found ≠ [] ∧ unbroken found = true ∧ accepts rest = true ∧
        ∀ a b, found = a ++ b → a ≠ [] → b ≠ [] → accepts (b ++ rest) = false := by
  induction s generalizing found with
  | nil =>
    constructor
    · intro h
      exact absurd h (by simp [shortest])
    · rintro ⟨rest, hs, hne, -⟩
      exact absurd (append_eq_nil_iff.mp hs.symm).1 hne
  | cons c s ih =>
    have hunfold : shortest accepts (c :: s) = if isLineTerminator c then none else
        if accepts s then some [c] else (shortest accepts s).map (c :: ·) := rfl
    rw [hunfold]
    cases hc : isLineTerminator c with
    | true =>
      constructor
      · intro h
        cases h
      rintro ⟨rest, hs, hne, hplain, -⟩
      cases found with
      | nil => exact absurd rfl hne
      | cons d found =>
        obtain ⟨rfl, -⟩ := List.cons.inj hs
        exact absurd (unbroken_cons.mp hplain).1 (by simp [hc])
    | false =>
      rw [if_neg Bool.false_ne_true]
      cases haccept : accepts s with
      | true =>
        rw [if_pos rfl]
        constructor
        · intro h
          cases h
          refine ⟨s, rfl, by simp, unbroken_cons.mpr ⟨hc, rfl⟩, haccept, ?_⟩
          intro a b hab ha hb
          have hlength := congrArg List.length hab
          have hpa := length_pos_iff.mpr ha
          have hpb := length_pos_iff.mpr hb
          simp at hlength
          omega
        · rintro ⟨rest, hs, hne, hplain, hrest, hearlier⟩
          cases found with
          | nil => exact absurd rfl hne
          | cons d found =>
            obtain ⟨rfl, htail⟩ := List.cons.inj hs
            cases found with
            | nil => rfl
            | cons e found =>
              have hs' : s = e :: found ++ rest := htail
              have h := hearlier [c] (e :: found) rfl (by simp) (by simp)
              rw [← hs', haccept] at h
              cases h
      | false =>
        rw [if_neg Bool.false_ne_true]
        constructor
        · intro h
          obtain ⟨tail, htail, rfl⟩ := Option.map_eq_some_iff.mp h
          obtain ⟨rest, hs, hne, hplain, hrest, hearlier⟩ := ih.mp htail
          refine ⟨rest, by rw [hs]; rfl, by simp, unbroken_cons.mpr ⟨hc, hplain⟩, hrest, ?_⟩
          intro a b hab ha hb
          cases a with
          | nil => exact absurd rfl ha
          | cons d a =>
            obtain ⟨-, htail⟩ := List.cons.inj hab
            cases a with
            | nil =>
              have hb' : tail = b := htail
              rw [← hb', ← hs]
              exact haccept
            | cons e a => exact hearlier (e :: a) b htail (by simp) hb
        · rintro ⟨rest, hs, hne, hplain, hrest, hearlier⟩
          cases found with
          | nil => exact absurd rfl hne
          | cons d found =>
            obtain ⟨rfl, htail⟩ := List.cons.inj hs
            have hfound : found ≠ [] := by
              rintro rfl
              have hs' : s = rest := htail
              rw [← hs', haccept] at hrest
              cases hrest
            have h := ih.mpr ⟨rest, htail, hfound, (unbroken_cons.mp hplain).2, hrest, fun a b hab ha hb =>
              hearlier (c :: a) b (by rw [hab]; rfl) (by simp) hb⟩
            rw [h]
            rfl

theorem shortest_isSome (hnil : accepts [] = true) (hs : s ≠ [])
    (hplain : unbroken s = true) : (shortest accepts s).isSome = true := by
  induction s with
  | nil => exact absurd rfl hs
  | cons c s ih =>
    obtain ⟨hc, hplain⟩ := unbroken_cons.mp hplain
    have hunfold : shortest accepts (c :: s) = if isLineTerminator c then none else
        if accepts s then some [c] else (shortest accepts s).map (c :: ·) := rfl
    rw [hunfold, hc, if_neg Bool.false_ne_true]
    cases haccept : accepts s with
    | true => rfl
    | false =>
      have hne : s ≠ [] := by
        rintro rfl
        exact absurd hnil (by simp [haccept])
      rw [if_neg Bool.false_ne_true, Option.isSome_map]
      exact ih hne hplain

theorem spaced_some {gap : Nat}
    (h : spaced accepts s = some (gap, found)) :
    1 ≤ gap ∧ gap ≤ run isGap s ∧ shortest accepts (s.drop gap) = some found := by
  obtain ⟨n, hn, hsome⟩ := exists_of_findSome?_eq_some h
  obtain ⟨k, hk, rfl⟩ := mem_map.mp hn
  obtain ⟨t, ht, heq⟩ := Option.map_eq_some_iff.mp hsome
  cases heq
  have hlt := mem_range.mp (mem_reverse.mp hk)
  exact ⟨Nat.le_add_left 1 k, hlt, ht⟩

theorem spaced_eq {gaps content : JsString} (hgaps : gaps.all isGap = true)
    (hne : gaps ≠ []) (hcontent : run isGap content = 0) (hfound : shortest accepts content = some found) :
    spaced accepts (gaps ++ content) = some (gaps.length, found) := by
  have hrun : run isGap (gaps ++ content) = gaps.length := by rw [run_append hgaps, hcontent, Nat.add_zero]
  obtain ⟨n, hn⟩ : ∃ n, gaps.length = n + 1 := ⟨gaps.length - 1, by have := length_pos_iff.mpr hne; omega⟩
  rw [spaced, hrun, hn, range_succ, reverse_append, map_append, findSome?_append]
  have hdrop : (gaps ++ content).drop (n + 1) = content := by rw [← hn, drop_left]
  simp [hdrop, hfound]

theorem spaced_isSome (hnil : accepts [] = true)
    (hplain : ∀ s, accepts s = true → unbroken s = true) :
    (spaced accepts s).isSome = true ↔ 1 ≤ run isGap s ∧ 2 ≤ s.length ∧ unbroken s = true := by
  have hgaps : ∀ n, n ≤ run isGap s → unbroken (s.take n) = true := by
    intro n hn
    refine all_eq_true.mpr fun c hc => ?_
    have hmem : c ∈ s.take (run isGap s) := (take_subset_take_left s hn) hc
    have hgap := all_eq_true.mp (take_run_all isGap s) c hmem
    rw [gap_unbroken hgap]
    rfl
  constructor
  · intro h
    obtain ⟨⟨gap, found⟩, hsome⟩ := Option.isSome_iff_exists.mp h
    obtain ⟨hpos, hle, hshort⟩ := spaced_some hsome
    obtain ⟨rest, hs, hne, hfound, haccept, -⟩ := shortest_eq_some.mp hshort
    have hpos' := length_pos_iff.mpr hne
    have hlength := congrArg List.length hs
    rw [length_drop, length_append] at hlength
    refine ⟨by omega, by omega, ?_⟩
    rw [← take_append_drop gap s, unbroken_append]
    refine ⟨hgaps gap hle, ?_⟩
    rw [hs, unbroken_append]
    exact ⟨hfound, hplain rest haccept⟩
  · rintro ⟨hpos, hlength, hall⟩
    -- a gap that leaves something behind it
    have hgap : ∃ gap, 1 ≤ gap ∧ gap ≤ run isGap s ∧ gap < s.length := by
      have hle := run_le isGap s
      rcases Nat.lt_or_ge (run isGap s) s.length with hlt | hge
      · exact ⟨run isGap s, hpos, Nat.le_refl _, hlt⟩
      · exact ⟨run isGap s - 1, by omega, by omega, by omega⟩
    obtain ⟨gap, hpos, hle, hlt⟩ := hgap
    have hne : s.drop gap ≠ [] := by
      intro hnil
      have := congrArg List.length hnil
      rw [length_drop, length_nil] at this
      omega
    have hdrop : unbroken (s.drop gap) = true := by
      rw [← take_append_drop gap s, unbroken_append] at hall
      exact hall.2
    have hshort := shortest_isSome hnil hne hdrop
    rw [spaced, findSome?_isSome_iff]
    refine ⟨gap, ?_, by rw [Option.isSome_map]; exact hshort⟩
    exact mem_map.mpr ⟨gap - 1, mem_reverse.mpr (mem_range.mpr (by omega)), by omega⟩

theorem gap_not_hash (h : isGap c = true) : isHash c = false := by
  cases hc : isHash c with
  | false => rfl
  | true => exact absurd (hash_not_gap hc) (by simp [h])

theorem run_all (h : s.all p = true) : run p s = s.length := by
  have hrun := run_append (b := []) h
  rw [append_nil] at hrun
  exact hrun

theorem endsHeading_iff :
    endsHeading s = true ↔
      ∃ a b c, s = a ++ (b ++ c) ∧ a.all isGap = true ∧ b.all isHash = true ∧ c.all isGap = true := by
  constructor
  · intro h
    refine ⟨s.take (run isGap s), (s.drop (run isGap s)).take (run isHash (s.drop (run isGap s))), _, ?_,
      take_run_all _ _, take_run_all _ _, h⟩
    rw [take_append_drop, take_append_drop]
  · rintro ⟨a, b, c, rfl, ha, hb, hc⟩
    cases b with
    | nil =>
      have hall : (a ++ ([] ++ c)).all isGap = true := by rw [nil_append, all_append, ha, hc]; rfl
      rw [endsHeading, run_all hall, drop_length]
      rfl
    | cons d b =>
      have hd : isHash d = true := all_eq_true.mp hb d (mem_cons_self)
      have hgap : run isGap (a ++ ((d :: b) ++ c)) = a.length := by
        rw [run_append ha, cons_append, run_zero (hash_not_gap hd), Nat.add_zero]
      have hhash : run isHash ((d :: b) ++ c) = (d :: b).length := by
        rw [run_append hb]
        cases c with
        | nil => rfl
        | cons e c => rw [run_zero (gap_not_hash (all_eq_true.mp hc e (mem_cons_self))), Nat.add_zero]
      have hdrop : (a ++ ((d :: b) ++ c)).drop a.length = (d :: b) ++ c := drop_left
      have hdrop' : ((d :: b) ++ c).drop (d :: b).length = c := drop_left
      rw [endsHeading, hgap, hdrop]
      show (((d :: b) ++ c).drop (run isHash ((d :: b) ++ c))).all isGap = true
      rw [hhash, hdrop', hc]

theorem endsHeading_unbroken (h : endsHeading s = true) : unbroken s = true := by
  obtain ⟨a, b, c, rfl, ha, hb, hc⟩ := endsHeading_iff.mp h
  refine all_eq_true.mpr fun d hd => ?_
  have hd : isLineTerminator d = false := by
    rcases mem_append.mp hd with hd | hd
    · exact gap_unbroken (all_eq_true.mp ha d hd)
    · rcases mem_append.mp hd with hd | hd
      · exact hash_unbroken (all_eq_true.mp hb d hd)
      · exact gap_unbroken (all_eq_true.mp hc d hd)
  rw [hd]
  rfl

/-! ### Marks -/

variable {indent level : Nat}

theorem atxMarks_eq_some {behind : JsString} :
    atxMarks s = some (indent, level, behind) ↔
      s = List.replicate indent 32 ++ (List.replicate level 35 ++ behind) ∧ indent ≤ 3 ∧ 1 ≤ level ∧ level ≤ 6 ∧
        behind.head? ≠ some 35 := by
  constructor
  · intro h
    rw [atxMarks] at h
    by_cases hcond : run (· == space) s ≤ 3 ∧ 1 ≤ run isHash (s.drop (run (· == space) s)) ∧
        run isHash (s.drop (run (· == space) s)) ≤ 6
    · have h' := h
      simp only [if_pos hcond] at h'
      clear h
      cases h'
      have hspaces : s.take (run (· == space) s) = List.replicate (run (· == space) s) 32 := by
        refine eq_replicate_iff.mpr ⟨length_take_of_le (run_le _ _), fun c hc => ?_⟩
        exact eq_of_beq (all_eq_true.mp (take_run_all (· == space) s) c hc)
      have hhashes : (s.drop (run (· == space) s)).take (run isHash (s.drop (run (· == space) s))) =
          List.replicate (run isHash (s.drop (run (· == space) s))) 35 := by
        refine eq_replicate_iff.mpr ⟨length_take_of_le (run_le _ _), fun c hc => ?_⟩
        exact eq_of_beq (all_eq_true.mp (take_run_all isHash _) c hc)
      refine ⟨?_, hcond.1, hcond.2.1, hcond.2.2, ?_⟩
      · rw [← hspaces, ← hhashes, ← drop_drop, take_append_drop, take_append_drop]
      rw [← drop_drop, drop_run_eq]
      intro hhead
      obtain ⟨rest, hrest⟩ := head?_eq_some_iff.mp hhead
      have hnot := head_dropWhile_not isHash (w := by rw [hrest]; simp)
      simp only [hrest, head_cons] at hnot
      cases hnot
    · simp only [if_neg hcond] at h
      cases h
  · rintro ⟨rfl, hindent, hpos, hle, hhead⟩
    obtain ⟨n, rfl⟩ : ∃ n, level = n + 1 := ⟨level - 1, by omega⟩
    have hspaces : (List.replicate indent (32 : UInt16)).all (· == space) = true :=
      all_replicate.trans (by simp [space])
    have hhashes : (List.replicate (n + 1) (35 : UInt16)).all isHash = true := by
      simp [isHash]
    have hrun : run (· == space) (List.replicate indent 32 ++ (List.replicate (n + 1) 35 ++ behind)) = indent := by
      rw [run_append hspaces, replicate_succ, cons_append, run_zero (by decide), length_replicate]
      rfl
    have hdrop : (List.replicate indent (32 : UInt16) ++ (List.replicate (n + 1) 35 ++ behind)).drop indent =
        List.replicate (n + 1) 35 ++ behind := by
      rw [drop_append_of_le_length (by simp), drop_eq_nil_of_le (by simp), nil_append]
    have hlevel : run isHash (List.replicate (n + 1) 35 ++ behind) = n + 1 := by
      rw [run_append hhashes, length_replicate]
      cases behind with
      | nil => rfl
      | cons c behind =>
        have hc : isHash c = false := by
          cases hc : isHash c with
          | false => rfl
          | true => exact absurd (congrArg some (eq_of_beq hc)) hhead
        rw [run_zero hc]
    have hbehind : (List.replicate (n + 1) (35 : UInt16) ++ behind).drop (n + 1) = behind := by
      rw [drop_append_of_le_length (by simp), drop_eq_nil_of_le (by simp), nil_append]
    simp only [atxMarks, hrun, hdrop, hlevel]
    rw [if_pos ⟨hindent, hpos, hle⟩, ← drop_drop, hdrop, hbehind]

theorem atxMarks_append {behind : JsString} (h : atxMarks s = some (indent, level, behind))
    (hne : behind ≠ []) (more : JsString) : atxMarks (s ++ more) = some (indent, level, behind ++ more) := by
  obtain ⟨rfl, hindent, hpos, hle, hhead⟩ := atxMarks_eq_some.mp h
  refine atxMarks_eq_some.mpr ⟨by simp, hindent, hpos, hle, ?_⟩
  cases behind with
  | nil => exact absurd rfl hne
  | cons c behind => exact hhead

variable {value : JsString}

theorem headingMatch_eq_some :
    headingMatch value = some (indent, level, found) ↔
      ∃ behind gap, atxMarks value = some (indent, level, behind) ∧ spaced endsHeading behind = some (gap, found) := by
  unfold headingMatch
  constructor
  · intro h
    obtain ⟨⟨i, l, behind⟩, hmarks, h⟩ := Option.bind_eq_some_iff.mp h
    obtain ⟨⟨gap, t⟩, hspaced, h⟩ := Option.bind_eq_some_iff.mp h
    have hpair : some (i, l, t) = some (indent, level, found) := h
    cases hpair
    exact ⟨behind, gap, hmarks, hspaced⟩
  · rintro ⟨behind, gap, hmarks, hspaced⟩
    rw [hmarks]
    show (spaced endsHeading behind).bind _ = _
    rw [hspaced]
    rfl

theorem headingMatch_isSome :
    (headingMatch value).isSome = true ↔
      ∃ indent level behind, atxMarks value = some (indent, level, behind) ∧ 1 ≤ run isGap behind ∧
        2 ≤ behind.length ∧ unbroken behind = true := by
  have hnil : endsHeading [] = true := rfl
  constructor
  · intro h
    obtain ⟨⟨indent, level, found⟩, hsome⟩ := Option.isSome_iff_exists.mp h
    obtain ⟨behind, gap, hmarks, hspaced⟩ := headingMatch_eq_some.mp hsome
    have hs : (spaced endsHeading behind).isSome = true := by rw [hspaced]; rfl
    exact ⟨indent, level, behind, hmarks, (spaced_isSome hnil fun _ => endsHeading_unbroken).mp hs⟩
  · rintro ⟨indent, level, behind, hmarks, hbehind⟩
    have hs := (spaced_isSome hnil fun _ => endsHeading_unbroken).mpr hbehind
    obtain ⟨⟨gap, found⟩, hspaced⟩ := Option.isSome_iff_exists.mp hs
    exact Option.isSome_iff_exists.mpr ⟨_, headingMatch_eq_some.mpr ⟨behind, gap, hmarks, hspaced⟩⟩

theorem headingMatch_unbroken (h : (headingMatch value).isSome = true) : unbroken value = true := by
  obtain ⟨indent, level, behind, hmarks, -, -, hplain⟩ := headingMatch_isSome.mp h
  obtain ⟨rfl, -⟩ := atxMarks_eq_some.mp hmarks
  refine unbroken_append.mpr ⟨?_, unbroken_append.mpr ⟨?_, hplain⟩⟩
  · exact all_eq_true.mpr fun c hc => by rw [eq_of_mem_replicate hc]; rfl
  · exact all_eq_true.mpr fun c hc => by rw [eq_of_mem_replicate hc]; rfl

/-! ### Trimming -/

structure Trimmed (s : JsString) : Prop where
  head : ∀ c, s.head? = some c → isSpace c = false
  last : ∀ c, s.getLast? = some c → isSpace c = false

theorem trim_length (s : JsString) : (trim s).length ≤ s.length :=
  Nat.le_trans (List.rdropWhile_prefix _ _).length_le (dropWhile_suffix _).length_le

theorem trimmed_trim (s : JsString) : Trimmed (trim s) := by
  constructor
  · intro c hc
    obtain ⟨rest, hrest⟩ := head?_eq_some_iff.mp hc
    obtain ⟨more, hmore⟩ := List.rdropWhile_prefix isSpace (s.dropWhile isSpace)
    have hdrop : s.dropWhile isSpace = c :: (rest ++ more) := by
      rw [← hmore]
      show trim s ++ more = _
      rw [hrest, cons_append]
    have hnot := head_dropWhile_not isSpace (l := s) (w := by rw [hdrop]; simp)
    simpa [hdrop] using hnot
  · intro c hc
    have hne : (s.dropWhile isSpace).rdropWhile isSpace ≠ [] := by
      intro hnil
      have hc' : ((s.dropWhile isSpace).rdropWhile isSpace).getLast? = some c := hc
      rw [hnil] at hc'
      cases hc'
    have hnot := rdropWhile_last_not isSpace _ hne
    have hlast : ((s.dropWhile isSpace).rdropWhile isSpace).getLast hne = c := by
      have hc' : ((s.dropWhile isSpace).rdropWhile isSpace).getLast? = some c := hc
      rw [getLast?_eq_some_getLast hne] at hc'
      exact Option.some.inj hc'
    rw [hlast] at hnot
    exact Bool.eq_false_iff.mpr hnot

theorem trim_trimmed (h : Trimmed s) : trim s = s := by
  cases s with
  | nil => rfl
  | cons c s =>
    have hhead : (c :: s).dropWhile isSpace = c :: s :=
      dropWhile_cons_of_neg (by rw [h.head c rfl]; exact Bool.false_ne_true)
    rw [trim, hhead]
    refine (rdropWhile_eq_self_iff).mpr fun hne => ?_
    rw [h.last _ (getLast?_eq_some_getLast hne)]
    exact Bool.false_ne_true

end Marks
