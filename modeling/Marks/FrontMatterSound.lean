import Marks.Headings
import Marks.LinesSound

/-! # Front matter

The front matter closes at a line of its own, so it ends where it ended as long as the lines up to there stay and no
other line becomes a closing one. -/

namespace Marks

open JsString List

/-! ## Matching -/

theorem afterPrefix_append (a s : JsString) : afterPrefix a (a ++ s) = some s := by
  induction a with
  | nil => rfl
  | cons c a ih =>
    have hunfold : afterPrefix (c :: a) (c :: (a ++ s)) = if c = c then afterPrefix a (a ++ s) else none := rfl
    rw [cons_append, hunfold, if_pos rfl, ih]

variable {s : JsString}

variable {rest : JsString}

theorem afterPrefix_some {a : JsString} (h : afterPrefix a s = some rest) : s = a ++ rest := by
  induction a generalizing s with
  | nil => exact Option.some.inj h
  | cons c a ih =>
    cases s with
    | nil => exact absurd h (by simp [afterPrefix])
    | cons d s =>
      have hunfold : afterPrefix (c :: a) (d :: s) = if c = d then afterPrefix a s else none := rfl
      rw [hunfold] at h
      by_cases hcd : c = d
      · rw [if_pos hcd] at h
        rw [hcd, ih h, cons_append]
      · rw [if_neg hcd] at h
        cases h

theorem afterBreak_newline (s : JsString) : afterBreak (newline :: s) = some s := rfl

theorem afterBreak_ne {c : UInt16} (h : c ≠ newline) (s : JsString) :
    afterBreak (c :: s) = if c = 13 then afterPrefix [10] s else none := by
  have hunfold : afterBreak (c :: s) = (if 13 = c then afterPrefix [10] s else none).or
      (if 10 = c then some s else none) := rfl
  have hten : ¬ (10 : UInt16) = c := fun heq => h heq.symm
  rw [hunfold, if_neg hten, Option.or_none]
  by_cases hc : c = 13
  · rw [if_pos hc, if_pos hc.symm]
  · rw [if_neg hc, if_neg (fun heq => hc heq.symm)]

def Dashless (s : JsString) : Prop := s ≠ [] ∧ s.head? ≠ some 45

theorem Dashless.afterDashes (h : Dashless s) : afterDashes s = none := by
  cases s with
  | nil => exact absurd rfl h.1
  | cons c s =>
    have hc : (45 : UInt16) ≠ c := fun heq => h.2 (by rw [heq]; rfl)
    have hstarts : afterPrefix dashes (c :: s) = none := by
      have hunfold : afterPrefix dashes (c :: s) = if 45 = c then afterPrefix [45, 45] s else none := rfl
      rw [hunfold, if_neg hc]
    rw [Marks.afterDashes, hstarts]
    rfl

theorem Dashless.openingBytes (h : Dashless s) : openingBytes s = none := by
  cases s with
  | nil => exact absurd rfl h.1
  | cons c s =>
    have hc : (45 : UInt16) ≠ c := fun heq => h.2 (by rw [heq]; rfl)
    have hstarts : ∀ more, afterPrefix (45 :: more) (c :: s) = none := by
      intro more
      have hunfold : afterPrefix (45 :: more) (c :: s) = if 45 = c then afterPrefix more s else none := rfl
      rw [hunfold, if_neg hc]
    have hwide : afterPrefix (dashes ++ [13, 10]) (c :: s) = none := hstarts _
    have hnarrow : afterPrefix (dashes ++ [10]) (c :: s) = none := hstarts _
    rw [Marks.openingBytes, hwide, hnarrow]
    rfl

theorem findClosing_cons (c : UInt16) (s : JsString) :
    findClosing (c :: s) =
      ((afterClosing (c :: s)).map fun rest => (0, rest)).or
        ((findClosing s).map fun found => (found.1 + 1, found.2)) := by
  rw [findClosing]
  cases afterClosing (c :: s) <;> rfl

variable {source : JsString}

theorem findClosing_line (h : newline ∉ source) (s : JsString) :
    ∃ before, findClosing (source ++ newline :: s) =
      match afterDashes s with
      | some rest => some (before, rest)
      | none => (findClosing s).map fun found => (found.1 + (source.length + 1), found.2) := by
  have hcons : ∀ c t, findClosing (c :: t) = match afterClosing (c :: t) with
      | some rest => some (0, rest)
      | none => (findClosing t).map fun found => (found.1 + 1, found.2) := fun _ _ => rfl
  induction source with
  | nil =>
    refine ⟨0, ?_⟩
    rw [nil_append, hcons, afterClosing, afterBreak_newline]
    rfl
  | cons c source ih =>
    rw [mem_cons, not_or] at h
    obtain ⟨before, ih⟩ := ih h.2
    rw [cons_append, hcons, afterClosing, afterBreak_ne (Ne.symm h.1)]
    have hskip : ∃ before, (findClosing (source ++ newline :: s)).map (fun found => (found.1 + 1, found.2)) =
        match afterDashes s with
        | some rest => some (before, rest)
        | none => (findClosing s).map fun found => (found.1 + ((c :: source).length + 1), found.2) := by
      refine ⟨before + 1, ?_⟩
      rw [ih]
      cases afterDashes s with
      | some rest => rfl
      | none =>
        rw [Option.map_map]
        rfl
    cases source with
    | nil =>
      by_cases hc : c = 13
      · rw [if_pos hc]
        have hten : afterPrefix [10] ([] ++ newline :: s) = some s := rfl
        rw [hten]
        obtain ⟨before, hskip⟩ := hskip
        cases hdashes : afterDashes s with
        | some rest =>
          refine ⟨0, ?_⟩
          show (match (afterDashes s) with | some rest => some (0, rest) | none => _) = _
          rw [hdashes]
        | none =>
          refine ⟨before, ?_⟩
          show (match (afterDashes s) with | some rest => some (0, rest) | none => _) = _
          rw [hdashes] at hskip ⊢
          exact hskip
      · rw [if_neg hc]
        exact hskip
    | cons d source =>
      have hd : (10 : UInt16) ≠ d := fun heq => h.2 (by rw [← heq]; exact mem_cons_self)
      have hten : afterPrefix [10] (d :: source ++ newline :: s) = none := by
        have hunfold : afterPrefix [10] (d :: source ++ newline :: s) = if 10 = d then some (source ++ newline :: s) else none := rfl
        rw [hunfold, if_neg hd]
      rw [hten, ite_self]
      exact hskip

theorem afterDashes_line (h : newline ∉ source) (s : JsString) :
    afterDashes (source ++ newline :: s) = if source = dashes ∨ source = dashes ++ [13] then some s else none := by
  cases hstarts : afterPrefix dashes (source ++ newline :: s) with
  | none =>
    have hcond : ¬ (source = dashes ∨ source = dashes ++ [13]) := by
      rintro (rfl | rfl)
      · rw [afterPrefix_append] at hstarts
        cases hstarts
      · rw [append_assoc, afterPrefix_append] at hstarts
        cases hstarts
    rw [if_neg hcond, afterDashes, hstarts]
    rfl
  | some rest =>
    have hsplit := afterPrefix_some hstarts
    obtain ⟨more, rfl, hrest⟩ : ∃ more, source = dashes ++ more ∧ rest = more ++ newline :: s := by
      rcases append_eq_append_iff.mp hsplit with ⟨t, ht, hs⟩ | ⟨t, ht, hs⟩
      · cases t with
        | nil => exact ⟨[], by rw [append_nil] at ht ⊢; exact ht.symm, hs.symm⟩
        | cons c t =>
          obtain ⟨hc, -⟩ := List.cons.inj hs
          have hmem : newline ∈ dashes := by
            rw [ht, hc]
            simp
          exact absurd hmem (by decide)
      · exact ⟨t, ht, hs⟩
    have hunfold : afterDashes ((dashes ++ more) ++ newline :: s) = if rest = [] then some [] else afterBreak rest := by
      rw [afterDashes, hstarts]
      rfl
    have hne : rest ≠ [] := by
      rw [hrest]
      simp
    rw [hunfold, if_neg hne, hrest]
    cases more with
    | nil => rfl
    | cons c more =>
      have hc : c ≠ newline := fun heq => h (by rw [heq]; simp)
      have hdashes : ¬ dashes ++ c :: more = dashes := by
        intro heq
        exact absurd (congrArg List.length heq) (by simp)
      rw [cons_append, afterBreak_ne hc]
      cases more with
      | nil =>
        by_cases hthirteen : c = 13
        · rw [if_pos hthirteen, hthirteen]
          rfl
        have hcond : ¬ (dashes ++ [c] = dashes ∨ dashes ++ [c] = dashes ++ [13]) := by
          rintro (heq | heq)
          · exact hdashes heq
          · exact hthirteen (List.cons.inj (append_cancel_left heq)).1
        rw [if_neg hthirteen, if_neg hcond]
      | cons d more =>
        have hd : ¬ (10 : UInt16) = d := by
          intro heq
          refine h ?_
          rw [← heq]
          simp [newline]
        have hten : afterPrefix [10] (d :: more ++ newline :: s) = none := by
          have hunfold : afterPrefix [10] (d :: more ++ newline :: s) =
              if 10 = d then some (more ++ newline :: s) else none := rfl
          rw [hunfold, if_neg hd]
        have hcond : ¬ (dashes ++ c :: d :: more = dashes ∨ dashes ++ c :: d :: more = dashes ++ [13]) := by
          rintro (heq | heq)
          · exact hdashes heq
          · exact absurd (congrArg List.length heq) (by simp)
        rw [hten, ite_self, if_neg hcond]

theorem afterDashes_last (h : newline ∉ source) :
    afterDashes source = if source = dashes then some [] else none := by
  cases hstarts : afterPrefix dashes source with
  | none =>
    have hcond : source ≠ dashes := by
      rintro rfl
      cases hstarts
    rw [if_neg hcond, afterDashes, hstarts]
    rfl
  | some rest =>
    obtain rfl := afterPrefix_some hstarts
    have hunfold : afterDashes (dashes ++ rest) = if rest = [] then some [] else afterBreak rest := by
      rw [afterDashes, hstarts]
      rfl
    rw [hunfold]
    cases rest with
    | nil => rfl
    | cons c rest =>
      have hcond : ¬ dashes ++ c :: rest = dashes := by
        intro heq
        cases congrArg List.length heq
      have hc : c ≠ newline := fun heq => h (by rw [heq]; simp)
      have hten : afterPrefix [10] rest = none := by
        cases hten : afterPrefix [10] rest with
        | none => rfl
        | some more =>
          have hsplit := afterPrefix_some hten
          refine absurd ?_ h
          rw [hsplit]
          simp [newline]
      rw [if_neg (by simp), if_neg hcond, afterBreak_ne hc, hten, ite_self]

/-! ## Closing lines -/

def closes : List JsString → Bool
  | [] => false
  | [source] => source == dashes
  | source :: next :: rest => source == dashes || source == dashes ++ [13] || closes (next :: rest)

theorem findClosing_single (h : newline ∉ source) : findClosing source = none := by
  induction source with
  | nil => rfl
  | cons c source ih =>
    rw [mem_cons, not_or] at h
    have hten : afterPrefix [10] source = none := by
      cases hten : afterPrefix [10] source with
      | none => rfl
      | some more =>
        refine absurd ?_ h.2
        rw [afterPrefix_some hten]
        simp [newline]
    have hclosing : afterClosing (c :: source) = none := by
      rw [afterClosing, afterBreak_ne (Ne.symm h.1), hten, ite_self]
      rfl
    rw [findClosing_cons, hclosing, ih h.2]
    rfl

theorem findClosing_eq_none {rest : List JsString} (h : newline ∉ source)
    (hrest : ∀ next ∈ rest, newline ∉ next) :
    findClosing (joinLines (source :: rest)) = none ↔ closes rest = false := by
  induction rest generalizing source with
  | nil =>
    have hjoin : joinLines [source] = source := by simp [joinLines, List.intercalate]
    rw [hjoin, findClosing_single h]
    simp [closes]
  | cons next rest ih =>
    rw [forall_mem_cons] at hrest
    have ih := ih hrest.1 hrest.2
    obtain ⟨before, hline⟩ := findClosing_line h (joinLines (next :: rest))
    rw [joinLines_cons source (by simp), hline]
    cases rest with
    | nil =>
      have hjoin : joinLines [next] = next := by simp [joinLines, List.intercalate]
      rw [hjoin] at ih ⊢
      rw [afterDashes_last hrest.1, findClosing_single hrest.1]
      by_cases hnext : next = dashes
      · simp [hnext, closes]
      · simp [hnext, closes]
    | cons more rest =>
      have hdashes := afterDashes_line hrest.1 (joinLines (more :: rest))
      rw [joinLines_cons next (by simp)] at ih ⊢
      rw [hdashes]
      have hcloses : closes (next :: more :: rest) =
          (next == dashes || next == dashes ++ [13] || closes (more :: rest)) := rfl
      by_cases hnext : next = dashes ∨ next = dashes ++ [13]
      · have htrue : (next == dashes || next == dashes ++ [13]) = true := by
          rcases hnext with rfl | rfl <;> rfl
        rw [if_pos hnext, hcloses, htrue]
        simp
      · have hfalse : (next == dashes || next == dashes ++ [13]) = false := by
          rw [not_or] at hnext
          simp [hnext.1, hnext.2]
        rw [if_neg hnext, hcloses, hfalse, Bool.false_or, ← ih]
        exact Option.map_eq_none_iff

variable {pattern : JsString}

theorem includes_iff : includes pattern s = true ↔ ∃ a b, s = a ++ (pattern ++ b) := by
  induction s with
  | nil =>
    constructor
    · intro h
      obtain ⟨rest, hrest⟩ := Option.isSome_iff_exists.mp h
      exact ⟨[], rest, by rw [nil_append]; exact afterPrefix_some hrest⟩
    rintro ⟨a, b, h⟩
    obtain ⟨-, hpattern⟩ := append_eq_nil_iff.mp h.symm
    obtain ⟨rfl, -⟩ := append_eq_nil_iff.mp hpattern
    rfl
  | cons c s ih =>
    have hunfold : includes pattern (c :: s) = ((afterPrefix pattern (c :: s)).isSome || includes pattern s) := rfl
    rw [hunfold, Bool.or_eq_true, ih]
    constructor
    · rintro (h | ⟨a, b, rfl⟩)
      · obtain ⟨rest, hrest⟩ := Option.isSome_iff_exists.mp h
        exact ⟨[], rest, by rw [nil_append]; exact afterPrefix_some hrest⟩
      · exact ⟨c :: a, b, rfl⟩
    · rintro ⟨a, b, h⟩
      cases a with
      | nil =>
        refine Or.inl ?_
        have h' : c :: s = pattern ++ b := h
        rw [h', afterPrefix_append]
        rfl
      | cons d a => exact Or.inr ⟨a, b, (List.cons.inj h).2⟩

theorem includes_append (h : includes pattern s = true) (a b : JsString) :
    includes pattern (a ++ (s ++ b)) = true := by
  obtain ⟨x, y, rfl⟩ := includes_iff.mp h
  exact includes_iff.mpr ⟨a ++ x, y ++ b, by simp⟩

theorem leading_cons (source : JsString) (rest : List JsString) :
    leading (source :: rest) = source ++ newline :: leading rest := by
  simp [leading]

theorem afterBreak_length (h : afterBreak s = some rest) : rest.length < s.length := by
  rcases Option.or_eq_some_iff.mp h with h | ⟨-, h⟩
  · rw [afterPrefix_some h, length_append]
    show rest.length < 2 + rest.length
    omega
  · rw [afterPrefix_some h]
    exact Nat.lt_succ_self _

theorem afterClosing_length (h : afterClosing s = some rest) : rest.length < s.length := by
  obtain ⟨behind, hbehind, h⟩ := Option.bind_eq_some_iff.mp h
  obtain ⟨more, hmore, h⟩ := Option.bind_eq_some_iff.mp h
  have hlt := afterBreak_length hbehind
  rw [afterPrefix_some hmore, length_append] at hlt
  by_cases hnil : more = []
  · rw [if_pos hnil] at h
    cases h
    rw [length_nil]
    omega
  · rw [if_neg hnil] at h
    have := afterBreak_length h
    omega

theorem findClosing_length {n : Nat} (h : findClosing s = some (n, rest)) :
    rest.length < s.length := by
  induction s generalizing n with
  | nil => exact absurd h (by simp [findClosing])
  | cons c s ih =>
    rw [findClosing_cons] at h
    cases hclosing : afterClosing (c :: s) with
    | some more =>
      rw [hclosing] at h
      cases h
      exact afterClosing_length hclosing
    | none =>
      rw [hclosing] at h
      obtain ⟨found, hfound, heq⟩ := Option.map_eq_some_iff.mp h
      cases heq
      have hlt := ih (n := found.1) (by rw [hfound])
      rw [length_cons]
      omega

theorem findClosing_leading {before : List JsString} (h : ∀ source ∈ before, newline ∉ source) :
    (includes (newline :: dashes) (leading before) = true ∧ ∃ rest, rest.length ≤ (leading before).length ∧
        ∀ s, Dashless s → ∃ n, findClosing (leading before ++ s) = some (n, rest ++ s)) ∨
      ∀ s, Dashless s → findClosing (leading before ++ s) =
        (findClosing s).map fun found => (found.1 + (leading before).length, found.2) := by
  induction before with
  | nil =>
    refine Or.inr fun s _ => ?_
    show findClosing s = (findClosing s).map fun found => (found.1 + 0, found.2)
    cases findClosing s <;> rfl
  | cons source before ih =>
    rw [forall_mem_cons] at h
    have hsplit : ∀ s, leading (source :: before) ++ s = source ++ newline :: (leading before ++ s) := by
      intro s
      rw [leading_cons, append_assoc]
      rfl
    have hwidth : (leading (source :: before)).length = (leading before).length + (source.length + 1) := by
      rw [leading_cons, length_append, length_cons]
      omega
    have hskip : ∀ s, afterDashes (leading before ++ s) = none → findClosing (leading (source :: before) ++ s) =
        (findClosing (leading before ++ s)).map fun found => (found.1 + (source.length + 1), found.2) := by
      intro s hnone
      obtain ⟨n, hline⟩ := findClosing_line h.1 (leading before ++ s)
      rw [hsplit, hline, hnone]
    by_cases hclosed : ∃ next more, before = next :: more ∧ (next = dashes ∨ next = dashes ++ [13])
    · obtain ⟨next, more, rfl, hnext⟩ := hclosed
      rw [forall_mem_cons] at h
      refine Or.inl ⟨?_, leading more, ?_, fun s _ => ?_⟩
      · obtain ⟨b, rfl⟩ : ∃ b, next = dashes ++ b := by
          rcases hnext with rfl | rfl
          · exact ⟨[], rfl⟩
          · exact ⟨[13], rfl⟩
        refine includes_iff.mpr ⟨source, b ++ newline :: leading more, ?_⟩
        rw [leading_cons, leading_cons]
        simp
      · rw [leading_cons, leading_cons]
        simp
        omega
      · obtain ⟨n, hline⟩ := findClosing_line h.1 (leading (next :: more) ++ s)
        have hdashes : afterDashes (leading (next :: more) ++ s) = some (leading more ++ s) := by
          rw [leading_cons, append_assoc, cons_append, afterDashes_line h.2.1, if_pos hnext]
        rw [hdashes] at hline
        exact ⟨n, by rw [hsplit, hline]⟩
    · have hnone : ∀ s, Dashless s → afterDashes (leading before ++ s) = none := by
        intro s hs
        cases before with
        | nil => exact hs.afterDashes
        | cons next more =>
          have hnext : ¬ (next = dashes ∨ next = dashes ++ [13]) := fun heq => hclosed ⟨next, more, rfl, heq⟩
          rw [leading_cons, append_assoc, cons_append, afterDashes_line (forall_mem_cons.mp h.2).1,
            if_neg hnext]
      rcases ih h.2 with ⟨hincludes, rest, hrest, hfind⟩ | hfind
      · refine Or.inl ⟨?_, rest, by omega, fun s hs => ?_⟩
        · have happend := includes_append hincludes (source ++ [newline]) []
          rw [append_nil, append_assoc] at happend
          rw [leading_cons]
          exact happend
        · obtain ⟨n, hn⟩ := hfind s hs
          exact ⟨n + (source.length + 1), by rw [hskip s (hnone s hs), hn]; rfl⟩
      · refine Or.inr fun s hs => ?_
        rw [hskip s (hnone s hs), hfind s hs, Option.map_map, hwidth]
        cases findClosing s with
        | none => rfl
        | some found => exact congrArg some (Prod.ext (Nat.add_assoc _ _ _) rfl)

/-! ## The body -/

theorem openingBytes_line (h : newline ∉ source) (s : JsString) :
    openingBytes (source ++ newline :: s) =
      if source = dashes ∨ source = dashes ++ [13] then some (source.length + 1) else none := by
  have hstarts : ∀ pattern, newline ∉ pattern →
      ((afterPrefix (pattern ++ [10]) (source ++ newline :: s)).isSome = true ↔ source = pattern) := by
    intro pattern hpattern
    constructor
    · intro hsome
      obtain ⟨rest, hrest⟩ := Option.isSome_iff_exists.mp hsome
      have hsplit := afterPrefix_some hrest
      have hlines : lines (source ++ newline :: s) = lines (pattern ++ newline :: rest) := by
        rw [hsplit, append_assoc]
        rfl
      rw [lines_append h, lines_append hpattern] at hlines
      exact (List.cons.inj hlines).1
    · rintro rfl
      have happend : source ++ newline :: s = (source ++ [10]) ++ s := by simp [newline]
      rw [happend, afterPrefix_append]
      rfl
  have hwide := hstarts (dashes ++ [13]) (by decide)
  have hnarrow := hstarts dashes (by decide)
  have hassoc : dashes ++ [13] ++ [10] = dashes ++ [13, 10] := rfl
  rw [hassoc] at hwide
  rw [openingBytes]
  by_cases hfirst : source = dashes ++ [13]
  · rw [if_pos (hwide.mpr hfirst), if_pos (Or.inr hfirst), hfirst]
    rfl
  rw [if_neg (fun hsome => hfirst (hwide.mp hsome))]
  by_cases hsecond : source = dashes
  · rw [if_pos (hnarrow.mpr hsecond), if_pos (Or.inl hsecond), hsecond]
    rfl
  · rw [if_neg (fun hsome => hsecond (hnarrow.mp hsome)), if_neg (not_or.mpr ⟨hsecond, hfirst⟩)]

theorem bodyFrom_line (h : newline ∉ source) (s : JsString) :
    (envelope (source ++ newline :: s)).bodyFrom =
      if source = dashes ∨ source = dashes ++ [13] then
        if maxFrontMatterChars < (source ++ newline :: s).length ∧
            includes (newline :: dashes) ((source ++ newline :: s).take maxFrontMatterChars) = false then
          min (source ++ newline :: s).length maxFrontMatterChars
        else
          ((findClosing s).map fun found => (source ++ newline :: s).length - found.2.length).getD
            (min (source ++ newline :: s).length maxFrontMatterChars)
      else 0 := by
  have hdrop : (source ++ newline :: s).drop (source.length + 1) = s := by
    rw [← drop_drop, drop_left]
    rfl
  rw [envelope, openingBytes_line h]
  by_cases hopening : source = dashes ∨ source = dashes ++ [13]
  · rw [if_pos hopening, if_pos hopening]
    dsimp only
    by_cases hlong : maxFrontMatterChars < (source ++ newline :: s).length ∧
        includes (newline :: dashes) ((source ++ newline :: s).take maxFrontMatterChars) = false
    · rw [if_pos hlong, if_pos hlong]
      rfl
    rw [if_neg hlong, if_neg hlong, hdrop]
    cases findClosing s with
    | none => rfl
    | some found => rfl
  · rw [if_neg hopening, if_neg hopening]

/-- The front matter of a text ends where it ended, when the lines up to there stay and the rest brings no closing
mark of its own. -/
theorem bodyFrom_congr {before : List JsString} {t : JsString} (h : ∀ source ∈ before, newline ∉ source)
    (hs : Dashless s) (ht : Dashless t) (hclosing : findClosing s = none → findClosing t = none)
    (hbody : (envelope (leading before ++ s)).bodyFrom ≤ (leading before).length) :
    (envelope (leading before ++ t)).bodyFrom = (envelope (leading before ++ s)).bodyFrom := by
  cases before with
  | nil =>
    have hnone : ∀ u, Dashless u → (envelope (leading [] ++ u)).bodyFrom = 0 := by
      intro u hu
      show (envelope u).bodyFrom = 0
      rw [envelope, hu.openingBytes]
    rw [hnone s hs, hnone t ht]
  | cons source before =>
    rw [forall_mem_cons] at h
    have hsplit : ∀ u, leading (source :: before) ++ u = source ++ newline :: (leading before ++ u) := by
      intro u
      rw [leading_cons, append_assoc]
      rfl
    have hwidth : ∀ u, (source ++ newline :: (leading before ++ u)).length =
        (leading (source :: before)).length + u.length := by
      intro u
      rw [← hsplit, length_append]
    have hpos : ∀ u, Dashless u → 0 < u.length := fun u hu => length_pos_iff.mpr hu.1
    rw [hsplit, bodyFrom_line h.1] at hbody ⊢
    rw [hsplit, bodyFrom_line h.1]
    by_cases hopening : source = dashes ∨ source = dashes ++ [13]
    · rw [if_pos hopening] at hbody
      rw [if_pos hopening, if_pos hopening]
      -- a text that is cut after the lines is cut the same
      have htake : maxFrontMatterChars ≤ (leading (source :: before)).length → ∀ u,
          (source ++ newline :: (leading before ++ u)).take maxFrontMatterChars =
            (leading (source :: before)).take maxFrontMatterChars := by
        intro hle u
        rw [← hsplit, take_append_of_le_length hle]
      have hcut : maxFrontMatterChars ≤ (leading (source :: before)).length →
          ((source ++ newline :: (leading before ++ t)).take maxFrontMatterChars =
            (source ++ newline :: (leading before ++ s)).take maxFrontMatterChars) := fun hle => by
        rw [htake hle t, htake hle s]
      have hps := hpos s hs
      have hpt := hpos t ht
      have hws := hwidth s
      have hwt := hwidth t
      rcases findClosing_leading h.2 with ⟨hincludes, rest, hrest, hfind⟩ | hfind
      · -- closed among the lines
        obtain ⟨n, hn⟩ := hfind s hs
        obtain ⟨m, hm⟩ := hfind t ht
        rw [hn, hm]
        by_cases hle : maxFrontMatterChars ≤ (leading (source :: before)).length
        · rw [hcut hle]
          by_cases hnot : includes (newline :: dashes)
              ((source ++ newline :: (leading before ++ s)).take maxFrontMatterChars) = false
          · rw [if_pos ⟨by omega, hnot⟩, if_pos ⟨by omega, hnot⟩]
            omega
          · rw [if_neg (fun hlong => hnot hlong.2), if_neg (fun hlong => hnot hlong.2)]
            simp only [Option.map_some, Option.getD_some, length_append] at hws hwt ⊢
            omega
        · have hwithin : ∀ u, includes (newline :: dashes)
              ((source ++ newline :: (leading before ++ u)).take maxFrontMatterChars) = true := by
            intro u
            rw [← hsplit, take_append, take_of_length_le (by omega), leading_cons, append_assoc]
            have happend := includes_append hincludes (source ++ [newline])
              (u.take (maxFrontMatterChars - (source ++ newline :: leading before).length))
            rw [append_assoc] at happend
            exact happend
          rw [if_neg (fun hlong => absurd hlong.2 (by simp [hwithin t])),
            if_neg (fun hlong => absurd hlong.2 (by simp [hwithin s]))]
          simp only [Option.map_some, Option.getD_some, length_append] at hws hwt ⊢
          omega
      · rw [hfind s hs] at hbody
        rw [hfind s hs, hfind t ht]
        by_cases hlong : maxFrontMatterChars < (source ++ newline :: (leading before ++ s)).length ∧
            includes (newline :: dashes)
              ((source ++ newline :: (leading before ++ s)).take maxFrontMatterChars) = false
        · rw [if_pos hlong] at hbody
          have hle : maxFrontMatterChars ≤ (leading (source :: before)).length := by omega
          rw [if_pos hlong, if_pos ⟨by omega, by rw [hcut hle]; exact hlong.2⟩]
          omega
        · rw [if_neg hlong] at hbody
          rw [if_neg hlong]
          cases hfound : findClosing s with
          | some found =>
            exfalso
            have hlt : found.2.length < s.length := findClosing_length (n := found.1) hfound
            rw [hfound] at hbody
            simp only [Option.map_some, Option.getD_some] at hbody
            omega
          | none =>
            rw [hfound] at hbody
            simp only [Option.map_none, Option.getD_none] at hbody
            have hle : maxFrontMatterChars ≤ (leading (source :: before)).length := by omega
            have hincludes : ¬ includes (newline :: dashes)
                ((source ++ newline :: (leading before ++ s)).take maxFrontMatterChars) = false :=
              fun hnot => hlong ⟨by omega, hnot⟩
            rw [hclosing hfound, if_neg (fun hlong => hincludes (by rw [← hcut hle]; exact hlong.2))]
            simp only [Option.map_none, Option.getD_none]
            omega
    · rw [if_neg hopening, if_neg hopening]

end Marks
