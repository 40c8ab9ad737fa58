import Marks.ReportSound
import Marks.Slugs

/-! # Heading anchors of the report and of the preview

The slugs of the report are counted names, the ids of the preview are unique ones. A document of headings and paragraphs
has the same ones in both exactly when every heading is reported and the slugs of the titles let the two schemes agree. -/

namespace Marks

open JsString List

/-! ## Numbered slugs -/

theorem digits_no_dash (n : Nat) : dash ∉ (Nat.toDigits 10 n).map fun c => UInt16.ofNat c.toNat := by
  intro h
  obtain ⟨c, hc, heq⟩ := mem_map.mp h
  have hdigit := Nat.isDigit_of_mem_toDigits (by decide) (by decide) hc
  obtain ⟨hlow, hhigh⟩ := Char.isDigit_iff_toNat.mp hdigit
  have hnat := congrArg UInt16.toNat heq
  rw [UInt16.toNat_ofNat'] at hnat
  have hdash : dash.toNat = 45 := rfl
  have hzero : '0'.toNat = 48 := rfl
  have hnine : '9'.toNat = 57 := rfl
  omega

theorem digits_injective {n m : Nat}
    (h : (Nat.toDigits 10 n).map (fun c => UInt16.ofNat c.toNat) = (Nat.toDigits 10 m).map fun c => UInt16.ofNat c.toNat) :
    n = m := by
  have hback : ∀ k, ((Nat.toDigits 10 k).map fun c => UInt16.ofNat c.toNat).map (fun u => Char.ofNat u.toNat) =
      Nat.toDigits 10 k := by
    intro k
    rw [map_map]
    refine (map_congr_left fun c hc => ?_).trans (map_id _)
    have hdigit := Nat.isDigit_of_mem_toDigits (by decide) (by decide) hc
    obtain ⟨-, hhigh⟩ := Char.isDigit_iff_toNat.mp hdigit
    have hnine : '9'.toNat = 57 := rfl
    show Char.ofNat (UInt16.ofNat c.toNat).toNat = c
    rw [UInt16.toNat_ofNat', Nat.mod_eq_of_lt (by omega), Char.ofNat_toNat]
  have hdigits : Nat.toDigits 10 n = Nat.toDigits 10 m := by rw [← hback n, ← hback m, h]
  rw [← Nat.ofDigitChars_toDigits (n := n) (b := 10) (by decide) (by decide), hdigits,
    Nat.ofDigitChars_toDigits (by decide) (by decide)]

theorem marking_suffixed : Naming.Marking suffixed where
  injective := by
    intro s k t l h
    have hk := digits_no_dash k
    have hl := digits_no_dash l
    unfold suffixed at h
    rcases append_eq_append_iff.mp h with ⟨between, rfl, hrest⟩ | ⟨between, rfl, hrest⟩
    · cases between with
      | nil => exact ⟨(append_nil s).symm, digits_injective (List.cons.inj hrest).2⟩
      | cons c between =>
        obtain ⟨-, hrest⟩ := List.cons.inj hrest
        exact absurd (by rw [hrest]; simp) hk
    · cases between with
      | nil => exact ⟨append_nil t, (digits_injective (List.cons.inj hrest).2).symm⟩
      | cons c between =>
        obtain ⟨-, hrest⟩ := List.cons.inj hrest
        exact absurd (by rw [hrest]; simp) hl
  fresh := by
    intro s k h
    have hlength := congrArg List.length h
    rw [suffixed, length_append, length_cons] at hlength
    omega

def standing (before : List JsString) (slug : JsString) : Nat := @List.count _ instBEqOfDecidableEq slug before

theorem countSlugs_eq (before slugs : List JsString) :
    countSlugs (standing before) slugs = Naming.countedFrom suffixed before slugs := by
  induction slugs generalizing before with
  | nil => rfl
  | cons slug rest ih =>
    have hcounts : (fun key => if key = slug then standing before slug + 1 else standing before key) =
        standing (before ++ [slug]) := by
      funext key
      unfold standing
      rw [Naming.count_snoc]
      by_cases hkey : key = slug
      · rw [if_pos hkey, if_pos hkey, hkey]
      · rw [if_neg hkey, if_neg hkey]
        rfl
    have hunfold : countSlugs (standing before) (slug :: rest) =
        (if 1 < standing before slug + 1 then suffixed slug (standing before slug + 1) else slug) ::
          countSlugs (fun key => if key = slug then standing before slug + 1 else standing before key) rest := rfl
    have hname : (if 1 < standing before slug + 1 then suffixed slug (standing before slug + 1) else slug) =
        Naming.countedName suffixed before slug := by
      show _ = if standing before slug = 0 then slug else suffixed slug (standing before slug + 1)
      by_cases hnone : standing before slug = 0
      · rw [if_neg (by omega), if_pos hnone]
      · rw [if_pos (by omega), if_neg hnone]
    rw [hunfold, hcounts, ih, hname]
    rfl

/-! ## Titles -/

def Unicode.Lawful (unicode : Unicode) : Prop :=
  ∀ c : UInt16, isSpace c = true ∨ isHash c = true → unicode.letterOrNumber (Char.ofNat c.toNat) = false

structure Paragraphs (paragraph : List JsString → Prop) : Prop where
  headings : ∀ body, paragraph body → ∀ source ∈ body, headingMatch (withoutReturn source) = none
  dashes : ∀ body, paragraph body → ∀ source ∈ body, withoutReturn source ≠ dashes

section
variable {unicode : Unicode} {title source : JsString}

theorem Unicode.Lawful.plain_unit (h : unicode.Lawful) (htitle : unicode.PlainTitle title) {c : UInt16} (hc : c ∈ title)
    (hspace : isSpace c = true ∨ isHash c = true) : c = space := by
  obtain ⟨text, rfl, hplain⟩ := htitle.plain
  obtain ⟨d, hd, hunits⟩ := mem_flatMap.mp hc
  unfold codeUnits at hunits
  by_cases hsmall : d.toNat < 0x10000
  · rw [if_pos hsmall, mem_singleton] at hunits
    have hback : Char.ofNat c.toNat = d := by
      rw [hunits, UInt16.toNat_ofNat', Nat.mod_eq_of_lt hsmall, Char.ofNat_toNat]
    have hnot := h c hspace
    rw [hback] at hnot
    rcases hplain d hd with hletter | rfl
    · rw [hletter] at hnot
      cases hnot
    · exact hunits
  · -- halves of a pair are no white space
    rw [if_neg hsmall] at hunits
    have hvalid : d.toNat < 0x110000 := by
      rcases d.valid with hlow | ⟨-, hhigh⟩
      · exact Nat.lt_trans hlow (by decide)
      · exact hhigh
    have hlow : 0xD800 ≤ c.toNat ∧ c.toNat < 0xE000 := by
      rcases mem_cons.mp hunits with rfl | hunits
      · rw [UInt16.toNat_ofNat']
        omega
      · rw [mem_singleton.mp hunits, UInt16.toNat_ofNat']
        omega
    refine absurd hspace ?_
    simp only [isSpace, isHash, Bool.or_eq_true, Bool.and_eq_true, decide_eq_true_eq, beq_iff_eq, UInt16.le_iff_toNat_le,
      ← UInt16.toNat_inj, not_or]
    simp
    omega

theorem Unicode.Lawful.title_trimmed (h : unicode.Lawful) (htitle : unicode.PlainTitle title) : Trimmed title := by
  constructor
  · intro c hc
    by_cases hspace : isSpace c = true
    · have hunit := h.plain_unit htitle (mem_of_mem_head? hc) (Or.inl hspace)
      rw [hunit] at hc
      exact absurd hc htitle.head
    · exact Bool.eq_false_iff.mpr hspace
  · intro c hc
    by_cases hspace : isSpace c = true
    · have hunit := h.plain_unit htitle (mem_of_getLast? hc) (Or.inl hspace)
      rw [hunit] at hc
      exact absurd hc htitle.last
    · exact Bool.eq_false_iff.mpr hspace

theorem AtxHeading.headingMatch (h : AtxHeading source title) (hu : unicode.Lawful) (htitle : unicode.PlainTitle title) :
    ∃ indent level, Marks.headingMatch (withoutReturn source) = some (indent, level, title) := by
  obtain ⟨indent, level, gap, before, marks, after, hindent, hlow, hhigh, hgap, hne, hbefore, hmarks, hafter, hclosing,
    hsource⟩ := h.shape
  obtain ⟨first, behind, htext⟩ := exists_cons_of_ne_nil htitle.nonempty
  have hfirst : isGap first = false := by
    cases hcase : isGap first with
    | false => rfl
    | true =>
      have hspace := (hu.title_trimmed htitle).head first (by rw [htext]; rfl)
      rw [gap_space hcase] at hspace
      cases hspace
  have hcontent : run isGap (title ++ (before ++ (marks ++ after))) = 0 := by
    rw [htext, cons_append]
    exact run_zero hfirst
  have hbroken : unbroken title = true := by
    refine all_eq_true.mpr fun c hc => ?_
    cases hcase : isLineTerminator c with
    | false => rfl
    | true =>
      have hspace : isSpace c = true := by
        simp only [isLineTerminator, Bool.or_eq_true, beq_iff_eq] at hcase
        rcases hcase with ((rfl | rfl) | rfl) | rfl <;> rfl
      rw [hu.plain_unit htitle hc (Or.inl hspace)] at hcase
      cases hcase
  -- what is left of the title ends in a letter or a digit
  have hshort : shortest endsHeading (title ++ (before ++ (marks ++ after))) = some title := by
    refine shortest_eq_some.mpr ⟨_, rfl, htitle.nonempty, hbroken, endsHeading_iff.mpr ⟨before, marks, after, rfl, hbefore,
      hmarks, hafter⟩, ?_⟩
    intro a b hab ha hb
    cases hends : endsHeading (b ++ (before ++ (marks ++ after))) with
    | false => rfl
    | true =>
      obtain ⟨x, y, z, hsplit, hx, hy, hz⟩ := endsHeading_iff.mp hends
      have hlast := getLast?_eq_some_getLast hb
      have hin : b.getLast hb ∈ x ++ (y ++ z) := by
        rw [← hsplit]
        exact mem_append_left _ (getLast_mem hb)
      have htitleLast : title.getLast? = some (b.getLast hb) := by
        rw [hab, getLast?_append, hlast]
        rfl
      have hspace : isSpace (b.getLast hb) = true ∨ isHash (b.getLast hb) = true := by
        rcases mem_append.mp hin with hin | hin
        · exact Or.inl (gap_space (all_eq_true.mp hx _ hin))
        · rcases mem_append.mp hin with hin | hin
          · exact Or.inr (all_eq_true.mp hy _ hin)
          · exact Or.inl (gap_space (all_eq_true.mp hz _ hin))
      have hunit := hu.plain_unit htitle (mem_of_getLast? htitleLast) hspace
      rw [hunit] at htitleLast
      exact absurd htitleLast htitle.last
  refine ⟨indent, level, headingMatch_eq_some.mpr ⟨gap ++ (title ++ (before ++ (marks ++ after))), gap.length, ?_, ?_⟩⟩
  · refine atxMarks_eq_some.mpr ⟨hsource, hindent, hlow, hhigh, ?_⟩
    cases gap with
    | nil => exact absurd rfl hne
    | cons c gap =>
      intro hhead
      obtain rfl : c = 35 := Option.some.inj hhead
      cases all_eq_true.mp hgap 35 mem_cons_self
  · exact spaced_eq hgap hne hcontent hshort

end

/-! ## What is reported -/

def HeadingsRead (all : List JsString) (fence : Option Fence) : Prop :=
  ∀ before source after, all = before ++ source :: after → (headingMatch (withoutReturn source)).isSome = true →
    fenceBehind 0 before 0 fence = none

section
variable {unicode : Unicode} {paragraph : List JsString → Prop} {all rest body titles : List JsString} {source : JsString}
  {fence : Option Fence}

theorem headingsRead_cons :
    HeadingsRead (source :: rest) fence ↔ ((headingMatch (withoutReturn source)).isSome = true → fence = none) ∧
      HeadingsRead rest (stepFence fence (fenceMarker (withoutReturn source))) := by
  have hstep : ∀ before, fenceBehind 0 (source :: before) 0 fence =
      fenceBehind 0 before 0 (stepFence fence (fenceMarker (withoutReturn source))) := by
    intro before
    rw [fenceBehind_cons, fenceBehind_body (Nat.zero_le _) _ 0, markerAt, if_pos (Nat.zero_le _)]
  constructor
  · intro h
    refine ⟨h [] source rest rfl, fun before line after hsplit hheading => ?_⟩
    have hfence := h (source :: before) line after (by rw [hsplit]; rfl) hheading
    rw [hstep] at hfence
    exact hfence
  · rintro ⟨hhere, hrest⟩ before line after hsplit hheading
    cases before with
    | nil =>
      obtain ⟨rfl, -⟩ := List.cons.inj hsplit
      exact hhere hheading
    | cons first before =>
      obtain ⟨rfl, htail⟩ := List.cons.inj hsplit
      rw [hstep]
      exact hrest before line after htail hheading

theorem outline_body_nil (h : ∀ source ∈ body, headingMatch (withoutReturn source) = none) (rest : List JsString)
    (from_ number : Nat) (fence : Option Fence) :
    outline 0 (body ++ rest) from_ number fence =
        outline 0 rest (from_ + (leading body).length) (number + body.length) (fenceBehind 0 body 0 fence) ∧
      (HeadingsRead (body ++ rest) fence ↔ HeadingsRead rest (fenceBehind 0 body 0 fence)) := by
  induction body generalizing from_ number fence with
  | nil => exact ⟨rfl, Iff.rfl⟩
  | cons source body ih =>
    obtain ⟨hsource, hbody⟩ := forall_mem_cons.mp h
    obtain ⟨houtline, hread⟩ := ih hbody (from_ + (source.length + 1)) (number + 1)
      (stepFence fence (fenceMarker (withoutReturn source)))
    have hmarker : markerAt 0 from_ source = fenceMarker (withoutReturn source) := if_pos (Nat.zero_le _)
    have hentry : entryOf from_ number source = none := by rw [entryOf, hsource]; rfl
    have hfence : fenceBehind 0 (source :: body) 0 fence =
        fenceBehind 0 body 0 (stepFence fence (fenceMarker (withoutReturn source))) := by
      rw [fenceBehind_cons, fenceBehind_body (Nat.zero_le _) _ 0, markerAt, if_pos (Nat.zero_le _)]
    constructor
    · rw [cons_append, outline_cons, hmarker, hentry, houtline, hfence, leading_cons_length, length_cons,
        Nat.add_assoc, Nat.add_assoc number, Nat.add_comm 1]
      by_cases hcond : 0 ≤ from_ ∧ fence = none ∧ fenceMarker (withoutReturn source) = none
      · rw [if_pos hcond]
        rfl
      · rw [if_neg hcond]
        rfl
    · rw [cons_append, headingsRead_cons, hfence, hread]
      refine and_iff_right ?_
      rw [hsource]
      intro hsome
      cases hsome

theorem PlainDocument.outline (h : PlainDocument unicode paragraph all titles) (hu : unicode.Lawful)
    (hp : Paragraphs paragraph) (from_ number : Nat) (fence : Option Fence) :
    (Marks.outline 0 all from_ number fence).length ≤ titles.length ∧
      ((Marks.outline 0 all from_ number fence).length = titles.length → HeadingsRead all fence) ∧
      (HeadingsRead all fence → (Marks.outline 0 all from_ number fence).map (·.text) = titles) := by
  induction h generalizing from_ number fence with
  | nil =>
    refine ⟨Nat.le_refl _, fun _ before source after hsplit => ?_, fun _ => rfl⟩
    exact absurd hsplit (by simp)
  | @blank source rest titles hblank hmore ih =>
    have hnone : Marks.headingMatch (withoutReturn source) = none := by
      cases hheading : Marks.headingMatch (withoutReturn source) with
      | none => rfl
      | some found =>
        obtain ⟨indent, level, behind, hmarks, -⟩ := headingMatch_isSome.mp (by rw [hheading]; rfl)
        obtain ⟨hvalue, -, hpos, -⟩ := atxMarks_eq_some.mp hmarks
        have hmem : (35 : UInt16) ∈ withoutReturn source := by
          rw [hvalue, mem_append, mem_append, mem_replicate]
          exact Or.inr (Or.inl (mem_replicate.mpr ⟨by omega, rfl⟩))
        exact absurd (all_eq_true.mp hblank 35 hmem) (by decide)
    obtain ⟨houtline, hread⟩ := outline_body_nil (forall_mem_singleton.mpr hnone) rest from_ number fence
    rw [singleton_append] at houtline hread
    rw [houtline, hread]
    exact ih _ _ _
  | @paragraph body rest titles hreads hmore ih =>
    obtain ⟨houtline, hread⟩ := outline_body_nil (hp.headings body hreads) rest from_ number fence
    rw [houtline, hread]
    exact ih _ _ _
  | @heading source title rest titles hatx hplain hmore ih =>
    obtain ⟨indent, level, hmatch⟩ := hatx.headingMatch hu hplain
    have hsome : (Marks.headingMatch (withoutReturn source)).isSome = true := by rw [hmatch]; rfl
    have hmarker : markerAt 0 from_ source = none := by
      rw [markerAt, if_pos (Nat.zero_le _), heading_fence hsome]
    have hentry : entryOf from_ number source = some ⟨level, title, from_, number⟩ := by
      rw [entryOf, hmatch, Option.map_some, trim_trimmed (hu.title_trimmed hplain)]
    rw [outline_cons, hmarker, headingsRead_cons, heading_fence hsome, hentry]
    cases fence with
    | none =>
      obtain ⟨hle, hlength, htexts⟩ := ih (from_ + (source.length + 1)) (number + 1) none
      rw [if_pos ⟨Nat.zero_le _, rfl, rfl⟩]
      refine ⟨Nat.succ_le_succ hle, fun heq => ⟨fun _ => rfl, hlength (Nat.succ.inj heq)⟩, fun hread => ?_⟩
      exact congrArg (title :: ·) (htexts hread.2)
    | some opened =>
      obtain ⟨hle, -, -⟩ := ih (from_ + (source.length + 1)) (number + 1) (some opened)
      rw [if_neg (fun hcond => absurd hcond.2.1 (by simp))]
      refine ⟨Nat.le_succ_of_le hle, fun heq => ?_, fun hread => ?_⟩
      · have hlonger : (Marks.outline 0 rest (from_ + (source.length + 1)) (number + 1) (some opened)).length =
            titles.length + 1 := heq
        omega
      · exact absurd (hread.1 hsome) (by simp)

theorem PlainDocument.first_line (h : PlainDocument unicode paragraph all titles) (hu : unicode.Lawful)
    (hp : Paragraphs paragraph) : ∀ source, all.head? = some source → withoutReturn source ≠ Marks.dashes := by
  induction h with
  | nil =>
    intro source hsource
    cases hsource
  | blank hblank _ _ =>
    intro source hsource hdashes
    cases hsource
    rw [hdashes] at hblank
    cases hblank
  | @paragraph body rest titles hreads hmore ih =>
    intro source hsource
    cases body with
    | nil => exact ih source hsource
    | cons first body =>
      cases hsource
      exact hp.dashes _ hreads _ mem_cons_self
  | heading hatx hplain _ _ =>
    intro source hsource hdashes
    cases hsource
    obtain ⟨indent, level, hmatch⟩ := hatx.headingMatch hu hplain
    have hnone : Marks.headingMatch Marks.dashes = none := by decide
    rw [hdashes, hnone] at hmatch
    cases hmatch

theorem PlainDocument.bodyOf {text : JsString} (h : PlainDocument unicode paragraph (lines text) titles)
    (hu : unicode.Lawful) (hp : Paragraphs paragraph) : Marks.bodyOf text = 0 := by
  obtain ⟨line, rest, htext, hline, hrest⟩ := break_exists text
  have hlines : lines text = line :: behindBreak rest := by rw [htext, lines_break hline hrest]
  have hfirst := h.first_line hu hp line (by rw [hlines]; rfl)
  have hnot : ¬(line = Marks.dashes ∨ line = Marks.dashes ++ [13]) := by
    rintro (rfl | rfl)
    · exact hfirst rfl
    · exact hfirst rfl
  cases rest with
  | nil =>
    have hopening : openingBytes text = none := by
      rw [htext, append_nil]
      have hpart : ∀ pattern, newline ∈ pattern → afterPrefix pattern line = none := by
        intro pattern hpattern
        cases hafter : afterPrefix pattern line with
        | none => rfl
        | some more =>
          rw [afterPrefix_some hafter] at hline
          exact absurd (mem_append_left _ hpattern) hline
      rw [openingBytes, hpart _ (by decide), hpart _ (by decide)]
      rfl
    rw [Marks.bodyOf, envelope, hopening]
  | cons c rest =>
    have hc : c = newline := Option.some.inj (hrest.resolve_left (by simp))
    rw [Marks.bodyOf, htext, hc, bodyFrom_line hline, if_neg hnot]

theorem PlainDocument.headingSlugs {text : JsString} (h : PlainDocument unicode paragraph (lines text) titles)
    (hu : unicode.Lawful) (hp : Paragraphs paragraph) (hfits : text.length ≤ maxAnalyzedChars) :
    unicode.headingSlugs text =
      Naming.counted suffixed ((((Marks.outline 0 (lines text) 0 1 none).map (·.text)).take maxItems).map unicode.slugify) := by
  have hwindow : window text = text := take_of_length_le hfits
  have hnames : (analyzeDocument text).headings.map (fun heading => unicode.slugify heading.text) =
      (entries text).map fun entry => unicode.slugify entry.text := by
    rw [analyzeDocument_headings, hwindow, entries, map_map]
    rfl
  have hcounts : (fun _ : JsString => 0) = standing [] := rfl
  rw [Unicode.headingSlugs, hnames, entries_eq, h.bodyOf hu hp, hcounts, countSlugs_eq, ← map_take, map_map]
  rfl

/-- The report and the preview have the same anchors, and an anchor link is broken exactly when the preview has no
heading for it, if and only if every heading is read, no more are reported than it may hold, and the slugs of the titles
let counting and testing agree. -/
theorem anchors_agree_iff {text : JsString} (hu : unicode.Lawful) (hp : Paragraphs paragraph)
    (h : PlainDocument unicode paragraph (lines text) titles) (hfits : text.length ≤ maxAnalyzedChars) :
    (unicode.headingSlugs text = unicode.renderedIds titles ∧
      ∀ fragment, unicode.linkStatus (unicode.headingSlugs text) (35 :: fragment) = .broken ↔
        unicode.decodedAnchor fragment ∉ unicode.renderedIds titles) ↔
    titles.length ≤ maxItems ∧ HeadingsRead (lines text) none ∧
      Naming.Agreeable suffixed (titles.map unicode.slugify) := by
  obtain ⟨hle, hlength, htexts⟩ := h.outline hu hp 0 1 none
  have hslugs := h.headingSlugs hu hp hfits
  have hlinks : ∀ (slugs : List JsString) (fragment : JsString),
      unicode.linkStatus slugs (35 :: fragment) = .broken ↔ unicode.decodedAnchor fragment ∉ slugs := by
    intro slugs fragment
    have hstatus : unicode.linkStatus slugs (35 :: fragment) =
        if unicode.decodedAnchor fragment ∈ slugs then .valid else .broken := rfl
    rw [hstatus]
    by_cases hmem : unicode.decodedAnchor fragment ∈ slugs
    · rw [if_pos hmem]
      exact ⟨fun heq => absurd heq (by decide), fun hnot => absurd hmem hnot⟩
    · rw [if_neg hmem]
      exact ⟨fun _ => hmem, fun _ => rfl⟩
  constructor
  · rintro ⟨heq, -⟩
    have hcount := congrArg List.length heq
    rw [hslugs, Unicode.renderedIds, Naming.length_counted, Naming.length_unique, length_map, length_map,
      length_take, length_map] at hcount
    have hitems : titles.length ≤ maxItems := by omega
    have hread := hlength (by omega)
    have hnames := htexts hread
    rw [hslugs, hnames, take_of_length_le hitems, Unicode.renderedIds,
      Naming.counted_eq_unique_iff marking_suffixed] at heq
    exact ⟨hitems, hread, heq⟩
  · rintro ⟨hitems, hread, hagree⟩
    have hnames := htexts hread
    have heq : unicode.headingSlugs text = unicode.renderedIds titles := by
      rw [hslugs, hnames, take_of_length_le hitems, Unicode.renderedIds,
        (Naming.counted_eq_unique_iff marking_suffixed _).mpr hagree]
    refine ⟨heq, fun fragment => ?_⟩
    rw [heq]
    exact hlinks _ fragment

end

/-! ## Two documents -/

/-- The tables for the characters of ASCII. -/
def asciiTables : Unicode where
  toLowerCase := List.map lowerAscii
  letterOrNumber := fun c =>
    (48 ≤ c.toNat && c.toNat ≤ 57) || (65 ≤ c.toNat && c.toNat ≤ 90) || (97 ≤ c.toNat && c.toNat ≤ 122)
  decodeURIComponent := fun s => if 37 ∈ s then none else some s

theorem asciiTables_lawful : asciiTables.Lawful := by
  intro c hc
  have hn : c.toNat ≤ 35 ∨ 0xA0 ≤ c.toNat := by
    simp only [isSpace, isHash, Bool.or_eq_true, Bool.and_eq_true, decide_eq_true_eq, beq_iff_eq, UInt16.le_iff_toNat_le,
      ← UInt16.toNat_inj] at hc
    simp at hc
    omega
  have hchar : (Char.ofNat c.toNat).toNat ≤ 35 ∨ 0xA0 ≤ (Char.ofNat c.toNat).toNat := by
    by_cases hvalid : c.toNat.isValidChar
    · rw [Char.ofNat, dif_pos hvalid]
      exact hn
    · rw [Char.ofNat, dif_neg hvalid]
      exact Or.inl (by decide)
  have hfalse : ∀ n : Nat, n ≤ 35 ∨ 0xA0 ≤ n →
      ((decide (48 ≤ n) && decide (n ≤ 57)) || (decide (65 ≤ n) && decide (n ≤ 90)) ||
        (decide (97 ≤ n) && decide (n ≤ 122))) = false := by
    intro n hn
    simp
    omega
  exact hfalse _ hchar

theorem atx_one {title : JsString} (h : (13 : UInt16) ∉ title) : AtxHeading (35 :: 32 :: title) title := by
  refine ⟨0, 1, [32], [], [], [], by decide, by decide, by decide, rfl, by decide, rfl, rfl, rfl, Or.inl rfl, ?_⟩
  rw [withoutReturn_of]
  · simp
  · rw [mem_cons, mem_cons, not_or, not_or]
    exact ⟨by decide, by decide, h⟩

/-- Two titles and a line of text between them. -/
theorem anchors_two_titles :
    (asciiTables.headingSlugs (ofString "# A\n\nText\n\n# B") =
        asciiTables.renderedIds [ofString "A", ofString "B"] ∧
      ∀ fragment, asciiTables.linkStatus (asciiTables.headingSlugs (ofString "# A\n\nText\n\n# B")) (35 :: fragment) =
          .broken ↔
        asciiTables.decodedAnchor fragment ∉ asciiTables.renderedIds [ofString "A", ofString "B"]) ↔
    [ofString "A", ofString "B"].length ≤ maxItems ∧ HeadingsRead (lines (ofString "# A\n\nText\n\n# B")) none ∧
      Naming.Agreeable suffixed ([ofString "A", ofString "B"].map asciiTables.slugify) := by
  have hplain : ∀ c : Char, asciiTables.letterOrNumber c = true → ofCodePoints [c] ≠ [] →
      (ofCodePoints [c]).head? ≠ some space → (ofCodePoints [c]).getLast? ≠ some space →
      asciiTables.PlainTitle (ofCodePoints [c]) := fun c hc hne hhead hlast =>
    ⟨⟨[c], rfl, fun d hd => by rw [mem_singleton.mp hd]; exact Or.inl hc⟩, hne, hhead, hlast⟩
  have hparagraphs : Paragraphs fun body => body = [ofString "Text"] := by
    constructor
    · rintro _ rfl source hsource
      rw [mem_singleton.mp hsource]
      decide +kernel
    · rintro _ rfl source hsource
      rw [mem_singleton.mp hsource]
      decide +kernel
  have hdocument : PlainDocument asciiTables (fun body => body = [ofString "Text"])
      (lines (ofString "# A\n\nText\n\n# B")) [ofString "A", ofString "B"] := by
    have hlines : lines (ofString "# A\n\nText\n\n# B") =
        [35, 32, 65] :: [] :: ([ofString "Text"] ++ [] :: [35, 32, 66] :: []) := by decide +kernel
    rw [hlines]
    exact .heading (atx_one (by decide)) (hplain 'A' (by decide) (by decide) (by decide) (by decide))
      (.blank rfl (.paragraph rfl (.blank rfl (.heading (atx_one (by decide))
        (hplain 'B' (by decide) (by decide) (by decide) (by decide)) .nil))))
  exact anchors_agree_iff asciiTables_lawful hparagraphs hdocument (by decide +kernel)

/-- The second of two equal titles is number two in the report and number one in the preview, so a link to the heading
that the preview shows is reported broken. -/
theorem repeated_title_differs :
    PlainDocument asciiTables (fun _ => False) (lines (ofString "# A\n\n# A")) [ofString "A", ofString "A"] ∧
    asciiTables.headingSlugs (ofString "# A\n\n# A") = [ofString "a", ofString "a-2"] ∧
    asciiTables.renderedIds [ofString "A", ofString "A"] = [ofString "a", ofString "a-1"] ∧
    asciiTables.linkStatus (asciiTables.headingSlugs (ofString "# A\n\n# A")) (ofString "#a-1") = .broken := by
  have hplain : asciiTables.PlainTitle [65] :=
    ⟨⟨['A'], by decide, fun c hc => by rw [mem_singleton.mp hc]; exact Or.inl (by decide)⟩, by decide, by decide,
      by decide⟩
  have hlines : lines (ofString "# A\n\n# A") = [[35, 32, 65], [], [35, 32, 65]] := by decide +kernel
  have htitle : ofString "A" = [65] := by decide +kernel
  rw [hlines, htitle]
  exact ⟨.heading (atx_one (by decide)) hplain (.blank rfl (.heading (atx_one (by decide)) hplain .nil)),
    by decide +kernel, by decide +kernel, by decide +kernel⟩

end Marks
