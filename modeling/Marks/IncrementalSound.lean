import Mathlib.Data.List.Forall2
import Marks.MarkdownWorker

/-! # The incremental pass against the full one

The incremental pass cuts the text by lines and renders a changed block by itself; the full pass cuts it by
the top-level groups of one parse. The two agree exactly when the cuts are the same, each block that is
rendered by itself comes out as its group does, and each block that is kept has the HTML of its group. -/

namespace Marks

open List

namespace MarkdownWorker

variable {M : Markdown}

/-! ## Pages -/

def collect (blocks : List (BlockKey × Option JsString)) : Option (List (BlockKey × JsString)) :=
  blocks.mapM fun block => block.2.map (block.1, ·)

variable {blocks : List (BlockKey × Option JsString)}

theorem collect_cons {key : BlockKey} {html : Option JsString} :
    collect ((key, html) :: blocks) = html.bind fun html => (collect blocks).map ((key, html) :: ·) := by
  unfold collect
  cases html with
  | none => rfl
  | some html =>
    rw [mapM_cons]
    cases blocks.mapM fun block => block.2.map (block.1, ·) <;> rfl

theorem collect_eq_some {pages : List (BlockKey × JsString)} :
    collect blocks = some pages ↔ blocks = pages.map fun page => (page.1, some page.2) := by
  induction blocks generalizing pages with
  | nil =>
    cases pages with
    | nil => exact ⟨fun _ => rfl, fun _ => rfl⟩
    | cons page pages => exact ⟨fun h => (by cases h), fun h => (by cases h)⟩
  | cons block blocks ih =>
    obtain ⟨key, html⟩ := block
    rw [collect_cons]
    cases html with
    | none =>
      refine ⟨fun h => (by cases h), fun h => ?_⟩
      cases pages with
      | nil => cases h
      | cons page pages => cases h
    | some html =>
      rw [Option.bind_some, Option.map_eq_some_iff]
      constructor
      · rintro ⟨rest, hrest, rfl⟩
        rw [map_cons, ih.mp hrest]
      intro h
      cases pages with
      | nil => cases h
      | cons page pages =>
        rw [map_cons] at h
        obtain ⟨hhead, htail⟩ := List.cons.inj h
        cases hhead
        exact ⟨pages, ih.mpr htail, rfl⟩

theorem collect_eq_iff {blocks' : List (BlockKey × Option JsString)} :
    collect blocks = collect blocks' ↔ blocks = blocks' ∨ collect blocks = none ∧ collect blocks' = none := by
  constructor
  · intro h
    cases hc : collect blocks with
    | none => exact .inr ⟨rfl, h ▸ hc⟩
    | some pages => exact .inl ((collect_eq_some.mp hc).trans (collect_eq_some.mp (h ▸ hc)).symm)
  · rintro (rfl | ⟨h, h'⟩)
    · rfl
    · rw [h, h']

def pages (rendered : Option (List RenderedBlock)) : Option (List (BlockKey × JsString)) :=
  rendered.map (·.map fun block => (block.key, block.html))

/-! ## The full pass -/

/-- The keys of blocks with these hashes, behind blocks with the hashes `seen`. -/
def occurrenceKeys : List Nat → List Nat → List BlockKey
  | _, [] => []
  | seen, base :: bases => occurrenceKey seen base :: occurrenceKeys (seen ++ [base]) bases

variable {seen : List Nat}

theorem occurrenceKeys_length {bases : List Nat} : (occurrenceKeys seen bases).length = bases.length := by
  induction bases generalizing seen with
  | nil => rfl
  | cons base bases ih => rw [occurrenceKeys, length_cons, length_cons, ih]

def groupKeys (seen : List Nat) (groups : List (TokenGroup M.Payload)) : List BlockKey :=
  occurrenceKeys seen (groups.map fun group => hashString (identity group))

def groupHtml (features : MarkdownFeatures) (env : M.Env) (group : TokenGroup M.Payload) : Option JsString :=
  M.render features group.tokens env

variable {groups : List (TokenGroup M.Payload)}

theorem groupKeys_length :
    (groupKeys seen groups).length = groups.length := by
  unfold groupKeys
  rw [occurrenceKeys_length, length_map]

theorem groupKeys_cons {group : TokenGroup M.Payload} :
    groupKeys seen (group :: groups) =
      occurrenceKey seen (hashString (identity group)) :: groupKeys (seen ++ [hashString (identity group)]) groups := rfl

theorem renderGroups_pages {features : MarkdownFeatures} {env : M.Env} {cache : List (BlockKey × JsString)}
    {offsets seen : List Nat} {groups : List (TokenGroup M.Payload)}
    (h : ∀ pair ∈ (groupKeys seen groups).zip groups, pair.2.source.isSome = true →
      ∀ html ∈ lookup cache pair.1, groupHtml features env pair.2 = some html) :
    pages (renderGroups features env cache offsets seen groups) =
      collect ((groupKeys seen groups).zip (groups.map (groupHtml features env))) := by
  induction groups generalizing seen with
  | nil => rfl
  | cons group groups ih =>
    rw [groupKeys_cons, zip_cons_cons] at h
    have hrest := @ih (seen ++ [hashString (identity group)]) fun pair hm => h pair (mem_cons_of_mem _ hm)
    have hhead := h _ mem_cons_self
    have hhtml : htmlOf features env cache (occurrenceKey seen (hashString (identity group))) group =
        groupHtml features env group := by
      unfold htmlOf
      split
      · rename_i html hl
        split
        · rfl
        · rename_i hs
          rw [Bool.not_eq_true, Option.isNone_eq_false_iff] at hs
          exact (hhead hs html hl).symm
      · rfl
    rw [groupKeys_cons, map_cons, zip_cons_cons, collect_cons, ← hrest, renderGroups]
    simp only
    rw [hhtml]
    cases groupHtml features env group with
    | none => rfl
    | some html =>
      cases renderGroups features env cache offsets (seen ++ [hashString (identity group)]) groups <;> rfl

def freshPages (worker : MarkdownWorker M) (text : JsString) : Option (List (BlockKey × JsString)) :=
  pages (worker.clearRenderCache.renderFull text).2

variable {worker : MarkdownWorker M} {text : JsString}

theorem freshPages_eq :
    worker.freshPages text =
      match M.parse worker.md text M.newEnv with
      | (_, none) => none
      | (env, some tokens) =>
        let groups := groupTokens tokens (JsString.lines text)
        collect ((groupKeys [] groups).zip (groups.map (groupHtml worker.md env))) := by
  unfold freshPages renderFull
  simp only [clearRenderCache]
  cases M.parse worker.md text M.newEnv with
  | mk env tokens =>
    cases tokens with
    | none => rfl
    | some tokens =>
      simp only [reduceCtorEq, if_false]
      rw [← @renderGroups_pages M worker.md env [] (lineOffsets (JsString.lines text) 0) [] _ fun _ _ _ _ hl => by cases hl]
      split
      · rename_i h
        rw [h]
      · rename_i h
        rw [h]

/-! ## The incremental pass -/

def keptHtml (worker : MarkdownWorker M) (dirty : List BlockKey) (block : SourceBlock) : Option JsString :=
  if dirty.contains block.key then none else lookup worker.cache block.key

def ownHtml (features : MarkdownFeatures) (env : M.Env) (parsed : List (BlockKey × List (Token M.Payload)))
    (block : SourceBlock) : Option JsString :=
  (parsed.find? (·.1 == block.key)).bind fun entry => M.render features entry.2 env

variable {env : M.Env} {parsed : List (BlockKey × List (Token M.Payload))}

theorem renderBlocks_pages {dirty : List BlockKey}
    {blocks : List SourceBlock} :
    pages (renderBlocks worker.md dirty worker.cache parsed env blocks) =
      collect (blocks.map fun block =>
        (block.key, (worker.keptHtml dirty block).or (ownHtml worker.md env parsed block))) := by
  induction blocks with
  | nil => rfl
  | cons block blocks ih =>
    rw [map_cons, collect_cons, ← ih]
    rw [renderBlocks]
    simp only [keptHtml, ownHtml]
    cases hk : (if dirty.contains block.key = true then none else lookup worker.cache block.key) with
    | some html =>
      simp only [Option.some_or, Option.bind_some]
      cases renderBlocks worker.md dirty worker.cache parsed env blocks <;> rfl
    | none =>
      simp only [Option.none_or]
      cases (parsed.find? (·.1 == block.key)).bind fun entry => M.render worker.md entry.2 env with
      | none => rfl
      | some html => cases renderBlocks worker.md dirty worker.cache parsed env blocks <;> rfl

theorem collect_eq_none :
    collect blocks = none ↔ ∃ block ∈ blocks, block.2 = none := by
  induction blocks with
  | nil => exact ⟨fun h => (by cases h), fun h => (by obtain ⟨_, hm, _⟩ := h; cases hm)⟩
  | cons block blocks ih =>
    obtain ⟨key, html⟩ := block
    rw [collect_cons]
    cases html with
    | none => exact ⟨fun _ => ⟨_, mem_cons_self, rfl⟩, fun _ => rfl⟩
    | some html =>
      rw [Option.bind_some, Option.map_eq_none_iff, ih]
      constructor
      · rintro ⟨other, hm, hn⟩
        exact ⟨other, mem_cons_of_mem _ hm, hn⟩
      rintro ⟨other, hm, hn⟩
      rcases mem_cons.mp hm with rfl | hm
      · cases hn
      · exact ⟨other, hm, hn⟩

/-! ## When the two agree -/

/-- `render` takes the incremental pass. -/
def TakesIncremental (worker : MarkdownWorker M) (imports : Imports) (text : JsString) : Prop :=
  let loaded := worker.loadRequestedFeatures imports text
  loaded.2 = true ∧ loaded.1.lastText ≠ [] ∧ (incrementalParseSafe loaded.1.lastText text).safe = true

instance (worker : MarkdownWorker M) (imports : Imports) (text : JsString) :
    Decidable (worker.TakesIncremental imports text) := by
  unfold TakesIncremental
  infer_instance

def dirtyKeys (worker : MarkdownWorker M) (text : JsString) : List BlockKey :=
  (incrementalParseSafe worker.lastText text).dirty.map (·.key)

def ownParses (worker : MarkdownWorker M) (text : JsString) :
    M.Env × Option (List (BlockKey × List (Token M.Payload))) :=
  parseDirty worker.md (worker.dirtyKeys text) worker.cache worker.lastEnv (splitSourceBlocks text)

/-- The full pass throws. -/
def FullThrows (worker : MarkdownWorker M) (text : JsString) : Prop :=
  match M.parse worker.md text M.newEnv with
  | (_, none) => True
  | (env, some tokens) => ∃ group ∈ groupTokens tokens (JsString.lines text), groupHtml worker.md env group = none

/-- A block throws by itself. -/
def OwnThrows (worker : MarkdownWorker M) (text : JsString) : Prop :=
  match worker.ownParses text with
  | (_, none) => True
  | (env, some parsed) => ∃ block ∈ splitSourceBlocks text,
    worker.keptHtml (worker.dirtyKeys text) block = none ∧ ownHtml worker.md env parsed block = none

/-- The lines and the grammar cut the text alike, and what a block shows is what its group shows. -/
structure Aligned (worker : MarkdownWorker M) (text : JsString) (env : M.Env) (tokens : List (Token M.Payload))
    (ownEnv : M.Env) (parsed : List (BlockKey × List (Token M.Payload))) : Prop where
  keys : (splitSourceBlocks text).map (·.key) = groupKeys [] (groupTokens tokens (JsString.lines text))
  own : ∀ pair ∈ (splitSourceBlocks text).zip (groupTokens tokens (JsString.lines text)),
    worker.keptHtml (worker.dirtyKeys text) pair.1 = none →
      ownHtml worker.md ownEnv parsed pair.1 = groupHtml worker.md env pair.2
  kept : ∀ pair ∈ (splitSourceBlocks text).zip (groupTokens tokens (JsString.lines text)),
    ∀ html ∈ worker.keptHtml (worker.dirtyKeys text) pair.1, groupHtml worker.md env pair.2 = some html

variable {imports : Imports}

theorem load_of_takes
    (h : worker.TakesIncremental imports text) : worker.loadRequestedFeatures imports text = (worker, true) := by
  obtain ⟨hload, hlast, _⟩ := h
  unfold loadRequestedFeatures at hload hlast ⊢
  simp only at hload hlast ⊢
  split at hload
  · cases hload
  split at hload
  · cases hload
  split at hload
  · rename_i hneeds
    rw [if_neg ‹_›, if_neg ‹_›, if_pos hneeds] at hlast
    exact absurd rfl hlast
  · rename_i hneeds
    rw [if_neg ‹_›, if_neg ‹_›, if_neg hneeds]

theorem renderText_pages
    (h : worker.TakesIncremental imports text) :
    pages (worker.renderText imports text).2 =
      match worker.ownParses text with
      | (_, none) => none
      | (env, some parsed) => collect ((splitSourceBlocks text).map fun block =>
          (block.key, (worker.keptHtml (worker.dirtyKeys text) block).or (ownHtml worker.md env parsed block))) := by
  have hload := load_of_takes h
  obtain ⟨_, hlast, hsafe⟩ := h
  rw [hload] at hlast hsafe
  unfold renderText
  rw [hload]
  simp only
  rw [if_pos ⟨hlast, hsafe⟩]
  unfold renderIncremental ownParses dirtyKeys
  simp only
  cases parseDirty worker.md ((incrementalParseSafe worker.lastText text).dirty.map (·.key)) worker.cache worker.lastEnv
      (splitSourceBlocks text) with
  | mk env parsed =>
    cases parsed with
    | none => rfl
    | some parsed =>
      simp only
      rw [← renderBlocks_pages]
      split
      · rename_i hr
        rw [hr]
      · rename_i hr
        rw [hr]

theorem fullThrows_iff :
    worker.freshPages text = none ↔ worker.FullThrows text := by
  rw [freshPages_eq]
  unfold FullThrows
  split
  · exact ⟨fun _ => trivial, fun _ => rfl⟩
  rename_i env tokens _
  rw [collect_eq_none]
  constructor
  · rintro ⟨block, hm, hn⟩
    have hs := mem_map_of_mem (f := Prod.snd) hm
    rw [map_snd_zip (by rw [groupKeys_length, length_map]), hn] at hs
    exact mem_map.mp hs
  · rintro ⟨group, hm, hn⟩
    have hs : none ∈ ((groupKeys [] (groupTokens tokens (JsString.lines text))).zip
        ((groupTokens tokens (JsString.lines text)).map (groupHtml worker.md env))).map Prod.snd := by
      rw [map_snd_zip (by rw [groupKeys_length, length_map]), ← hn]
      exact mem_map_of_mem hm
    exact mem_map.mp hs

theorem ownThrows_iff
    (h : worker.TakesIncremental imports text) :
    pages (worker.renderText imports text).2 = none ↔ worker.OwnThrows text := by
  rw [renderText_pages h]
  unfold OwnThrows
  split
  · exact ⟨fun _ => trivial, fun _ => rfl⟩
  rw [collect_eq_none]
  constructor
  · rintro ⟨_, hm, hn⟩
    obtain ⟨block, hb, rfl⟩ := mem_map.mp hm
    exact ⟨block, hb, Option.or_eq_none_iff.mp hn⟩
  · rintro ⟨block, hb, hn⟩
    exact ⟨_, mem_map_of_mem hb, Option.or_eq_none_iff.mpr hn⟩

theorem shown_iff {kept own group : Option JsString} :
    kept.or own = group ↔ (kept = none → own = group) ∧ ∀ html ∈ kept, group = some html := by
  cases kept with
  | none => exact ⟨fun h => ⟨fun _ => h, fun _ hm => (by cases hm)⟩, fun h => h.1 rfl⟩
  | some html =>
    refine ⟨fun h => ⟨fun hn => (by cases hn), fun other hm => ?_⟩, fun h => (h.2 html rfl).symm⟩
    rw [← Option.mem_some.mp hm]
    exact h.symm

variable {ownEnv : M.Env} {tokens : List (Token M.Payload)}

theorem aligned_iff
    :
    ((splitSourceBlocks text).map fun block =>
        (block.key, (worker.keptHtml (worker.dirtyKeys text) block).or (ownHtml worker.md ownEnv parsed block))) =
      (groupKeys [] (groupTokens tokens (JsString.lines text))).zip
        ((groupTokens tokens (JsString.lines text)).map (groupHtml worker.md env)) ↔
      worker.Aligned text env tokens ownEnv parsed := by
  set groups := groupTokens tokens (JsString.lines text)
  have hlen : (groupKeys [] groups).length = (groups.map (groupHtml worker.md env)).length := by
    rw [groupKeys_length, length_map]
  have hpairs : ((splitSourceBlocks text).map fun block =>
        (worker.keptHtml (worker.dirtyKeys text) block).or (ownHtml worker.md ownEnv parsed block)) =
      groups.map (groupHtml worker.md env) ↔ (splitSourceBlocks text).length = groups.length ∧
        ∀ pair ∈ (splitSourceBlocks text).zip groups,
          (worker.keptHtml (worker.dirtyKeys text) pair.1).or (ownHtml worker.md ownEnv parsed pair.1) =
            groupHtml worker.md env pair.2 := by
    rw [← forall₂_eq_eq_eq, forall₂_map_left_iff, forall₂_map_right_iff, forall₂_iff_zip]
    exact and_congr_right fun _ => ⟨fun h pair hm => h hm, fun h _ _ hm => h _ hm⟩
  constructor
  · intro h
    have hkeys := congrArg (List.map Prod.fst) h
    have hhtml := congrArg (List.map Prod.snd) h
    rw [map_map, map_fst_zip (Nat.le_of_eq hlen)] at hkeys
    rw [map_map, map_snd_zip (Nat.le_of_eq hlen.symm)] at hhtml
    have hall := (hpairs.mp hhtml).2
    exact ⟨hkeys, fun pair hm => (shown_iff.mp (hall pair hm)).1, fun pair hm => (shown_iff.mp (hall pair hm)).2⟩
  · intro h
    have hcount : (splitSourceBlocks text).length = groups.length := by
      have := congrArg List.length h.keys
      rwa [length_map, groupKeys_length] at this
    have hhtml := hpairs.mpr ⟨hcount, fun pair hm => shown_iff.mpr ⟨h.own pair hm, h.kept pair hm⟩⟩
    rw [← h.keys, ← hhtml, zip_map']

theorem pages_of_throws
    (h : worker.TakesIncremental imports text) (ht : worker.FullThrows text ∧ worker.OwnThrows text) :
    pages (worker.renderText imports text).2 = worker.freshPages text := by
  rw [(ownThrows_iff h).mpr ht.2, fullThrows_iff.mpr ht.1]

theorem pages_of_aligned
    (h : worker.TakesIncremental imports text)
    (hparse : M.parse worker.md text M.newEnv = (env, some tokens))
    (hown : worker.ownParses text = (ownEnv, some parsed)) (ha : worker.Aligned text env tokens ownEnv parsed) :
    pages (worker.renderText imports text).2 = worker.freshPages text := by
  rw [renderText_pages h, freshPages_eq, hparse, hown]
  exact congrArg collect (aligned_iff.mpr ha)

end MarkdownWorker

/-! ## A callout with an empty line in it -/

section
open JsString

/-- A grammar of one-line paragraphs and `:::info` containers. -/
def calloutTokens : Nat → Nat → List JsString → List (Token JsString)
  | 0, _, _ => []
  | _, _, [] => []
  | fuel + 1, index, line :: rest =>
    if isBlank line then calloutTokens fuel (index + 1) rest
    else if line = ofString ":::info" then
      let inner := rest.takeWhile (· ≠ ofString ":::")
      ⟨ofString "container_info_open", 1, some (index, index + 1 + inner.length), []⟩ ::
        calloutTokens fuel (index + 1) inner ++
        ⟨ofString "container_info_close", -1, none, []⟩ ::
          calloutTokens fuel (index + inner.length + 2) (rest.drop (inner.length + 1))
    else
      [⟨ofString "paragraph_open", 1, some (index, index + 1), []⟩,
        ⟨ofString "inline", 0, some (index, index + 1), line⟩, ⟨ofString "paragraph_close", -1, none, []⟩] ++
        calloutTokens fuel (index + 1) rest

def calloutHtml (token : Token JsString) : JsString :=
  if token.type = ofString "paragraph_open" then ofString "<p>"
  else if token.type = ofString "paragraph_close" then ofString "</p>\n"
  else if token.type = ofString "container_info_open" then
    ofString "<div class=\"marks-callout marks-callout-info\">"
  else if token.type = ofString "container_info_close" then ofString "</div>\n"
  else token.payload

def calloutMarkdown : Markdown where
  Env := Unit
  Payload := JsString
  newEnv := ()
  parse _ text _ := ((), some (calloutTokens (text.length + 1) 0 (lines text)))
  render _ tokens _ := some (tokens.flatMap calloutHtml)
  references _ := ofString "{}"
  footnotes _ := ofString "null"
  abbreviations _ := ofString "null"
  headingId _ := []

/-- The worker behind one full render of `text`. -/
def rendered (M : Markdown) (text : JsString) : MarkdownWorker M :=
  ((MarkdownWorker.start M 0).respond ⟨true, true⟩ 1 text).1

def calloutBefore : JsString := ofString ":::info\n\na\n\n:::\n\nb"
def calloutAfter : JsString := ofString ":::info\n\na\n\n:::\n\nc"

def paragraphsBefore : JsString := ofString "a\n\nb\n\nc"
def paragraphsAfter : JsString := ofString "a\n\nb\n\nd"

end

end Marks
