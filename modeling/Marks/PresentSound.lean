import Marks.IncrementalSound

/-! # What the worker sends and what it omits

The blocks present are the blocks of the cache, and a block is omitted only when its HTML is the cached one.
A pass that reuses HTML soundly answers with the pages of a full pass that starts from nothing. -/

namespace Marks

open List

namespace MarkdownWorker

variable {M : Markdown} {worker : MarkdownWorker M} {imports : Imports} {text : JsString}

/-! ## Lookups -/

variable {key : BlockKey}

theorem lookup_cons {page : BlockKey × JsString} {pages : List (BlockKey × JsString)} :
    lookup (page :: pages) key = if key = page.1 then some page.2 else lookup pages key := by
  unfold lookup
  rw [find?_cons]
  by_cases hk : key = page.1
  · rw [if_pos hk, hk, beq_self_eq_true]
    rfl
  · rw [if_neg hk, beq_false_of_ne fun h => hk h.symm]

theorem lookup_append {pages more : List (BlockKey × JsString)} :
    lookup (pages ++ more) key = (lookup pages key).or (lookup more key) := by
  unfold lookup
  rw [find?_append, Option.map_or]

theorem lookup_eq_none {pages : List (BlockKey × JsString)} :
    lookup pages key = none ↔ key ∉ pages.map (·.1) := by
  unfold lookup
  rw [Option.map_eq_none_iff, find?_eq_none]
  constructor
  · intro h hm
    obtain ⟨page, hp, hk⟩ := mem_map.mp hm
    exact h page hp (beq_iff_eq.mpr hk)
  · intro h page hp hk
    exact h (beq_iff_eq.mp hk ▸ mem_map_of_mem hp)

theorem lookup_of_mem {pages : List (BlockKey × JsString)} (hnodup : (pages.map (·.1)).Nodup)
    {page : BlockKey × JsString} (hm : page ∈ pages) : lookup pages page.1 = some page.2 := by
  induction pages with
  | nil => cases hm
  | cons head pages ih =>
    rw [map_cons, nodup_cons] at hnodup
    rw [lookup_cons]
    rcases mem_cons.mp hm with rfl | hm
    · rw [if_pos rfl]
    · have hne : page.1 ≠ head.1 := fun heq => hnodup.1 (heq ▸ mem_map_of_mem hm)
      rw [if_neg hne]
      exact ih hnodup.2 hm

/-! ## Keys -/

variable {seen : List Nat}

variable {bases : List Nat}

theorem occurrenceKeys_mem (h : key ∈ occurrenceKeys seen bases) :
    ∃ base n, key = .block base n ∧ seen.count base < n := by
  induction bases generalizing seen with
  | nil => cases h
  | cons head bases ih =>
    rcases mem_cons.mp h with rfl | h
    · exact ⟨head, _, rfl, Nat.lt_succ_self _⟩
    · obtain ⟨base, n, rfl, hn⟩ := ih h
      rw [count_append] at hn
      exact ⟨base, n, rfl, by omega⟩

theorem occurrenceKeys_nodup : (occurrenceKeys seen bases).Nodup := by
  induction bases generalizing seen with
  | nil => exact nodup_nil
  | cons head bases ih =>
    refine nodup_cons.mpr ⟨fun hm => ?_, ih⟩
    obtain ⟨base, n, heq, hn⟩ := occurrenceKeys_mem hm
    unfold occurrenceKey at heq
    cases heq
    rw [count_append, count_singleton_self] at hn
    exact Nat.lt_irrefl _ hn

variable {offsets : List Nat}

theorem pushBlocks_keys {text : JsString} {lines : List JsString} {spans : List (Nat × Nat)} :
    (pushBlocks text lines offsets seen spans).map (·.key) =
      occurrenceKeys seen (spans.map fun span => hashString (sourceOf lines span.1 span.2)) := by
  induction spans generalizing seen with
  | nil => rfl
  | cons span spans ih =>
    rw [pushBlocks, map_cons, ih]
    rfl

theorem splitSourceBlocks_nodup {text : JsString} : ((splitSourceBlocks text).map (·.key)).Nodup := by
  unfold splitSourceBlocks
  rw [pushBlocks_keys]
  exact occurrenceKeys_nodup

variable {features : MarkdownFeatures} {env : M.Env} {cache : List (BlockKey × JsString)}

variable {blocks : List RenderedBlock}

variable {groups : List (TokenGroup M.Payload)}

theorem renderGroups_keys
    (h : renderGroups features env cache offsets seen groups = some blocks) :
    blocks.map (·.key) = groupKeys seen groups := by
  induction groups generalizing seen blocks with
  | nil =>
    cases h
    rfl
  | cons group groups ih =>
    rw [renderGroups] at h
    simp only at h
    split at h
    · rename_i hrest
      cases h
      rw [groupKeys_cons, map_cons, ih hrest]
    · cases h

variable {dirty : List BlockKey}

variable {sources : List SourceBlock}

theorem renderBlocks_keys
    {parsed : List (BlockKey × List (Token M.Payload))}
    (h : renderBlocks features dirty cache parsed env sources = some blocks) :
    blocks.map (·.key) = sources.map (·.key) := by
  induction sources generalizing blocks with
  | nil =>
    cases h
    rfl
  | cons source sources ih =>
    rw [renderBlocks] at h
    split at h
    · rename_i hrest
      cases h
      rw [map_cons, map_cons, ih hrest]
    · cases h

/-! ## Kept HTML -/

theorem renderGroups_kept
    (h : renderGroups features env cache offsets seen groups = some blocks) :
    ∀ block ∈ blocks, block.always = false → ∀ html ∈ lookup cache block.key, block.html = html := by
  induction groups generalizing seen blocks with
  | nil =>
    cases h
    exact fun _ hm => by cases hm
  | cons group groups ih =>
    rw [renderGroups] at h
    simp only at h
    split at h
    · rename_i hhtml hrest
      cases h
      intro block hm halways html hl
      rcases mem_cons.mp hm with rfl | hm
      · simp only at halways hl ⊢
        unfold htmlOf at hhtml
        rw [Option.mem_def.mp hl] at hhtml
        simp only [halways, Bool.false_eq_true, if_false] at hhtml
        exact (Option.some.inj hhtml).symm
      · exact ih hrest block hm halways html hl
    · cases h

theorem renderBlocks_kept
    {parsed : List (BlockKey × List (Token M.Payload))}
    (h : renderBlocks features dirty cache parsed env sources = some blocks) :
    ∀ block ∈ blocks, block.always = false → ∀ html ∈ lookup cache block.key, block.html = html := by
  induction sources generalizing blocks with
  | nil =>
    cases h
    exact fun _ hm => by cases hm
  | cons source sources ih =>
    rw [renderBlocks] at h
    split at h
    · rename_i hhtml hrest
      cases h
      intro block hm halways html hl
      rcases mem_cons.mp hm with rfl | hm
      · simp only at halways hl ⊢
        rw [halways, if_neg Bool.false_ne_true, Option.mem_def.mp hl] at hhtml
        exact (Option.some.inj hhtml).symm
      · exact ih hrest block hm halways html hl
    · cases h

/-! ## The cache -/

structure Coherent (worker : MarkdownWorker M) : Prop where
  present : worker.present = worker.cache.map (·.1)
  distinct : (worker.cache.map (·.1)).Nodup

def KeepsCache (before after : MarkdownWorker M) : Prop :=
  after.cache = before.cache ∧ after.present = before.present ∨ after.cache = [] ∧ after.present = []

theorem coherent_empty (hcache : worker.cache = []) (hpresent : worker.present = []) : worker.Coherent := by
  refine ⟨?_, ?_⟩
  · rw [hcache, hpresent]
    rfl
  · rw [hcache]
    exact nodup_nil

theorem KeepsCache.coherent {before after : MarkdownWorker M} (h : KeepsCache before after) (hc : before.Coherent) :
    after.Coherent := by
  rcases h with ⟨hcache, hpresent⟩ | ⟨hcache, hpresent⟩
  · refine ⟨?_, ?_⟩
    · rw [hcache, hpresent]
      exact hc.present
    · rw [hcache]
      exact hc.distinct
  · exact coherent_empty hcache hpresent

theorem KeepsCache.trans {before middle after : MarkdownWorker M} (h : KeepsCache before middle) (h' : KeepsCache middle after) :
    KeepsCache before after := by
  rcases h' with ⟨hcache, hpresent⟩ | h'
  · rcases h with ⟨hc, hp⟩ | ⟨hc, hp⟩
    · exact .inl ⟨hcache.trans hc, hpresent.trans hp⟩
    · exact .inr ⟨hcache.trans hc, hpresent.trans hp⟩
  · exact .inr h'

theorem loadRequestedFeatures_keepsCache : KeepsCache worker (worker.loadRequestedFeatures imports text).1 := by
  unfold loadRequestedFeatures
  simp only
  split
  · exact .inl ⟨rfl, rfl⟩
  split
  · exact .inl ⟨rfl, rfl⟩
  · split
    · exact .inr ⟨rfl, rfl⟩
    · exact .inl ⟨rfl, rfl⟩

structure Passes (worker after : MarkdownWorker M) (blocks : Option (List RenderedBlock)) : Prop where
  keepsCache : KeepsCache worker after
  md : after.md = worker.md
  distinct : ∀ rendered ∈ blocks, (rendered.map (·.key)).Nodup
  kept : ∀ rendered ∈ blocks, ∀ block ∈ rendered, block.always = false →
    ∀ html ∈ lookup after.cache block.key, block.html = html

theorem renderFull_passes : Passes worker (worker.renderFull text).1 (worker.renderFull text).2 := by
  unfold renderFull
  split
  · exact ⟨.inl ⟨rfl, rfl⟩, rfl, fun _ hm => (by cases hm), fun _ hm => (by cases hm)⟩
  rename_i env tokens _
  simp only
  split
  · split
    · exact ⟨.inl ⟨rfl, rfl⟩, rfl, fun _ hm => (by cases hm), fun _ hm => (by cases hm)⟩
    · exact ⟨.inr ⟨rfl, rfl⟩, rfl, fun _ hm => (by cases hm), fun _ hm => (by cases hm)⟩
  rename_i blocks hr
  have hkeys : (blocks.map (·.key)).Nodup := by
    rw [renderGroups_keys hr]
    exact occurrenceKeys_nodup
  have hkept := renderGroups_kept hr
  split at hkept
  · rename_i hs
    rw [if_pos hs]
    refine ⟨.inl ⟨rfl, rfl⟩, rfl, fun rendered hm => ?_, fun rendered hm => ?_⟩
    · cases Option.mem_some.mp hm
      exact hkeys
    · cases Option.mem_some.mp hm
      exact hkept
  · rename_i hs
    rw [if_neg hs]
    refine ⟨.inr ⟨rfl, rfl⟩, rfl, fun rendered hm => ?_, fun rendered hm => ?_⟩
    · cases Option.mem_some.mp hm
      exact hkeys
    · cases Option.mem_some.mp hm
      exact hkept

theorem renderIncremental_passes :
    Passes worker (worker.renderIncremental text dirty).1 (worker.renderIncremental text dirty).2 := by
  unfold renderIncremental
  simp only
  split
  · exact ⟨.inl ⟨rfl, rfl⟩, rfl, fun _ hm => (by cases hm), fun _ hm => (by cases hm)⟩
  split
  · exact ⟨.inl ⟨rfl, rfl⟩, rfl, fun _ hm => (by cases hm), fun _ hm => (by cases hm)⟩
  rename_i blocks hr
  refine ⟨.inl ⟨rfl, rfl⟩, rfl, fun rendered hm => ?_, fun rendered hm => ?_⟩
  · cases Option.mem_some.mp hm
    rw [renderBlocks_keys hr]
    exact splitSourceBlocks_nodup
  · cases Option.mem_some.mp hm
    exact renderBlocks_kept hr

theorem renderText_passes :
    Passes (worker.loadRequestedFeatures imports text).1 (worker.renderText imports text).1
      (worker.renderText imports text).2 := by
  unfold renderText
  split
  · rename_i loaded hl
    rw [hl]
    exact ⟨.inl ⟨rfl, rfl⟩, rfl, fun _ hm => (by cases hm), fun _ hm => (by cases hm)⟩
  rename_i loaded hl
  rw [hl]
  simp only
  split
  · exact renderIncremental_passes
  · exact renderFull_passes

theorem renderText_keepsCache : KeepsCache worker (worker.renderText imports text).1 :=
  loadRequestedFeatures_keepsCache.trans renderText_passes.keepsCache

/-! ## The answer -/

inductive Answers (worker : MarkdownWorker M) (imports : Imports) (seq : Nat) (text : JsString) :
    MarkdownWorker M → RenderResponse → Prop
  | rendered {blocks : List RenderedBlock} (h : (worker.renderText imports text).2 = some blocks) :
    Answers worker imports seq text ((worker.renderText imports text).1.finish blocks)
      (.rendered seq worker.generation (blocks.map (RenderedBlock.patch (worker.renderText imports text).1.present)))
  | threw (h : (worker.renderText imports text).2 = none) :
    Answers worker imports seq text { (worker.renderText imports text).1 with lastText := text }
      (.rendered seq worker.generation [errorBlock seq text])

theorem respond_answers {seq : Nat} :
    Answers worker imports seq text (worker.respond imports seq text).1 (worker.respond imports seq text).2 := by
  have hg := @renderText_generation M worker imports text
  unfold respond
  split
  · rename_i after blocks hr
    have hanswers := @Answers.rendered M worker imports seq text blocks (by rw [hr])
    rw [hr] at hanswers hg
    have heq : RenderResponse.rendered seq after.generation (blocks.map (RenderedBlock.patch after.present)) =
        .rendered seq worker.generation (blocks.map (RenderedBlock.patch after.present)) := by rw [hg]
    exact heq ▸ hanswers
  · rename_i after hr
    have hanswers := @Answers.threw M worker imports seq text (by rw [hr])
    rw [hr] at hanswers hg
    have heq : RenderResponse.rendered seq after.generation [errorBlock seq text] =
        .rendered seq worker.generation [errorBlock seq text] := by rw [hg]
    exact heq ▸ hanswers

theorem respond_coherent {seq : Nat} (hc : worker.Coherent) : (worker.respond imports seq text).1.Coherent := by
  have hanswers := @respond_answers M worker imports text seq
  generalize (worker.respond imports seq text).1 = after at hanswers ⊢
  generalize (worker.respond imports seq text).2 = response at hanswers
  cases hanswers with
  | rendered h =>
    refine ⟨?_, ?_⟩
    · unfold finish
      rw [map_map]
      rfl
    · unfold finish
      rw [map_map]
      exact renderText_passes.distinct _ h
  | threw h =>
    have hcoherent := (@renderText_keepsCache M worker imports text).coherent hc
    exact ⟨hcoherent.present, hcoherent.distinct⟩

variable {generation : WorkerGeneration}

theorem respond_omits {seq : Nat} {blocks : List BlockPatch} (hc : worker.Coherent)
    (hr : (worker.respond imports seq text).2 = .rendered seq generation blocks) :
    ∀ block ∈ blocks, block.html = none → (worker.renderText imports text).1.present ≠ [] ∧
      ∃ html, lookup worker.cache block.key = some html ∧
        lookup (worker.respond imports seq text).1.cache block.key = some html := by
  have hanswers := @respond_answers M worker imports text seq
  rw [hr] at hanswers
  generalize (worker.respond imports seq text).1 = after at hanswers ⊢
  cases hanswers with
  | rendered h =>
    rename_i rendered
    intro block hm hnone
    obtain ⟨page, hpage, rfl⟩ := mem_map.mp hm
    unfold RenderedBlock.patch at hnone
    simp only at hnone
    split at hnone
    · cases hnone
    rename_i hcond
    rw [Bool.or_eq_true, not_or, Bool.not_eq_true', Bool.not_eq_false, Bool.not_eq_true] at hcond
    have hpresent : page.key ∈ (worker.renderText imports text).1.present := contains_iff_mem.mp hcond.1
    have hcoherent := (@renderText_keepsCache M worker imports text).coherent hc
    have hcache : (worker.renderText imports text).1.cache = worker.cache := by
      rcases @renderText_keepsCache M worker imports text with ⟨hk, _⟩ | ⟨_, hk⟩
      · exact hk
      · rw [hk] at hpresent
        cases hpresent
    refine ⟨ne_nil_of_mem hpresent, ?_⟩
    rw [hcoherent.present] at hpresent
    cases hl : lookup (worker.renderText imports text).1.cache page.key with
    | none => exact absurd hpresent (lookup_eq_none.mp hl)
    | some html =>
      have hkept := renderText_passes.kept rendered h page hpage hcond.2 html hl
      refine ⟨html, hcache ▸ hl, ?_⟩
      have hdistinct : ((rendered.map fun block => (block.key, block.html)).map (·.1)).Nodup := by
        rw [map_map]
        exact renderText_passes.distinct _ h
      have := lookup_of_mem hdistinct (mem_map_of_mem hpage)
      rw [← hkept]
      exact this
  | threw h =>
    intro block hm hnone
    rw [mem_singleton.mp hm] at hnone
    cases hnone

/-! ## Fresh pages -/

def answerPages (worker : MarkdownWorker M) (imports : Imports) (seq : Nat) (text : JsString) :
    List (BlockKey × JsString) :=
  (pages (worker.renderText imports text).2).getD [(.error seq, errorHtml)]

def freshResponse (worker : MarkdownWorker M) (seq : Nat) (text : JsString) : List (BlockKey × JsString) :=
  (worker.freshPages text).getD [(.error seq, errorHtml)]

variable {other : MarkdownWorker M}

theorem freshPages_md {worker : MarkdownWorker M} (h : other.md = worker.md) :
    other.freshPages text = worker.freshPages text := by
  rw [freshPages_eq, freshPages_eq, h]

theorem freshResponse_md {worker : MarkdownWorker M} {seq : Nat} (h : other.md = worker.md) :
    other.freshResponse seq text = worker.freshResponse seq text := by
  unfold freshResponse
  rw [freshPages_md h]

theorem freshResponse_nodup {seq : Nat} : ((worker.freshResponse seq text).map (·.1)).Nodup := by
  unfold freshResponse
  cases hf : worker.freshPages text with
  | none => exact nodup_singleton _
  | some pages =>
    rw [freshPages_eq] at hf
    split at hf
    · cases hf
    have hkeys := congrArg (List.map Prod.fst) (collect_eq_some.mp hf)
    rw [map_fst_zip (by rw [groupKeys_length, length_map]), map_map] at hkeys
    show (pages.map (·.1)).Nodup
    rw [show pages.map (·.1) = groupKeys [] _ from hkeys.symm]
    exact occurrenceKeys_nodup

def CacheAgrees (worker : MarkdownWorker M) (text : JsString) : Prop :=
  match M.parse worker.md text M.newEnv with
  | (_, none) => True
  | (env, some tokens) => worker.lastEnvSignature = some (envSignature M env tokens) →
    ∀ pair ∈ (groupKeys [] (groupTokens tokens (JsString.lines text))).zip (groupTokens tokens (JsString.lines text)),
      pair.2.source.isSome = true → ∀ html ∈ lookup worker.cache pair.1, groupHtml worker.md env pair.2 = some html

structure Faithful (worker : MarkdownWorker M) (imports : Imports) (text : JsString) : Prop where
  loaded : (worker.loadRequestedFeatures imports text).2 = true
  incremental : worker.TakesIncremental imports text → worker.FullThrows text ∧ worker.OwnThrows text ∨
    ∃ env tokens ownEnv parsed, M.parse worker.md text M.newEnv = (env, some tokens) ∧
      worker.ownParses text = (ownEnv, some parsed) ∧ worker.Aligned text env tokens ownEnv parsed
  full : ¬worker.TakesIncremental imports text → (worker.loadRequestedFeatures imports text).1.CacheAgrees text

theorem renderFull_fresh (h : worker.CacheAgrees text) : pages (worker.renderFull text).2 = worker.freshPages text := by
  rw [freshPages_eq]
  unfold renderFull
  unfold CacheAgrees at h
  cases hp : M.parse worker.md text M.newEnv with
  | mk env tokens =>
    rw [hp] at h
    cases tokens with
    | none => rfl
    | some tokens =>
      simp only at h ⊢
      by_cases hs : worker.lastEnvSignature = some (envSignature M env tokens)
      · rw [if_pos hs, ← renderGroups_pages (h hs)]
        split
        · rename_i hr
          rw [hr]
        · rename_i hr
          rw [hr]
      · rw [if_neg hs, ← @renderGroups_pages M worker.md env [] (lineOffsets (JsString.lines text) 0) [] _
          fun _ _ _ _ hl => by cases hl]
        split
        · rename_i hr
          rw [hr]
        · rename_i hr
          rw [hr]

theorem renderText_md : (worker.renderText imports text).1.md = (worker.loadRequestedFeatures imports text).1.md :=
  renderText_passes.md

theorem renderText_fresh (h : worker.Faithful imports text) :
    pages (worker.renderText imports text).2 = (worker.renderText imports text).1.freshPages text := by
  rw [freshPages_md renderText_md]
  by_cases ht : worker.TakesIncremental imports text
  · rw [load_of_takes ht]
    rcases h.incremental ht with hthrows | ⟨env, tokens, ownEnv, parsed, hparse, hown, ha⟩
    · exact pages_of_throws ht hthrows
    · exact pages_of_aligned ht hparse hown ha
  · have hfull := renderFull_fresh (h.full ht)
    have hloaded := h.loaded
    unfold TakesIncremental at ht
    unfold renderText
    cases hl : worker.loadRequestedFeatures imports text with
    | mk loaded succeeded =>
      rw [hl] at ht hfull hloaded
      simp only at ht hfull hloaded ⊢
      subst hloaded
      simp only
      rw [if_neg fun hi => ht ⟨rfl, hi⟩]
      exact hfull

theorem respond_md {seq : Nat} :
    (worker.respond imports seq text).1.md = (worker.renderText imports text).1.md := by
  have hanswers := @respond_answers M worker imports text seq
  generalize (worker.respond imports seq text).1 = after at hanswers ⊢
  generalize (worker.respond imports seq text).2 = response at hanswers
  cases hanswers <;> rfl

theorem respond_cache {seq : Nat} :
    (worker.respond imports seq text).1.cache = worker.answerPages imports seq text ∨
      (worker.renderText imports text).2 = none ∧
        (worker.respond imports seq text).1.cache = (worker.renderText imports text).1.cache := by
  have hanswers := @respond_answers M worker imports text seq
  generalize (worker.respond imports seq text).1 = after at hanswers ⊢
  generalize (worker.respond imports seq text).2 = response at hanswers
  cases hanswers with
  | rendered h =>
    refine .inl ?_
    unfold answerPages
    rw [h]
    rfl
  | threw h => exact .inr ⟨h, rfl⟩

theorem respond_pages {seq : Nat} {blocks : List BlockPatch} (hc : worker.Coherent)
    (hr : (worker.respond imports seq text).2 = .rendered seq generation blocks) :
    List.Forall₂ (fun block page => block.key = page.1 ∧ (block.html = some page.2 ∨
      block.html = none ∧ lookup worker.cache page.1 = some page.2)) blocks (worker.answerPages imports seq text) := by
  have homits := respond_omits hc hr
  have hcoherent := @respond_coherent M worker imports text seq hc
  have hanswers := @respond_answers M worker imports text seq
  rw [hr] at hanswers
  generalize (worker.respond imports seq text).1 = after at hanswers homits hcoherent
  unfold answerPages
  cases hanswers with
  | rendered h =>
    rename_i rendered
    rw [h]
    show List.Forall₂ _ (rendered.map _) (rendered.map fun block => (block.key, block.html))
    rw [forall₂_map_left_iff, forall₂_map_right_iff, forall₂_same]
    intro page hpage
    refine ⟨rfl, ?_⟩
    cases hhtml : (RenderedBlock.patch (worker.renderText imports text).1.present page).html with
    | some html =>
      unfold RenderedBlock.patch at hhtml
      simp only at hhtml
      split at hhtml
      · exact .inl hhtml.symm
      · cases hhtml
    | none =>
      obtain ⟨_, html, hheld, hafter⟩ := homits _ (mem_map_of_mem hpage) hhtml
      have hmem : (page.key, page.html) ∈ ((worker.renderText imports text).1.finish rendered).cache :=
        mem_map_of_mem hpage
      have hown := lookup_of_mem hcoherent.distinct hmem
      have heq : html = page.html := Option.some.inj (hafter.symm.trans hown)
      exact .inr ⟨rfl, heq ▸ hheld⟩
  | threw h =>
    rw [h]
    exact .cons ⟨rfl, .inl rfl⟩ .nil

end MarkdownWorker

end Marks
