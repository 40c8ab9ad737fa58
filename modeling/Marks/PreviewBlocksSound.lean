import Marks.PresentSound
import Marks.PreviewSound

/-! # The preview's container against the worker's belief

The worker omits the HTML of the blocks it believes the container holds. The belief is its cache; the
container shows it, or will once the remainder of a first paint is inserted, unless a reset is on its way. The
conditions name the steps at which the belief is wrong. -/

namespace Marks

open List hiding lookup

open MarkdownWorker (lookup lookup_cons lookup_append lookup_eq_none lookup_of_mem)

/-! ## The container -/

def nodeHtml (children : List PreviewNode) (key : BlockKey) : Option JsString :=
  (findNode children key).map (·.html)

theorem findNode_filter {children : List PreviewNode} (p : BlockKey → Bool) {key : BlockKey} :
    findNode (children.filter fun node => p node.key) key = if p key then findNode children key else none := by
  unfold findNode
  rw [find?_filter]
  split
  · rename_i hp
    congr 1
    funext node
    by_cases hk : node.key = key
    · simp only [hk, hp, true_and, Bool.decide_eq_true]
    · simp only [beq_false_of_ne hk, Bool.false_eq_true, and_false, decide_false]
  · rename_i hp
    rw [find?_eq_none]
    intro node _ hn
    obtain ⟨hpn, hk⟩ := of_decide_eq_true hn
    exact hp (beq_iff_eq.mp hk ▸ hpn)

theorem insertBefore_perm {children : List PreviewNode} {node : PreviewNode} {cursor : Option BlockKey} :
    (insertBefore children node cursor).Perm (node :: children.filter fun child => child.key != node.key) := by
  unfold insertBefore
  cases cursor with
  | none => exact perm_append_singleton _ _
  | some key =>
    refine perm_middle.trans (List.Perm.cons _ ?_)
    rw [takeWhile_append_dropWhile]

theorem find_insert {α : Type*} {before behind : List α} (p : α → Bool) {a : α} (hp : p a = false) :
    (before ++ a :: behind).find? p = (before ++ behind).find? p := by
  rw [find?_append, find?_append, find?_cons_of_neg (by rw [hp]; exact Bool.false_ne_true)]

theorem findNode_insertBefore {children : List PreviewNode} {node : PreviewNode} {cursor : Option BlockKey}
    {own key : BlockKey} (hn : node.key = own) :
    findNode (insertBefore children node cursor) key = if key = own then some node else findNode children key := by
  subst hn
  split
  · rename_i hk
    have hothers : ∀ child ∈ children.filter (fun child => child.key != node.key), (child.key == key) = false := by
      intro child hc
      rw [hk]
      exact beq_false_of_ne (bne_iff_ne.mp (mem_filter.mp hc).2)
    unfold findNode insertBefore
    cases cursor with
    | none =>
      rw [find?_append, find?_eq_none.mpr fun c hc => by rw [hothers c hc]; exact Bool.false_ne_true,
        Option.none_or, find?_cons, hk, beq_self_eq_true]
    | some cursor =>
      simp only
      rw [find?_append, find?_eq_none.mpr fun c hc => by
        rw [hothers c (takeWhile_subset _ hc)]; exact Bool.false_ne_true,
        Option.none_or, find?_cons, hk, beq_self_eq_true]
  · rename_i hk
    have hnode : (node.key == key) = false := beq_false_of_ne fun h => hk h.symm
    have hothers : findNode (children.filter fun child => child.key != node.key) key = findNode children key := by
      rw [findNode_filter fun k => k != node.key, if_pos (bne_iff_ne.mpr hk)]
    rw [← hothers]
    unfold findNode insertBefore
    cases cursor with
    | none =>
      simp only
      rw [find_insert (fun child : PreviewNode => child.key == key) hnode, append_nil]
    | some cursor =>
      simp only
      rw [find_insert (fun child : PreviewNode => child.key == key) hnode, takeWhile_append_dropWhile]

theorem findNode_replace {children : List PreviewNode} {node : PreviewNode} {key other : BlockKey}
    (hn : node.key = key) :
    findNode (children.map fun child => if child.key = key then node else child) other =
      if other = key then (findNode children key).map fun _ => node else findNode children other := by
  unfold findNode
  induction children with
  | nil => split <;> rfl
  | cons child children ih =>
    rw [map_cons, find?_cons, find?_cons, find?_cons, ih]
    by_cases hc : child.key = key
    · rw [if_pos hc, hn, hc, beq_self_eq_true]
      by_cases ho : other = key
      · rw [if_pos ho, ho, beq_self_eq_true, if_pos rfl]
        rfl
      · rw [if_neg ho, beq_false_of_ne fun h => ho h.symm, if_neg ho]
    · rw [if_neg hc, beq_false_of_ne hc]
      by_cases ho : other = key
      · rw [if_pos ho, ho, beq_false_of_ne hc, if_pos rfl]
      · rw [if_neg ho, if_neg ho]

section
variable {sanitize : JsString → JsString}

theorem patchNode_key {children : List PreviewNode} {block : BlockPatch} :
    (patchNode sanitize children block).key = block.key := rfl

theorem patchBlock_nodeHtml {children : List PreviewNode} {cursor : Option BlockKey} {block : BlockPatch}
    {key : BlockKey} :
    nodeHtml (patchBlock sanitize (children, cursor) block).1 key =
      if key = block.key then some (patchNode sanitize children block).html else nodeHtml children key := by
  unfold patchBlock nodeHtml
  simp only
  split
  · rename_i hc
    obtain ⟨node, hnode⟩ := Option.isSome_iff_exists.mp hc.1
    simp only
    rw [findNode_replace patchNode_key]
    split
    · rw [hnode]
      rfl
    · rfl
  · simp only
    rw [findNode_insertBefore patchNode_key]
    by_cases hk : key = block.key
    · rw [if_pos hk, if_pos hk]
      rfl
    · rw [if_neg hk, if_neg hk]

theorem patchBlock_nodup {children : List PreviewNode} {cursor : Option BlockKey} {block : BlockPatch}
    (h : (children.map (·.key)).Nodup) :
    ((patchBlock sanitize (children, cursor) block).1.map (·.key)).Nodup := by
  unfold patchBlock
  simp only
  split
  · rw [map_map]
    have hsame : ((·.key) ∘ fun child => if child.key = block.key then patchNode sanitize children block else child) =
        fun child : PreviewNode => child.key := by
      funext child
      rw [Function.comp_apply]
      split
      · rename_i hk
        exact patchNode_key.trans hk.symm
      · rfl
    rw [hsame]
    exact h
  · refine ((insertBefore_perm.map _).nodup_iff).mpr (nodup_cons.mpr ⟨fun hm => ?_, ?_⟩)
    · obtain ⟨child, hc, hk⟩ := mem_map.mp hm
      exact bne_iff_ne.mp (mem_filter.mp hc).2 hk
    · exact h.sublist (List.filter_sublist.map _)

theorem foldl_patchBlock_nodup {blocks : List BlockPatch} {children : List PreviewNode} {cursor : Option BlockKey}
    (h : (children.map (·.key)).Nodup) :
    ((blocks.foldl (patchBlock sanitize) (children, cursor)).1.map (·.key)).Nodup := by
  induction blocks generalizing children cursor with
  | nil => exact h
  | cons block blocks ih =>
    rw [foldl_cons]
    exact ih (patchBlock_nodup h)

theorem patchRange_nodup {children : List PreviewNode} {blocks : List BlockPatch} {start stop : Nat} {retire : Bool}
    (h : (children.map (·.key)).Nodup) :
    ((patchRange sanitize children blocks start stop retire).map (·.key)).Nodup := by
  unfold patchRange
  refine foldl_patchBlock_nodup ?_
  split
  · exact h.sublist (List.filter_sublist.map _)
  · exact h

/-! ## Blocks and pages -/

def Carried (sanitize : JsString → JsString) (children : List PreviewNode) (block : BlockPatch)
    (page : BlockKey × JsString) : Prop :=
  block.key = page.1 ∧
    (block.html = some page.2 ∨ block.html = none ∧ nodeHtml children page.1 = some (sanitize page.2))

theorem patchNode_html {children : List PreviewNode} {block : BlockPatch} {page : BlockKey × JsString}
    (h : Carried sanitize children block page) : (patchNode sanitize children block).html = sanitize page.2 := by
  obtain ⟨hk, hh | ⟨hh, hn⟩⟩ := h
  · unfold patchNode
    rw [hh]
  unfold patchNode
  rw [hh, hk]
  obtain ⟨node, hnode, heq⟩ := Option.map_eq_some_iff.mp hn
  rw [hnode]
  exact heq

theorem forall₂_imp_mem {α β : Type*} {R S : α → β → Prop} {l : List α} {l' : List β} (h : List.Forall₂ R l l')
    (himp : ∀ a b, b ∈ l' → R a b → S a b) : List.Forall₂ S l l' := by
  induction h with
  | nil => exact .nil
  | cons hr _ ih =>
    exact .cons (himp _ _ mem_cons_self hr) (ih fun a b hb => himp a b (mem_cons_of_mem _ hb))

theorem foldl_patchBlock_nodeHtml {blocks : List BlockPatch} {pages : List (BlockKey × JsString)}
    {children : List PreviewNode} {cursor : Option BlockKey} {key : BlockKey}
    (h : List.Forall₂ (Carried sanitize children) blocks pages) (hnodup : (pages.map (·.1)).Nodup) :
    nodeHtml (blocks.foldl (patchBlock sanitize) (children, cursor)).1 key =
      ((lookup pages key).map sanitize).or (nodeHtml children key) := by
  induction blocks generalizing pages children cursor with
  | nil =>
    cases h
    rfl
  | cons block blocks ih =>
    cases h with
    | cons hheld hrest =>
      rename_i page pages
      rw [map_cons, nodup_cons] at hnodup
      have hnode : ∀ k, nodeHtml (patchBlock sanitize (children, cursor) block).1 k =
          if k = page.1 then some (sanitize page.2) else nodeHtml children k := by
        intro k
        rw [patchBlock_nodeHtml, patchNode_html hheld, hheld.1]
      rw [foldl_cons, lookup_cons]
      have hrest' : List.Forall₂ (Carried sanitize (patchBlock sanitize (children, cursor) block).1) blocks pages := by
        refine forall₂_imp_mem hrest fun other otherPage hm ho => ⟨ho.1, ho.2.imp_right fun ⟨hn, hh⟩ => ⟨hn, ?_⟩⟩
        have hne : otherPage.1 ≠ page.1 := fun heq => hnodup.1 (heq ▸ mem_map_of_mem hm)
        rw [hnode, if_neg hne]
        exact hh
      have hfold := @ih pages _ (patchBlock sanitize (children, cursor) block).2 hrest' hnodup.2
      rw [Prod.mk.eta] at hfold
      rw [hfold, hnode]
      by_cases hk : key = page.1
      · rw [if_pos hk, if_pos hk, lookup_eq_none.mpr (hk ▸ hnodup.1)]
        rfl
      · rw [if_neg hk, if_neg hk]

/-- A response carries these pages for the container. What it omits is painted, and nothing is left to paint. -/
def Carries (sanitize : JsString → JsString) (main : PreviewRenderer) : List BlockPatch → List (BlockKey × JsString) →
    Prop :=
  List.Forall₂ fun block page => block.key = page.1 ∧ (block.html = some page.2 ∨
    block.html = none ∧ main.idle = none ∧ nodeHtml main.children page.1 = some (sanitize page.2))

def Displays (sanitize : JsString → JsString) (main : PreviewRenderer) (pages : List (BlockKey × JsString)) : Prop :=
  match main.idle with
  | none => ∀ key, nodeHtml main.children key = (lookup pages key).map sanitize
  | some remainder =>
    List.Forall₂ (fun block page => block.key = page.1 ∧ block.html = some page.2) remainder.blocks pages ∧
      ∀ key, nodeHtml main.children key = (lookup (pages.take remainder.offset) key).map sanitize

section
variable {main : PreviewRenderer} {blocks : List BlockPatch} {pages : List (BlockKey × JsString)}

theorem Carries.carried (h : Carries sanitize main blocks pages) :
    List.Forall₂ (Carried sanitize main.children) blocks pages :=
  h.imp fun _ _ hb => ⟨hb.1, hb.2.imp_right fun hn => ⟨hn.1, hn.2.2⟩⟩

theorem forall₂_keys {Q : BlockPatch → BlockKey × JsString → Prop}
    (h : List.Forall₂ (fun block page => block.key = page.1 ∧ Q block page) blocks pages) :
    blocks.map (·.key) = pages.map (·.1) := by
  induction h with
  | nil => rfl
  | cons hb _ ih => rw [map_cons, map_cons, hb.1, ih]

theorem Carries.keys (h : Carries sanitize main blocks pages) : blocks.map (·.key) = pages.map (·.1) := forall₂_keys h

theorem patchRange_nodeHtml {children : List PreviewNode} {start stop : Nat} {retire : Bool} {key : BlockKey}
    (hblocks : List.Forall₂ (Carried sanitize children) ((blocks.take stop).drop start) ((pages.take stop).drop start))
    (hnodup : (pages.map (·.1)).Nodup) (hkeys : blocks.map (·.key) = pages.map (·.1)) :
    nodeHtml (patchRange sanitize children blocks start stop retire) key =
      ((lookup ((pages.take stop).drop start) key).map sanitize).or
        (if retire && !(pages.map (·.1)).contains key then none else nodeHtml children key) := by
  have hsub : (((pages.take stop).drop start).map (·.1)).Sublist (pages.map (·.1)) :=
    ((drop_sublist _ _).trans (take_sublist _ _)).map _
  have hkept : ∀ k, nodeHtml (if retire then children.filter fun node => (blocks.map (·.key)).contains node.key
      else children) k = if retire && !(pages.map (·.1)).contains k then none else nodeHtml children k := by
    intro k
    cases retire with
    | false => rfl
    | true =>
      rw [if_pos rfl, hkeys]
      unfold nodeHtml
      rw [findNode_filter fun k => (pages.map (·.1)).contains k]
      cases (pages.map (·.1)).contains k <;> rfl
  unfold patchRange
  simp only
  rw [foldl_patchBlock_nodeHtml ?_ (hnodup.sublist hsub), hkept]
  refine forall₂_imp_mem hblocks fun block page hm hb => ⟨hb.1, hb.2.imp_right fun hn => ⟨hn.1, ?_⟩⟩
  have hmem : (pages.map (·.1)).contains page.1 = true :=
    contains_iff_mem.mpr (hsub.subset (mem_map_of_mem hm))
  rw [hkept, hmem, Bool.not_true, Bool.and_false, if_neg Bool.false_ne_true]
  exact hn.2

theorem Displays.patch {seq : Nat} (h : Carries sanitize main blocks pages) (hnodup : (pages.map (·.1)).Nodup) :
    Displays sanitize (main.patch sanitize seq blocks) pages := by
  have hlength : blocks.length = pages.length := h.length_eq
  unfold PreviewRenderer.patch
  split
  · rename_i hfirst
    have hfull : List.Forall₂ (fun block page => block.key = page.1 ∧ block.html = some page.2) blocks pages := by
      refine h.imp fun block page hb => ⟨hb.1, ?_⟩
      rcases hb.2 with hh | ⟨_, _, hn⟩
      · exact hh
      · rw [hfirst.1] at hn
        cases hn
    refine ⟨hfull, fun key => ?_⟩
    simp only
    rw [patchRange_nodeHtml (forall₂_drop 0 (forall₂_take firstPaintBlocks h.carried)) hnodup h.keys, hfirst.1,
      Bool.false_and, if_neg Bool.false_ne_true]
    exact Option.or_none
  · intro key
    simp only
    rw [patchRange_nodeHtml (forall₂_drop 0 (forall₂_take blocks.length h.carried)) hnodup h.keys, hlength,
      take_length, drop_zero, Bool.true_and]
    cases hl : lookup pages key with
    | some html => rfl
    | none =>
      have hk := lookup_eq_none.mp hl
      have hc : (pages.map (·.1)).contains key = false := by
        rw [← Bool.not_eq_true, contains_iff_mem]
        exact hk
      rw [hc, Bool.not_false, if_pos rfl]
      rfl

theorem take_slice {offset stop : Nat} (h : stop = min (offset + idlePaintBlocks) pages.length) :
    pages.take stop = pages.take offset ++ (pages.take stop).drop offset := by
  by_cases hle : offset ≤ stop
  · conv_lhs => rw [← take_append_drop offset (pages.take stop)]
    rw [take_take, Nat.min_eq_left hle]
  have hstop : stop = pages.length := by
    unfold idlePaintBlocks at h
    omega
  rw [hstop, take_length, take_of_length_le (by omega), drop_eq_nil_of_le (by omega), append_nil]

theorem lookup_swap {front slice : List (BlockKey × JsString)} {key : BlockKey}
    (hnodup : ((front ++ slice).map (·.1)).Nodup) :
    (lookup slice key).or (lookup front key) = lookup (front ++ slice) key := by
  rw [lookup_append]
  cases hf : lookup front key with
  | none => rw [Option.or_none, Option.none_or]
  | some html =>
    have hmem : key ∈ front.map (·.1) := by
      by_contra hn
      rw [lookup_eq_none.mpr hn] at hf
      cases hf
    rw [map_append] at hnodup
    rw [lookup_eq_none.mpr fun hs => (disjoint_of_nodup_append hnodup) hmem hs]
    rfl

theorem Displays.paint {remainder : Remainder} (h : Displays sanitize main pages) (hidle : main.idle = some remainder)
    (hnodup : (pages.map (·.1)).Nodup) : Displays sanitize (main.paint sanitize remainder) pages := by
  unfold Displays at h
  rw [hidle] at h
  obtain ⟨hblocks, hshown⟩ := h
  have hlength : remainder.blocks.length = pages.length := hblocks.length_eq
  have hkeys := forall₂_keys hblocks
  have hcarried : List.Forall₂ (Carried sanitize main.children) remainder.blocks pages :=
    hblocks.imp fun _ _ hb => ⟨hb.1, .inl hb.2⟩
  have hpaint : ∀ key, nodeHtml (main.paint sanitize remainder).children key =
      (lookup (pages.take (min (remainder.offset + idlePaintBlocks) pages.length)) key).map sanitize := by
    intro key
    unfold PreviewRenderer.paint
    simp only
    rw [patchRange_nodeHtml (forall₂_drop _ (forall₂_take _ hcarried)) hnodup hkeys, hshown, hlength]
    have hslice := @take_slice pages remainder.offset _ rfl
    have hfront : ((pages.take remainder.offset ++ (pages.take (min (remainder.offset + idlePaintBlocks)
        pages.length)).drop remainder.offset).map (·.1)).Nodup := by
      rw [← hslice]
      exact hnodup.sublist ((take_sublist _ _).map _)
    conv_rhs => rw [hslice, ← lookup_swap hfront, Option.map_or]
    congr 1
    split
    · rename_i hretire
      have hk : key ∉ pages.map (·.1) := by
        intro hm
        rw [contains_iff_mem.mpr hm, Bool.not_true, Bool.and_false] at hretire
        cases hretire
      rw [lookup_eq_none.mpr fun hm => hk (((take_sublist _ _).map _).subset hm)]
      rfl
    · rfl
  unfold Displays
  split
  · rename_i hdone
    intro key
    rw [hpaint]
    unfold PreviewRenderer.paint at hdone
    simp only at hdone
    split at hdone
    · cases hdone
    · rw [take_of_length_le (by omega)]
  · rename_i rest hrest
    unfold PreviewRenderer.paint at hrest
    simp only at hrest
    split at hrest
    · cases hrest
      refine ⟨hblocks, fun key => ?_⟩
      rw [hpaint, hlength]
    · cases hrest

theorem patch_nodup {seq : Nat} (h : (main.children.map (·.key)).Nodup) :
    ((main.patch sanitize seq blocks).children.map (·.key)).Nodup := by
  unfold PreviewRenderer.patch
  split
  · exact patchRange_nodup h
  · exact patchRange_nodup h

theorem Carries.paint {remainder : Remainder} (h : Carries sanitize main blocks pages)
    (hidle : main.idle = some remainder) : Carries sanitize (main.paint sanitize remainder) blocks pages := by
  refine h.imp fun block page hb => ⟨hb.1, hb.2.imp_right fun hn => ?_⟩
  rw [hidle] at hn
  cases hn.2.1

theorem Carries.omitted {page : BlockKey × JsString} {block : BlockPatch} (hidle : main.idle = none)
    (h : Displays sanitize main pages) (hkey : block.key = page.1) (hnone : block.html = none)
    (hheld : lookup pages page.1 = some page.2) :
    block.key = page.1 ∧ (block.html = some page.2 ∨
      block.html = none ∧ main.idle = none ∧ nodeHtml main.children page.1 = some (sanitize page.2)) := by
  refine ⟨hkey, .inr ⟨hnone, hidle, ?_⟩⟩
  unfold Displays at h
  rw [hidle] at h
  rw [h page.1, hheld]
  rfl

end

end

/-! ## The belief -/

section
variable {M : Markdown} (sanitize : JsString → JsString)

/-- The module that gets these messages may omit what it holds: the container shows it, or will with the
response on its way. -/
def Trusts (main : PreviewRenderer) (outbox : List RenderResponse) (messages : List RenderRequest)
    (worker : MarkdownWorker M) : Prop :=
  messages.head? ≠ some .reset → worker.cache ≠ [] →
    match outbox with
    | [.rendered _ _ blocks] => Carries sanitize main blocks worker.cache
    | _ => Displays sanitize main worker.cache

structure Tended (thread : WorkerThread M) : Prop where
  nonempty : thread.instances ≠ []
  coherent : ∀ worker ∈ thread.modules, worker.Coherent
  older : ∀ newest older, thread.instances = newest :: older → ∀ old ∈ older,
    (∃ request ∈ old.queue, request ≠ .reset) → newest.worker.cache = []

structure Trusting (main : PreviewRenderer) (thread : WorkerThread M) : Prop where
  newest : ∀ newest older, thread.instances = newest :: older →
    Trusts sanitize main thread.outbox (newest.queue ++ thread.inbox) newest.worker
  older : ∀ newest older, thread.instances = newest :: older → ∀ old ∈ older,
    (∃ request ∈ old.queue, request ≠ .reset) → Trusts sanitize main [] old.queue old.worker
  response : ∀ seq generation blocks, .rendered seq generation blocks ∈ thread.outbox →
    ∃ worker ∈ thread.modules, worker.generation = generation ∧
      ∃ text, Based main text ∧ Carries sanitize main blocks (worker.freshResponse seq text)

def Cleared (thread : WorkerThread M) : Prop :=
  ∀ newest older, thread.instances = newest :: older → (newest.queue ++ thread.inbox).getLast? = some .reset ∨
    newest.queue ++ thread.inbox = [] ∧ newest.worker.cache = []

def Settled (main : PreviewRenderer) (thread : WorkerThread M) : Prop :=
  ∃ worker ∈ thread.modules, main.workerGeneration = some worker.generation ∧
    ∃ seq text, Based main text ∧ Displays sanitize main (worker.freshResponse seq text)

structure Loose (browser : Browser) (system : PreviewSystem M) : Prop where
  omitted : ∀ key html shown, .omitted key html shown ∈ system.log → shown = some (browser.sanitize html)
  distinct : (system.main.children.map (·.key)).Nodup
  tended : ∀ thread ∈ system.supervisor.worker, Tended thread

structure Agreed (browser : Browser) (system : PreviewSystem M) : Prop extends Loose browser system where
  trusting : system.main.queuedFull = none → ∀ thread ∈ system.supervisor.worker,
    Trusting browser.sanitize system.main thread
  cleared : system.main.queuedFull ≠ none → ∀ thread ∈ system.supervisor.worker, Cleared thread
  settled : system.main.queuedFull = none → system.main.inFlight = none → ∀ thread ∈ system.supervisor.worker,
    system.main.workerGeneration = none ∧ system.main.children = [] ∧ system.main.idle = none ∨
      Settled browser.sanitize system.main thread

end

/-! ## A worker that fails -/

section
open PreviewSystem
variable {M : Markdown} {browser : Browser} {system after : PreviewSystem M}

theorem Loose.agreed (h : Loose browser system) (hfull : system.main.queuedFull ≠ none)
    (hcleared : ∀ thread ∈ system.supervisor.worker, Cleared thread) : Agreed browser system :=
  ⟨h, fun hn => absurd hn hfull, fun _ => hcleared, fun hn => absurd hn hfull⟩

theorem Loose.idle (homitted : ∀ key html shown, .omitted key html shown ∈ system.log →
      shown = some (browser.sanitize html)) (hdistinct : (system.main.children.map (·.key)).Nodup)
    (hw : system.supervisor.worker = none) : Agreed browser system := by
  have hnone : ∀ {P : WorkerThread M → Prop}, ∀ thread ∈ system.supervisor.worker, P thread := by
    intro P thread ht
    rw [hw] at ht
    cases ht
  exact ⟨⟨homitted, hdistinct, hnone⟩, fun _ => hnone, fun _ => hnone, fun _ _ => hnone⟩

theorem tended_fresh {id : Nat} {generation : WorkerGeneration} : Tended (.fresh M id generation) where
  nonempty h := by cases h
  coherent worker hm := by
    rw [mem_singleton.mp hm]
    exact MarkdownWorker.coherent_empty rfl rfl
  older newest older heq old hm := by
    cases heq
    cases hm

theorem cleared_fresh {id : Nat} {generation : WorkerGeneration} : Cleared (.fresh M id generation) := by
  intro newest older heq
  cases heq
  exact .inr ⟨rfl, rfl⟩

theorem Loose.halted (h : Loose browser system) (hd : system.main.destroyed = false)
    (ht : system.main.workerTerminal = false) (hh : Halted browser system after) : Agreed browser after := by
  have hm := hh.main.trans (onWorkerTerminal_running hd ht)
  refine Loose.idle ?_ ?_ hh.worker
  · rw [hh.log]
    exact h.omitted
  · rw [hm]
    exact nodup_singleton _

theorem Loose.restarted (h : Loose browser system) (hr : Restarted system after) : Agreed browser after := by
  have hloose : Loose browser after := by
    refine ⟨?_, ?_, ?_⟩
    · rw [hr.log]
      intro key html shown hm
      rcases mem_cons.mp hm with hm | hm
      · cases hm
      · exact h.omitted key html shown hm
    · rw [hr.main]
      exact h.distinct
    · rw [hr.worker]
      intro thread ht
      cases ht
      exact tended_fresh
  refine hloose.agreed ?_ ?_
  · rw [hr.main]
    exact fun hn => by cases hn
  rw [hr.worker]
  intro thread ht
  cases ht
  exact cleared_fresh

theorem Loose.failed {thread : WorkerThread M} (h : Loose browser system) (hr : Running system thread)
    (hf : Halted browser system after ∨ Restarted system after) : Agreed browser after := by
  rcases hf with hh | hr'
  · exact h.halted hr.destroyed hr.workerTerminal hh
  · exact h.restarted hr'

theorem Agreed.fail (ha : Agreed browser system) (h : Synced system) {worker : Nat} :
    Agreed browser (system.fail browser worker) := by
  by_cases hw : system.supervisor.worker.map (·.id) = some worker
  · obtain ⟨thread, ht, rfl⟩ := Option.map_eq_some_iff.mp hw
    exact ha.toLoose.failed (h.toOrdered.is_running ht) (fail_cases browser (h.toOrdered.is_running ht))
  · rw [fail_other hw]
    exact ha

/-! ## A message for the worker -/

theorem Tended.push {thread : WorkerThread M} {message : RenderRequest} (h : Tended thread) :
    Tended { thread with inbox := thread.inbox ++ [message] } := ⟨h.nonempty, h.coherent, h.older⟩

theorem Cleared.push_reset {thread : WorkerThread M} :
    Cleared { thread with inbox := thread.inbox ++ [.reset] } := by
  intro newest older _
  refine .inl ?_
  simp only
  rw [← append_assoc, getLast?_concat]

theorem Trusts.push_reset {sanitize : JsString → JsString} {main : PreviewRenderer} {outbox : List RenderResponse}
    {messages : List RenderRequest} {worker : MarkdownWorker M} (h : Trusts sanitize main outbox messages worker) :
    Trusts sanitize main outbox (messages ++ [.reset]) worker := by
  cases messages with
  | nil => exact fun hhead => absurd rfl hhead
  | cons message messages => exact h

theorem Loose.post_reset (h : Loose browser system) (hs : Ordered system) {expectResponse : Bool} :
    Loose browser (system.post browser .reset expectResponse).1 ∧
      ∀ thread ∈ (system.post browser .reset expectResponse).1.supervisor.worker, Cleared thread := by
  cases hw : system.supervisor.worker with
  | none =>
    rw [post_idle hw]
    refine ⟨h, fun thread ht => ?_⟩
    rw [show (system, false).1.supervisor.worker = none from hw] at ht
    cases ht
  | some thread =>
    have hr := hs.is_running hw
    rcases post_cases browser .reset expectResponse hr with ⟨_, hp⟩ | ⟨_, hf⟩
    · refine ⟨⟨?_, ?_, ?_⟩, ?_⟩
      · rw [hp.log]
        exact h.omitted
      · rw [hp.main]
        exact h.distinct
      · rw [hp.worker]
        intro pushed hm
        cases hm
        exact (h.tended thread hw).push
      · rw [hp.worker]
        intro pushed hm
        cases hm
        exact Cleared.push_reset
    · have ha := h.failed hr hf
      refine ⟨ha.toLoose, ?_⟩
      rcases hf with hh | hr'
      · rw [hh.worker]
        exact fun _ ht => by cases ht
      rw [hr'.worker]
      intro thread ht
      cases ht
      exact cleared_fresh

theorem Agreed.post_reset (ha : Agreed browser system) (hs : Ordered system) {expectResponse : Bool} :
    Agreed browser (system.post browser .reset expectResponse).1 := by
  obtain ⟨hloose, hcleared⟩ := @Loose.post_reset M browser system ha.toLoose hs expectResponse
  cases hw : system.supervisor.worker with
  | none =>
    rw [post_idle hw]
    exact ha
  | some thread =>
    have hr := hs.is_running hw
    rcases post_cases browser .reset expectResponse hr with ⟨_, hp⟩ | ⟨_, hf⟩
    · refine ⟨hloose, ?_, fun _ => hcleared, ?_⟩
      · rw [hp.main, hp.worker]
        intro hfull pushed hm
        cases hm
        have htrust := ha.trusting hfull thread hw
        refine ⟨fun newest older heq => ?_, htrust.older, htrust.response⟩
        have := (htrust.newest newest older heq).push_reset
        rw [append_assoc] at this
        exact this
      · rw [hp.main, hp.worker]
        intro hfull hin pushed hm
        cases hm
        exact ha.settled hfull hin thread hw
    · exact ha.toLoose.failed hr hf

theorem rebase_frame {main : PreviewRenderer} : main.rebase.children = main.children ∧ main.rebase.idle = main.idle ∧
    main.rebase.inFlight = main.inFlight := by
  unfold PreviewRenderer.rebase
  split <;> exact ⟨rfl, rfl, rfl⟩

theorem Trusting.ask (request : RenderRequest) {main next : PreviewRenderer} {thread : WorkerThread M}
    {sanitize : JsString → JsString} (hquiet : thread.outbox = [] ∧ ∀ r ∈ thread.requests, r = .reset)
    (hchildren : next.children = main.children) (hidle : next.idle = main.idle)
    (htrust : main.queuedFull = none → Trusting sanitize main thread)
    (hcleared : main.queuedFull ≠ none → Cleared thread) :
    Trusting sanitize next { thread with inbox := thread.inbox ++ [request] } where
  newest newest older heq hhead hcache := by
    have hresets : ∀ r ∈ newest.queue ++ thread.inbox, r = .reset := by
      intro r hr
      refine hquiet.2 r ?_
      unfold WorkerThread.requests
      rw [show thread.instances = newest :: older from heq, flatMap_cons, append_assoc]
      rcases mem_append.mp hr with hr | hr
      · exact mem_append_left _ hr
      · exact mem_append_right _ (mem_append_right _ hr)
    have hempty : newest.queue ++ thread.inbox = [] := by
      cases hmessages : newest.queue ++ thread.inbox with
      | nil => rfl
      | cons first rest =>
        have hfirst : first = .reset := hresets first (by rw [hmessages]; exact mem_cons_self)
        refine absurd ?_ hhead
        simp only
        rw [← append_assoc, hmessages, hfirst]
        rfl
    by_cases hfull : main.queuedFull = none
    · have hshown := (htrust hfull).newest newest older heq (by rw [hempty]; exact fun hn => by cases hn) hcache
      simp only
      rw [hquiet.1] at hshown ⊢
      simp only [Displays, hchildren, hidle] at hshown ⊢
      exact hshown
    · rcases hcleared hfull newest older heq with hlast | ⟨_, hnone⟩
      · rw [hempty] at hlast
        cases hlast
      · exact absurd hnone hcache
  older newest older heq old hold hreq := by
    obtain ⟨r, hr, hne⟩ := hreq
    refine absurd (hquiet.2 r ?_) hne
    unfold WorkerThread.requests
    rw [show thread.instances = newest :: older from heq]
    exact mem_append_left _ (mem_flatMap.mpr ⟨old, mem_cons_of_mem _ hold, hr⟩)
  response seq generation blocks hm := by
    rw [show ({ thread with inbox := thread.inbox ++ [request] } : WorkerThread M).outbox = [] from hquiet.1] at hm
    cases hm

theorem Agreed.pump (ha : Agreed browser system) (h : Synced system) : Agreed browser (system.pump browser) := by
  unfold PreviewSystem.pump
  split
  · exact ha
  rename_i hready
  simp only
  split
  · rename_i hnone
    rw [pump_nothing hnone]
    exact ha
  rename_i next request hnext
  have hasks := nextRequest_asks hnext
  have hordered := h.rebase.toOrdered.asking hasks
  have hloose : Loose browser { system with main := next } := by
    refine ⟨ha.omitted, ?_, ha.tended⟩
    simp only [hasks.children, rebase_frame.1]
    exact ha.distinct
  cases hw : system.supervisor.worker with
  | none =>
    have hnone : ({ system with main := next } : PreviewSystem M).supervisor.worker = none := hw
    rw [post_idle hnone]
    simp only [hasks.inFlight, if_true]
    exact Loose.idle hloose.omitted hloose.distinct hw
  | some thread =>
    have hr : Running { system with main := next } thread := hordered.is_running hw
    obtain ⟨basis, _, hl⟩ := h.based
    have hin : system.main.inFlight = none := by
      cases hf : system.main.inFlight with
      | none => rfl
      | some n => exact absurd (Or.inl (by rw [hf]; rfl)) hready
    have hlink := hl thread hw
    rw [hin] at hlink
    have htrusting := Trusting.ask request hlink.quiet (hasks.children.trans rebase_frame.1)
      (hasks.idle.trans rebase_frame.2.1) (fun hfull => ha.trusting hfull thread hw)
      fun hfull => ha.cleared hfull thread hw
    have hc := post_cases browser request true hr
    cases hp : PreviewSystem.post browser { system with main := next } request true with
    | mk after sent =>
      rw [hp] at hc
      rcases hc with ⟨hsent, hpush⟩ | ⟨hsent, hf⟩
      · simp only at hsent hpush
        subst hsent
        refine ⟨⟨?_, ?_, ?_⟩, ?_, ?_, ?_⟩
        · simp only [hpush.log]
          intro key html shown hm
          rcases mem_cons.mp hm with hm | hm
          · cases hm
          · exact ha.omitted key html shown hm
        · simp only [hpush.main]
          exact hloose.distinct
        · simp only [hpush.worker]
          intro pushed hm
          cases hm
          exact (ha.tended thread hw).push
        · simp only [hpush.main, hpush.worker]
          intro _ pushed hm
          cases hm
          exact htrusting
        · simp only [hpush.main]
          exact fun hfull => absurd hasks.queuedFull hfull
        · simp only [hpush.main, hasks.inFlight]
          exact fun _ hn => by cases hn
      · simp only at hsent hf
        subst hsent
        simp only [inFlight_failed hr hf, reduceCtorEq, if_false]
        exact hloose.failed hr hf

/-! ## What the main thread does -/

theorem Trusting.queueEdits {sanitize : JsString → JsString} {main : PreviewRenderer} {thread : WorkerThread M}
    {edits : List TextEdit} {sourceText : JsString} (h : Trusting sanitize main thread)
    (he : applyTextEdits main.sourceText edits = some sourceText) :
    Trusting sanitize (main.queueEdits edits sourceText) thread where
  newest := h.newest
  older := h.older
  response seq generation blocks hm := by
    obtain ⟨worker, hw, hg, text, hb, hc⟩ := h.response seq generation blocks hm
    exact ⟨worker, hw, hg, text, hb.queueEdits he, hc⟩

section

variable (ha : Agreed browser system)
include ha

theorem Agreed.queueEdits {edits : List TextEdit} {sourceText : JsString}
    (he : applyTextEdits system.main.sourceText edits = some sourceText) :
    Agreed browser { system with main := system.main.queueEdits edits sourceText } where
  omitted := ha.omitted
  distinct := ha.distinct
  tended := ha.tended
  trusting hfull thread hw := (ha.trusting hfull thread hw).queueEdits he
  cleared := ha.cleared
  settled hfull hin thread hw := by
    rcases ha.settled hfull hin thread hw with hstart | ⟨worker, hm, hg, seq, text, hbase, hd⟩
    · exact .inl hstart
    · exact .inr ⟨worker, hm, hg, seq, text, hbase.queueEdits he, hd⟩

theorem Agreed.update (h : Synced system) {edits : List TextEdit} :
    Agreed browser (system.update browser edits) := by
  unfold PreviewSystem.update
  split
  · exact ha
  split
  · exact ha
  · rename_i he
    exact (ha.queueEdits he).pump (h.queueEdits he)

theorem Agreed.invalidate (h : Synced system) {text : JsString} :
    Agreed browser (system.invalidate browser text) := by
  unfold PreviewSystem.invalidate
  split
  · exact ha
  refine Agreed.pump ?_ h.clear
  unfold PreviewSystem.clear
  simp only
  have hordered : Ordered
      { system with main := { system.main with idle := none, sourceText := text, workerGeneration := none } } :=
    h.toOrdered.with_main rfl (fun _ hn => hn) (fun _ hg => (by cases hg)) rfl rfl fun _ hr => (by cases hr)
  have hloose : Loose browser
      { system with main := { system.main with idle := none, sourceText := text, workerGeneration := none } } :=
    ⟨ha.omitted, ha.distinct, ha.tended⟩
  obtain ⟨hposted, hcleared⟩ := @Loose.post_reset M browser _ hloose hordered false
  exact Loose.agreed ⟨hposted.omitted, nodup_nil, hposted.tended⟩ (fun hn => by cases hn) hcleared

theorem Agreed.runTask (h : Synced system) {task : PreviewTask}
    (ht : task = .terminal → system.supervisor.worker = none) : Agreed browser (system.runTask browser task) := by
  cases task with
  | recover =>
    unfold PreviewSystem.runTask
    simp only
    split
    · exact ha
    · exact (ha.post_reset h.toOrdered).pump h.post_reset
  | terminal =>
    unfold PreviewSystem.runTask PreviewRenderer.onWorkerTerminal
    simp only
    split
    · exact ha
    · exact Loose.idle ha.omitted (nodup_singleton _) (ht rfl)

theorem Agreed.microtask (h : Synced system) :
    Agreed browser (system.microtask browser) := by
  unfold PreviewSystem.microtask
  split
  · exact ha
  rename_i task microtasks hm
  have hpopped : Synced { system with microtasks } :=
    ⟨{ h.toOrdered with terminal := fun ht => h.terminal (by rw [hm]; exact mem_cons_of_mem _ ht) }, h.based⟩
  have hagreed : Agreed browser { system with microtasks } :=
    ⟨⟨ha.omitted, ha.distinct, ha.tended⟩, ha.trusting, ha.cleared, ha.settled⟩
  exact hagreed.runTask hpopped fun ht => (h.terminal (by rw [hm, ht]; exact mem_cons_self)).2

end

theorem Trusts.paint {sanitize : JsString → JsString} {main : PreviewRenderer} {remainder : Remainder}
    {outbox : List RenderResponse} {messages : List RenderRequest} {worker : MarkdownWorker M}
    (h : Trusts sanitize main outbox messages worker) (hidle : main.idle = some remainder) (hc : worker.Coherent) :
    Trusts sanitize (main.paint sanitize remainder) outbox messages worker := by
  intro hhead hcache
  have hshown := h hhead hcache
  split at hshown
  · exact hshown.paint hidle
  · exact hshown.paint hidle hc.distinct

theorem mem_modules {thread : WorkerThread M} {instance_ : ModuleInstance M} (h : instance_ ∈ thread.instances) :
    instance_.worker ∈ thread.modules := mem_map_of_mem h

theorem Trusting.paint {sanitize : JsString → JsString} {main : PreviewRenderer} {remainder : Remainder}
    {thread : WorkerThread M} (h : Trusting sanitize main thread) (hidle : main.idle = some remainder)
    (hc : ∀ worker ∈ thread.modules, worker.Coherent) : Trusting sanitize (main.paint sanitize remainder) thread where
  newest newest older heq :=
    (h.newest newest older heq).paint hidle (hc _ (mem_modules (heq ▸ mem_cons_self)))
  older newest older heq old hold hreq :=
    (h.older newest older heq old hold hreq).paint hidle
      (hc _ (mem_modules (heq ▸ mem_cons_of_mem _ hold)))
  response seq generation blocks hm := by
    obtain ⟨worker, hw, hg, text, hb, hcarries⟩ := h.response seq generation blocks hm
    exact ⟨worker, hw, hg, text, ⟨hb.full, hb.edits, hb.unedited⟩, hcarries.paint hidle⟩

theorem Agreed.paint (ha : Agreed browser system) : Agreed browser (system.paint browser) := by
  unfold PreviewSystem.paint
  split
  · exact ha
  rename_i remainder hidle
  split
  · exact ha
  have hbased : ∀ text, Based system.main text → Based (system.main.paint browser.sanitize remainder) text :=
    fun _ hb => ⟨hb.full, hb.edits, hb.unedited⟩
  refine ⟨⟨?_, patchRange_nodup ha.distinct, ha.tended⟩, fun hfull thread hw => ?_, ha.cleared,
    fun hfull hin thread hw => ?_⟩
  · intro key html shown hm
    rcases mem_cons.mp hm with hm | hm
    · cases hm
    · exact ha.omitted key html shown hm
  · exact (ha.trusting hfull thread hw).paint hidle (ha.tended thread hw).coherent
  · rcases ha.settled hfull hin thread hw with ⟨_, _, hnone⟩ | ⟨worker, hm, hg, seq, text, hb, hd⟩
    · rw [hidle] at hnone
      cases hnone
    · exact .inr ⟨worker, hm, hg, seq, text, hbased text hb, hd.paint hidle MarkdownWorker.freshResponse_nodup⟩

/-! ## The thread -/

theorem Agreed.with_thread {thread thread' : WorkerThread M} {generations : WorkerGeneration}
    (ha : Agreed browser system) (htended : Tended thread')
    (htrusting : system.main.queuedFull = none → Trusting browser.sanitize system.main thread')
    (hcleared : system.main.queuedFull ≠ none → Cleared thread')
    (hw : system.supervisor.worker = some thread) (hmodules : ∀ worker ∈ thread.modules, worker ∈ thread'.modules) :
    Agreed browser
      { system with supervisor := { system.supervisor with worker := some thread' }, generations := generations } where
  omitted := ha.omitted
  distinct := ha.distinct
  tended other ho := by
    cases Option.mem_some.mp ho
    exact htended
  trusting hfull other ho := by
    cases Option.mem_some.mp ho
    exact htrusting hfull
  cleared hfull other ho := by
    cases Option.mem_some.mp ho
    exact hcleared hfull
  settled hfull hin other ho := by
    cases Option.mem_some.mp ho
    rcases ha.settled hfull hin thread hw with hstart | ⟨worker, hm, hg, hshown⟩
    · exact .inl hstart
    · exact .inr ⟨worker, hmodules worker hm, hg, hshown⟩

theorem Agreed.receive (ha : Agreed browser system) : Agreed browser system.receive := by
  unfold PreviewSystem.receive
  split
  · exact ha
  rename_i thread hw
  split
  · rename_i request inbox newest older hin hinst
    have hmodules : WorkerThread.modules
        { thread with
          inbox
          instances := { newest with queue := newest.queue ++ [request] } :: older } = thread.modules := by
      unfold WorkerThread.modules
      simp only [hinst, map_cons]
    have hmessages : (newest.queue ++ [request]) ++ inbox = newest.queue ++ thread.inbox := by
      rw [hin, append_assoc, singleton_append]
    have htended := ha.tended thread hw
    refine ha.with_thread ⟨fun hn => (by cases hn), ?_, ?_⟩ (fun hfull => ⟨?_, ?_, ?_⟩) (fun hfull => ?_) hw
      fun worker hm => hmodules ▸ hm
    · rw [hmodules]
      exact htended.coherent
    · intro _ _ heq old hold hreq
      cases heq
      exact htended.older newest older hinst old hold hreq
    · intro _ _ heq
      cases heq
      simp only
      rw [hmessages]
      exact (ha.trusting hfull thread hw).newest newest older hinst
    · intro _ _ heq
      cases heq
      exact (ha.trusting hfull thread hw).older newest older hinst
    · rw [hmodules]
      exact (ha.trusting hfull thread hw).response
    · intro _ _ heq
      cases heq
      simp only
      rw [hmessages]
      exact ha.cleared hfull thread hw newest older hinst
  · exact ha

theorem Agreed.reevaluate (ha : Agreed browser system) (h : Synced system) : Agreed browser system.reevaluate := by
  unfold PreviewSystem.reevaluate
  split
  · exact ha
  rename_i thread hw
  obtain ⟨basis, _, hl⟩ := h.based
  have hlink := hl thread hw
  have htended := ha.tended thread hw
  refine ha.with_thread ⟨fun hn => (by cases hn), ?_, ?_⟩ (fun hfull => ⟨?_, ?_, ?_⟩) (fun hfull => ?_) hw
    fun worker hm => mem_cons_of_mem _ hm
  · intro worker hm
    rcases mem_cons.mp hm with rfl | hm
    · exact MarkdownWorker.coherent_empty rfl rfl
    · exact htended.coherent worker hm
  · intro _ _ heq _ _ _
    cases heq
    rfl
  · intro _ _ heq _ hcache
    cases heq
    exact absurd rfl hcache
  · intro _ older heq old hold hreq
    cases heq
    cases hinst : thread.instances with
    | nil =>
      rw [hinst] at hold
      cases hold
    | cons newest older =>
      have htrust := ha.trusting hfull thread hw
      rw [hinst] at hold
      rcases mem_cons.mp hold with rfl | hold
      · -- the request of the module that was the newest is the one in flight, so nothing was answered yet
        obtain ⟨request, hr, hne⟩ := hreq
        intro hhead hcache
        have hasked : request ∈ thread.requests := by
          unfold WorkerThread.requests
          rw [hinst]
          exact mem_append_left _ (mem_flatMap.mpr ⟨old, mem_cons_self, hr⟩)
        have hout := hlink.unanswered hasked hne
        have hshown := htrust.newest old older hinst (by
          cases hq : old.queue with
          | nil =>
            rw [hq] at hr
            cases hr
          | cons first rest =>
            rw [hq] at hhead
            exact hhead) hcache
        rw [hout] at hshown
        exact hshown
      · exact htrust.older newest older hinst old hold hreq
  · intro seq generation blocks hm
    obtain ⟨worker, hmem, hrest⟩ := (ha.trusting hfull thread hw).response seq generation blocks hm
    exact ⟨worker, mem_cons_of_mem _ hmem, hrest⟩
  · intro _ _ heq
    cases heq
    cases hinst : thread.instances with
    | nil => exact absurd hinst htended.nonempty
    | cons newest older =>
      cases hin : thread.inbox with
      | nil => exact .inr ⟨rfl, rfl⟩
      | cons first rest =>
        rcases ha.cleared hfull thread hw newest older hinst with hlast | ⟨hnil, _⟩
        · rw [hin, getLast?_append, getLast?_cons] at hlast
          refine .inl ?_
          rw [nil_append, getLast?_cons]
          exact hlast
        · rw [hin] at hnil
          exact absurd (append_eq_nil_iff.mp hnil).2 (cons_ne_nil _ _)

end

/-! ## A module at work -/

section
variable {M : Markdown}

def MarkdownWorker.accepts (worker : MarkdownWorker M) : RenderRequest → Option (Nat × JsString)
  | .render seq text => some (seq, text)
  | .patch patch =>
    match transitionPatch worker.lastText worker.generation patch with
    | .applied text => some (patch.seq, text)
    | .resync _ _ => none
  | .reset => none

/-- A pass finds the container as its module believes it, and is as good as a full one. `present` is what the
pass compares its blocks with. -/
structure Undisturbed (main : PreviewRenderer) (worker : MarkdownWorker M) (imports : Imports) (text : JsString) :
    Prop where
  painted : (worker.renderText imports text).1.present = [] ∨ main.idle = none ∧ main.queuedFull = none
  threw : main.queuedFull = none → (worker.renderText imports text).2 = none →
    (worker.renderText imports text).1.present = []
  faithful : main.queuedFull = none → worker.Faithful imports text

/-- The condition on a step: a module that renders is not disturbed. -/
def WorksUndisturbed (system : PreviewSystem M) : PreviewEvent → Prop
  | .work k imports => ∀ thread ∈ system.supervisor.worker, ∀ instance_ ∈ thread.instances[k]?,
    ∀ request ∈ instance_.queue.head?, ∀ seq text, instance_.worker.accepts request = some (seq, text) →
      Undisturbed system.main instance_.worker imports text
  | _ => True

inductive Works (worker : MarkdownWorker M) (imports : Imports) :
    RenderRequest → MarkdownWorker M → Option RenderResponse → Prop
  | reset : Works worker imports .reset worker.clearRenderCache none
  | resync {request : RenderRequest} {seq actualChars : Nat} {reason : ResyncReason} (hseq : request.seq? = some seq) :
    Works worker imports request worker (some (.resync seq worker.generation actualChars reason))
  | render {request : RenderRequest} {seq : Nat} {text : JsString} (hseq : request.seq? = some seq)
    (haccepts : worker.accepts request = some (seq, text)) :
    Works worker imports request (worker.respond imports seq text).1 (some (worker.respond imports seq text).2)

theorem processMessage_works (worker : MarkdownWorker M) (imports : Imports) (request : RenderRequest) :
    Works worker imports request (worker.processMessage imports request).1 (worker.processMessage imports request).2 := by
  cases request with
  | reset => exact .reset
  | render seq text => exact .render rfl rfl
  | patch patch =>
    unfold MarkdownWorker.processMessage
    simp only
    split
    · exact .resync rfl
    rename_i text ht
    refine .render rfl ?_
    unfold MarkdownWorker.accepts
    simp only [ht]

theorem accepts_based {log : List PreviewLog} {generations : WorkerGeneration} {inFlight : Option Nat}
    {believed : Option WorkerGeneration} {due : Option JsString} {thread : WorkerThread M}
    {worker : MarkdownWorker M} {request : RenderRequest} {seq : Nat} {text : JsString}
    (h : Linked log generations inFlight believed due thread) (hm : request ∈ thread.requests)
    (hw : worker ∈ thread.modules) (ha : worker.accepts request = some (seq, text)) : ∀ b ∈ due, text = b := by
  cases request with
  | reset => cases ha
  | render n t =>
    cases ha
    exact h.renders _ _ hm
  | patch patch =>
    unfold MarkdownWorker.accepts at ha
    simp only at ha
    split at ha
    · rename_i next ht
      cases ha
      exact (h.patched_posted hm hw ht).2
    · cases ha

theorem respond_carries {sanitize : JsString → JsString} {main : PreviewRenderer} {worker : MarkdownWorker M}
    {imports : Imports} {seq : Nat} {text : JsString} {generation : WorkerGeneration} {blocks : List BlockPatch}
    (hc : worker.Coherent) (hu : Undisturbed main worker imports text)
    (hshown : main.queuedFull = none → worker.cache ≠ [] → Displays sanitize main worker.cache)
    (hr : (worker.respond imports seq text).2 = .rendered seq generation blocks) :
    Carries sanitize main blocks (worker.answerPages imports seq text) := by
  have homits := MarkdownWorker.respond_omits hc hr
  have hpages := MarkdownWorker.respond_pages hc hr
  have hmem : ∀ block ∈ blocks, block.html = none → main.idle = none ∧ Displays sanitize main worker.cache := by
    intro block hb hnone
    obtain ⟨hpresent, html, hheld, _⟩ := homits block hb hnone
    rcases hu.painted with hempty | ⟨hidle, hfull⟩
    · exact absurd hempty hpresent
    · refine ⟨hidle, hshown hfull fun hcache => ?_⟩
      rw [hcache] at hheld
      cases hheld
  clear homits hr
  generalize worker.answerPages imports seq text = pages at hpages ⊢
  induction hpages with
  | nil => exact .nil
  | cons hb hrest ih =>
    refine .cons ?_ (ih fun block hm => hmem block (mem_cons_of_mem _ hm))
    rcases hb.2 with hhtml | ⟨hnone, hheld⟩
    · exact ⟨hb.1, .inl hhtml⟩
    · obtain ⟨hidle, hdisplays⟩ := hmem _ mem_cons_self hnone
      exact Carries.omitted hidle hdisplays hb.1 hnone hheld

end

section
open PreviewSystem
variable {M : Markdown} {browser : Browser} {system : PreviewSystem M}

theorem answerLog_shown {worker : MarkdownWorker M} {imports : Imports} {request : RenderRequest} {seq : Nat}
    {text : JsString} {key : BlockKey} {html : JsString} {shown : Option JsString} (hc : worker.Coherent)
    (hu : Undisturbed system.main worker imports text)
    (hshown : system.main.queuedFull = none → worker.cache ≠ [] → Displays browser.sanitize system.main worker.cache)
    (hm : .omitted key html shown ∈ system.answerLog worker (worker.respond imports seq text).1 request
      (some (worker.respond imports seq text).2)) : shown = some (browser.sanitize html) := by
  unfold PreviewSystem.answerLog at hm
  rcases mem_append.mp hm with hm | hm
  · obtain ⟨_, _, blocks, hr⟩ := worker.respond_spec imports seq text
    rw [hr] at hm
    obtain ⟨block, hb, heq⟩ := mem_map.mp hm
    obtain ⟨hmem, hnone⟩ := mem_filter.mp hb
    rw [Option.isNone_iff_eq_none] at hnone
    obtain ⟨hpresent, held, hheld, hafter⟩ := MarkdownWorker.respond_omits hc hr block hmem hnone
    cases heq
    rw [hafter, Option.getD_some]
    rcases hu.painted with hempty | ⟨hidle, hfull⟩
    · exact absurd hempty hpresent
    have hd := hshown hfull fun hcache => by rw [hcache] at hheld; cases hheld
    unfold Displays at hd
    rw [hidle] at hd
    exact (hd block.key).trans (by rw [hheld]; rfl)
  · cases request with
    | reset => cases hm
    | render _ _ => cases hm
    | patch patch =>
      simp only at hm
      split at hm
      · cases mem_singleton.mp hm
      · cases hm

theorem answerLog_resync {before after : MarkdownWorker M} {request : RenderRequest} {seq actualChars : Nat}
    {generation : WorkerGeneration} {reason : ResyncReason} {key : BlockKey} {html : JsString} {shown : Option JsString} :
    .omitted key html shown ∉
      system.answerLog before after request (some (.resync seq generation actualChars reason)) := by
  intro hm
  rcases answerLog_mem hm with ⟨_, _, _, _⟩ | ⟨_, _, _, heq, _⟩
  · unfold PreviewSystem.answerLog at hm
    rcases mem_append.mp hm with hm | hm
    · cases hm
    cases request with
    | reset => cases hm
    | render _ _ => cases hm
    | patch patch =>
      simp only at hm
      split at hm
      · cases mem_singleton.mp hm
      · cases hm
  · cases heq

theorem Replaced.to {thread thread' : WorkerThread M} {worker worker' : MarkdownWorker M}
    (h : Replaced thread thread' worker worker') {other : MarkdownWorker M} (hm : other ∈ thread.modules) :
    other ∈ thread'.modules ∨ other = worker ∧ worker' ∈ thread'.modules := by
  obtain ⟨before, behind, heq, heq'⟩ := h.modules
  rw [heq] at hm
  rw [heq']
  rcases mem_append.mp hm with hm | hm
  · exact .inl (mem_append_left _ hm)
  · rcases mem_cons.mp hm with rfl | hm
    · exact .inr ⟨rfl, mem_append_right _ mem_cons_self⟩
    · exact .inl (mem_append_right _ (mem_cons_of_mem _ hm))

theorem Replaced.from_ {thread thread' : WorkerThread M} {worker worker' : MarkdownWorker M}
    (h : Replaced thread thread' worker worker') {other : MarkdownWorker M} (hm : other ∈ thread'.modules) :
    other = worker' ∨ other ∈ thread.modules := by
  obtain ⟨before, behind, heq, heq'⟩ := h.modules
  rw [heq'] at hm
  rw [heq]
  rcases mem_append.mp hm with hm | hm
  · exact .inr (mem_append_left _ hm)
  · rcases mem_cons.mp hm with rfl | hm
    · exact .inl rfl
    · exact .inr (mem_append_right _ (mem_cons_of_mem _ hm))

theorem Replaced.fresh {thread thread' : WorkerThread M} {worker worker' : MarkdownWorker M}
    (h : Replaced thread thread' worker worker') (hmd : worker'.md = worker.md) {other : MarkdownWorker M}
    (hm : other ∈ thread.modules) : ∃ other' ∈ thread'.modules, other'.generation = other.generation ∧
      ∀ seq text, other'.freshResponse seq text = other.freshResponse seq text := by
  rcases h.to hm with hm | ⟨rfl, hm⟩
  · exact ⟨other, hm, rfl, fun _ _ => rfl⟩
  · exact ⟨worker', hm, h.generation, fun _ _ => MarkdownWorker.freshResponse_md hmd⟩

section
variable {thread : WorkerThread M} {instance_ : ModuleInstance M} {k : Nat} {worker' : MarkdownWorker M}
  {request : RenderRequest} {queue : List RenderRequest}

theorem work_place (hk : thread.instances[k]? = some instance_) (worker' : MarkdownWorker M)
    (queue : List RenderRequest) :
    (∃ older, thread.instances = instance_ :: older ∧ thread.instances.set k ⟨worker', queue⟩ = ⟨worker', queue⟩ :: older) ∨
      ∃ newest older, thread.instances = newest :: older ∧ instance_ ∈ older ∧
        ∃ older', thread.instances.set k ⟨worker', queue⟩ = newest :: older' ∧
          ∀ other ∈ older', other ∈ older ∨ other = ⟨worker', queue⟩ := by
  cases hinst : thread.instances with
  | nil =>
    rw [hinst] at hk
    cases hk
  | cons newest older =>
    rw [hinst] at hk
    cases k with
    | zero =>
      cases hk
      exact .inl ⟨older, rfl, rfl⟩
    | succ k =>
      refine .inr ⟨newest, older, rfl, mem_of_getElem? hk, older.set k ⟨worker', queue⟩, rfl, fun other hm => ?_⟩
      exact mem_or_eq_of_mem_set hm

theorem Trusting.at_work {sanitize : JsString → JsString} {main : PreviewRenderer} (h : Trusting sanitize main thread)
    (hk : thread.instances[k]? = some instance_) (hq : instance_.queue = request :: queue) (hne : request ≠ .reset)
    (hout : thread.outbox = []) (hcache : instance_.worker.cache ≠ []) :
    Displays sanitize main instance_.worker.cache := by
  rcases work_place hk instance_.worker queue with ⟨older, heq, _⟩ | ⟨newest, older, heq, hold, _⟩
  · have hshown := h.newest instance_ older heq (by rw [hq]; exact fun hr => hne (Option.some.inj hr)) hcache
    rw [hout] at hshown
    exact hshown
  · exact h.older newest older heq instance_ hold ⟨request, hq ▸ mem_cons_self, hne⟩
      (by rw [hq]; exact fun hr => hne (Option.some.inj hr)) hcache

theorem Tended.newest_empty {newest : ModuleInstance M} {older : List (ModuleInstance M)} (h : Tended thread)
    (heq : thread.instances = newest :: older) (hold : instance_ ∈ older) (hq : instance_.queue = request :: queue)
    (hne : request ≠ .reset) : newest.worker.cache = [] :=
  h.older newest older heq instance_ hold ⟨request, hq ▸ mem_cons_self, hne⟩

variable {outbox : List RenderResponse}

theorem Tended.reset (h : Tended thread) (hk : thread.instances[k]? = some instance_)
    (hq : instance_.queue = .reset :: queue)
    (hrep : Replaced thread { thread with instances := thread.instances.set k ⟨worker', queue⟩, outbox }
      instance_.worker worker') (hcache : worker'.cache = []) (hpresent : worker'.present = []) :
    Tended { thread with instances := thread.instances.set k ⟨worker', queue⟩, outbox } where
  nonempty hn := by
    rcases work_place hk worker' queue with ⟨_, _, heq⟩ | ⟨_, _, _, _, _, heq, _⟩
    · rw [heq] at hn
      cases hn
    · rw [heq] at hn
      cases hn
  coherent other hm := by
    rcases hrep.from_ hm with rfl | hm
    · exact MarkdownWorker.coherent_empty hcache hpresent
    · exact h.coherent other hm
  older newest older heq old hold hreq := by
    rcases work_place hk worker' queue with ⟨_, _, hset⟩ | ⟨_, _, hinst, hmem, _, hset, hfrom⟩
    · cases hset.symm.trans heq
      exact hcache
    cases hset.symm.trans heq
    rcases hfrom old hold with hold | rfl
    · exact h.older _ _ hinst old hold hreq
    · obtain ⟨r, hr, hne⟩ := hreq
      exact h.older _ _ hinst instance_ hmem ⟨r, hq ▸ mem_cons_of_mem _ hr, hne⟩

theorem Trusting.reset {sanitize : JsString → JsString} {main : PreviewRenderer} (h : Trusting sanitize main thread)
    (hk : thread.instances[k]? = some instance_)
    (hrep : Replaced thread { thread with instances := thread.instances.set k ⟨worker', queue⟩ }
      instance_.worker worker') (hcache : worker'.cache = []) (hmd : worker'.md = instance_.worker.md) :
    Trusting sanitize main { thread with instances := thread.instances.set k ⟨worker', queue⟩ } where
  newest newest older heq := by
    rcases work_place hk worker' queue with ⟨_, _, hset⟩ | ⟨_, _, hinst, _, _, hset, _⟩
    · cases hset.symm.trans heq
      exact fun _ hne => absurd hcache hne
    · cases hset.symm.trans heq
      exact h.newest _ _ hinst
  older newest older heq old hold hreq := by
    rcases work_place hk worker' queue with ⟨_, hinst, hset⟩ | ⟨_, _, hinst, _, _, hset, hfrom⟩
    · cases hset.symm.trans heq
      exact h.older _ _ hinst old hold hreq
    cases hset.symm.trans heq
    rcases hfrom old hold with hold | rfl
    · exact h.older _ _ hinst old hold hreq
    · exact fun _ hne => absurd hcache hne
  response seq generation blocks hm := by
    obtain ⟨other, hother, hg, text, hb, hc⟩ := h.response seq generation blocks hm
    obtain ⟨fresh, hfresh, hgen, hsame⟩ := hrep.fresh hmd hother
    exact ⟨fresh, hfresh, hgen.trans hg, text, hb, by rw [hsame]; exact hc⟩

theorem Cleared.reset (h : Cleared thread) (hk : thread.instances[k]? = some instance_)
    (hq : instance_.queue = .reset :: queue) (hcache : worker'.cache = []) :
    Cleared { thread with instances := thread.instances.set k ⟨worker', queue⟩, outbox } := by
  intro newest older heq
  rcases work_place hk worker' queue with ⟨older', hinst, hset⟩ | ⟨_, _, hinst, _, _, hset, _⟩
  · cases hset.symm.trans heq
    rcases h _ _ hinst with hlast | ⟨hnil, _⟩
    · rw [hq, cons_append, getLast?_cons] at hlast
      cases hrest : (queue ++ thread.inbox).getLast? with
      | none => exact .inr ⟨getLast?_eq_none_iff.mp hrest, hcache⟩
      | some last =>
        rw [hrest] at hlast
        exact .inl hlast
    · rw [hq] at hnil
      cases hnil
  · cases hset.symm.trans heq
    exact h _ _ hinst

theorem Cleared.answered (h : Cleared thread) (hk : thread.instances[k]? = some instance_)
    (hq : instance_.queue = request :: queue) (hne : request ≠ .reset) :
    Cleared { thread with instances := thread.instances.set k ⟨worker', queue⟩, outbox } := by
  intro newest older heq
  rcases work_place hk worker' queue with ⟨older', hinst, hset⟩ | ⟨_, _, hinst, _, _, hset, _⟩
  · cases hset.symm.trans heq
    rcases h _ _ hinst with hlast | ⟨hnil, _⟩
    · rw [hq, cons_append, getLast?_cons] at hlast
      cases hrest : (queue ++ thread.inbox).getLast? with
      | none =>
        rw [hrest] at hlast
        exact absurd (Option.some.inj hlast) hne
      | some last =>
        rw [hrest] at hlast
        exact .inl hlast
    · rw [hq] at hnil
      cases hnil
  · cases hset.symm.trans heq
    exact h _ _ hinst

theorem Tended.answered (h : Tended thread) (hk : thread.instances[k]? = some instance_)
    (hrep : Replaced thread { thread with instances := thread.instances.set k ⟨worker', queue⟩, outbox }
      instance_.worker worker') (hcoherent : worker'.Coherent)
    (hresets : ∀ r ∈ WorkerThread.requests
      { thread with instances := thread.instances.set k ⟨worker', queue⟩, outbox }, r = .reset) :
    Tended { thread with instances := thread.instances.set k ⟨worker', queue⟩, outbox } where
  nonempty hn := by
    rcases work_place hk worker' queue with ⟨_, _, heq⟩ | ⟨_, _, _, _, _, heq, _⟩
    · rw [heq] at hn
      cases hn
    · rw [heq] at hn
      cases hn
  coherent other hm := by
    rcases hrep.from_ hm with rfl | hm
    · exact hcoherent
    · exact h.coherent other hm
  older newest older heq old hold hreq := by
    obtain ⟨r, hr, hne⟩ := hreq
    refine absurd (hresets r (mem_append_left _ (mem_flatMap.mpr ⟨old, ?_, hr⟩))) hne
    rw [heq]
    exact mem_cons_of_mem _ hold

theorem Trusting.answer {sanitize : JsString → JsString} {main : PreviewRenderer} {response : RenderResponse}
    (hk : thread.instances[k]? = some instance_) (hq : instance_.queue = request :: queue) (hne : request ≠ .reset)
    (htended : Tended thread)
    (hresets : ∀ r ∈ WorkerThread.requests
      { thread with instances := thread.instances.set k ⟨worker', queue⟩, outbox := [response] }, r = .reset)
    (hown : worker'.cache ≠ [] → match response with
      | .rendered _ _ blocks => Carries sanitize main blocks worker'.cache
      | .resync _ _ _ _ => Displays sanitize main worker'.cache)
    (hfresh : ∀ seq generation blocks, response = .rendered seq generation blocks →
      ∃ worker ∈ WorkerThread.modules
          { thread with instances := thread.instances.set k ⟨worker', queue⟩, outbox := [response] },
        worker.generation = generation ∧ ∃ text, Based main text ∧ Carries sanitize main blocks (worker.freshResponse seq text)) :
    Trusting sanitize main
      { thread with instances := thread.instances.set k ⟨worker', queue⟩, outbox := [response] } where
  newest newest older heq _ hcache := by
    rcases work_place hk worker' queue with ⟨_, _, hset⟩ | ⟨_, _, hinst, hold, _, hset, _⟩
    · cases hset.symm.trans heq
      have := hown hcache
      cases response with
      | rendered _ _ _ => exact this
      | resync _ _ _ _ => exact this
    · cases hset.symm.trans heq
      exact absurd (htended.newest_empty hinst hold hq hne) hcache
  older newest older heq old hold hreq := by
    obtain ⟨r, hr, hne⟩ := hreq
    refine absurd (hresets r (mem_append_left _ (mem_flatMap.mpr ⟨old, ?_, hr⟩))) hne
    rw [heq]
    exact mem_cons_of_mem _ hold
  response seq generation blocks hm := hfresh seq generation blocks (mem_singleton.mp hm).symm

end

theorem Agreed.answer {thread : WorkerThread M} {instance_ : ModuleInstance M} {k : Nat} {request : RenderRequest}
    {queue : List RenderRequest} {imports : Imports} {seq : Nat} {text : JsString} (ha : Agreed browser system)
    (h : Synced system) (hw : system.supervisor.worker = some thread) (hk : thread.instances[k]? = some instance_)
    (hq : instance_.queue = request :: queue) (hseq : request.seq? = some seq)
    (haccepts : instance_.worker.accepts request = some (seq, text))
    (hu : Undisturbed system.main instance_.worker imports text)
    (hreq : thread.requests.Perm (request :: WorkerThread.requests
      { thread with
        instances := thread.instances.set k ⟨(instance_.worker.respond imports seq text).1, queue⟩
        outbox := [(instance_.worker.respond imports seq text).2] }))
    (hrep : Replaced thread
      { thread with
        instances := thread.instances.set k ⟨(instance_.worker.respond imports seq text).1, queue⟩
        outbox := [(instance_.worker.respond imports seq text).2] }
      instance_.worker (instance_.worker.respond imports seq text).1) :
    system.main.queuedFull = none → Trusting browser.sanitize system.main
      { thread with
        instances := thread.instances.set k ⟨(instance_.worker.respond imports seq text).1, queue⟩
        outbox := [(instance_.worker.respond imports seq text).2] } := by
  intro hfull
  obtain ⟨basis, hb, hl⟩ := h.based
  have hlink := hl thread hw
  have hne : request ≠ .reset := fun heq => by rw [heq] at hseq; cases hseq
  obtain ⟨_, hout, hresets⟩ := hlink.answering hreq hseq
  have htrust := ha.trusting hfull thread hw
  have hcoherent := (ha.tended thread hw).coherent _ hrep.mem
  obtain ⟨_, _, blocks, hr⟩ := instance_.worker.respond_spec imports seq text
  have hcarries := respond_carries hcoherent hu
    (fun _ hcache => htrust.at_work hk hq hne hout hcache) hr
  refine Trusting.answer hk hq hne (ha.tended thread hw) hresets (fun hcache => ?_) fun n generation blocks' heq => ?_
  · rw [hr]
    rcases @MarkdownWorker.respond_cache M instance_.worker imports text seq with hpages | ⟨hthrew, hkept⟩
    · rw [hpages]
      exact hcarries
    have hpresent := hu.threw hfull hthrew
    have hc := (@MarkdownWorker.renderText_keepsCache M instance_.worker imports text).coherent hcoherent
    rw [hc.present, map_eq_nil_iff] at hpresent
    exact absurd (hkept.trans hpresent) hcache
  · rw [hr] at heq
    cases heq
    have hmem : (instance_.worker.respond imports seq text).1 ∈ WorkerThread.modules
        { thread with
          instances := thread.instances.set k ⟨(instance_.worker.respond imports seq text).1, queue⟩
          outbox := [(instance_.worker.respond imports seq text).2] } := by
      obtain ⟨_, _, _, heq'⟩ := hrep.modules
      rw [heq']
      exact mem_append_right _ mem_cons_self
    have htext : text = basis := by
      refine accepts_based hlink (hreq.mem_iff.mpr mem_cons_self) hrep.mem haccepts basis ?_
      unfold PreviewRenderer.due
      rw [hfull]
      rfl
    refine ⟨_, hmem, hrep.generation, text, htext ▸ hb, ?_⟩
    have hfresh := MarkdownWorker.renderText_fresh (hu.faithful hfull)
    have hpages : instance_.worker.answerPages imports seq text =
        (instance_.worker.respond imports seq text).1.freshResponse seq text := by
      unfold MarkdownWorker.answerPages MarkdownWorker.freshResponse
      rw [hfresh, MarkdownWorker.freshPages_md MarkdownWorker.respond_md]
    exact hpages ▸ hcarries

theorem Agreed.work (ha : Agreed browser system) (h : Synced system) {k : Nat} {imports : Imports}
    (hu : WorksUndisturbed system (.work k imports)) : Agreed browser (system.work k imports) := by
  unfold PreviewSystem.work
  split
  · exact ha
  rename_i thread hw
  split
  · exact ha
  rename_i instance_ hk
  split
  · exact ha
  rename_i request queue hq
  simp only
  obtain ⟨basis, _, hl⟩ := h.based
  have hlink := hl thread hw
  have htended := ha.tended thread hw
  obtain ⟨before, behind, hsplit, hset⟩ := set_split hk
  have hworks := processMessage_works instance_.worker imports request
  obtain ⟨hg, _⟩ := processMessage_processes instance_.worker imports request
  generalize (instance_.worker.processMessage imports request).1 = worker' at hworks hg ⊢
  generalize (instance_.worker.processMessage imports request).2 = response at hworks ⊢
  have hreq : ∀ outbox, thread.requests.Perm (request :: WorkerThread.requests
      { thread with instances := thread.instances.set k ⟨worker', queue⟩, outbox }) := by
    intro outbox
    unfold WorkerThread.requests
    simp only [hset]
    simp only [hsplit, flatMap_append, flatMap_cons, hq, append_assoc, cons_append]
    exact perm_middle
  have hrep : ∀ outbox, Replaced thread
      { thread with instances := thread.instances.set k ⟨worker', queue⟩, outbox } instance_.worker worker' := by
    intro outbox
    refine ⟨⟨before.map (·.worker), behind.map (·.worker), ?_, ?_⟩, hg⟩
    · simp only [WorkerThread.modules, hsplit, map_append, map_cons]
    · simp only [WorkerThread.modules, hset, map_append, map_cons]
  have hanswered : ∀ {n outbox}, request.seq? = some n → system.main.inFlight = some n ∧ thread.outbox = [] ∧
      ∀ r ∈ WorkerThread.requests
        { thread with instances := thread.instances.set k ⟨worker', queue⟩, outbox }, r = .reset :=
    fun hseq => hlink.answering (hreq _) hseq
  have hresult : ∀ outbox log, outbox = thread.outbox ++ response.toList →
      (∀ key html shown, .omitted key html shown ∈ log → shown = some (browser.sanitize html)) →
      Tended { thread with instances := thread.instances.set k ⟨worker', queue⟩, outbox } →
      (system.main.queuedFull = none → Trusting browser.sanitize system.main
        { thread with instances := thread.instances.set k ⟨worker', queue⟩, outbox }) →
      (system.main.queuedFull ≠ none →
        Cleared { thread with instances := thread.instances.set k ⟨worker', queue⟩, outbox }) →
      (system.main.inFlight = none → worker'.md = instance_.worker.md) →
      Agreed browser
        { system with
          supervisor :=
            { system.supervisor with
              worker := some { thread with
                instances := thread.instances.set k ⟨worker', queue⟩
                outbox := thread.outbox ++ response.toList } }
          log := log } := by
    rintro outbox log rfl hlog htended' htrusting hcleared hmd
    refine ⟨⟨hlog, ha.distinct, fun other ho => ?_⟩, fun hfull other ho => ?_, fun hfull other ho => ?_,
      fun hfull hin other ho => ?_⟩
    · cases Option.mem_some.mp ho
      exact htended'
    · cases Option.mem_some.mp ho
      exact htrusting hfull
    · cases Option.mem_some.mp ho
      exact hcleared hfull
    cases Option.mem_some.mp ho
    rcases ha.settled hfull hin thread hw with hstart | ⟨other, hm, hgen, seq, text, hb, hd⟩
    · exact .inl hstart
    · obtain ⟨fresh, hfresh, hsame, hpages⟩ := (hrep _).fresh (hmd hin) hm
      exact .inr ⟨fresh, hfresh, hsame ▸ hgen, seq, text, hb, hpages seq text ▸ hd⟩
  cases hworks with
  | reset =>
    refine hresult _ _ rfl ?_ (htended.reset hk hq (hrep _) rfl rfl) (fun hfull => ?_)
      (fun hfull => (ha.cleared hfull thread hw).reset hk hq rfl) fun _ => rfl
    · exact ha.omitted
    · have := (ha.trusting hfull thread hw).reset hk (hrep _) rfl rfl
      simp only [Option.toList, append_nil]
      exact this
  | resync hseq =>
    have hne : request ≠ .reset := fun heq => by rw [heq] at hseq; cases hseq
    have hout := (@hanswered _ [] hseq).2.1
    have hresets := fun outbox => (@hanswered _ outbox hseq).2.2
    refine hresult _ _ rfl ?_ (htended.answered hk (hrep _) (htended.coherent _ (hrep []).mem) (hresets _))
      (fun hfull => ?_) (fun hfull => (ha.cleared hfull thread hw).answered hk hq hne) fun hin => ?_
    · intro key html shown hm
      rcases mem_append.mp hm with hm | hm
      · exact absurd hm answerLog_resync
      · exact ha.omitted key html shown hm
    · rw [hout]
      refine Trusting.answer hk hq hne htended (hresets _) (fun hcache => ?_) fun _ _ _ heq => by cases heq
      exact (ha.trusting hfull thread hw).at_work hk hq hne hout hcache
    · rfl
  | render hseq haccepts =>
    rename_i seq text
    have hne : request ≠ .reset := fun heq => by rw [heq] at hseq; cases hseq
    have hout := (@hanswered _ [] hseq).2.1
    have hin := (@hanswered _ [] hseq).1
    have hresets := fun outbox => (@hanswered _ outbox hseq).2.2
    have hcoherent := htended.coherent _ (hrep []).mem
    have hu' := hu thread hw instance_ hk request (by rw [hq]; rfl) seq text haccepts
    refine hresult _ _ rfl ?_
      (htended.answered hk (hrep _) (MarkdownWorker.respond_coherent hcoherent) (hresets _))
      (fun hfull => ?_) (fun hfull => (ha.cleared hfull thread hw).answered hk hq hne) fun hnone => ?_
    · intro key html shown hm
      rcases mem_append.mp hm with hm | hm
      · exact answerLog_shown hcoherent hu' (fun hfull hcache =>
          (ha.trusting hfull thread hw).at_work hk hq hne hout hcache) hm
      · exact ha.omitted key html shown hm
    · rw [hout]
      exact ha.answer h hw hk hq hseq haccepts hu' (hreq _) (hrep _) hfull
    · rw [hin] at hnone
      cases hnone

/-! ## A response -/

section
variable {thread : WorkerThread M} {after : PreviewSystem M}

theorem Delivered.loose {response : RenderResponse} (hd : Delivered system after thread response)
    (ha : Loose browser system) (hw : system.supervisor.worker = some thread) : Loose browser after := by
  obtain ⟨⟨outbox, _, hsup⟩, _, hmain, hlog, _, _⟩ := hd
  refine ⟨hlog ▸ ha.omitted, hmain ▸ ha.distinct, ?_⟩
  rw [hsup]
  intro other hm
  cases Option.mem_some.mp hm
  have htended := ha.tended thread hw
  exact ⟨htended.nonempty, htended.coherent, htended.older⟩

theorem Agreed.resync {seq actualChars : Nat} {generation : WorkerGeneration} {reason : ResyncReason}
    (ha : Agreed browser system) (h : Synced system) (hw : system.supervisor.worker = some thread)
    (hd : Delivered system after thread (.resync seq generation actualChars reason)) :
    Agreed browser (after.resync browser generation) := by
  have hloose := hd.loose ha.toLoose hw
  have hordered := hd.ordered h.toOrdered hw
  obtain ⟨basis, _, hl⟩ := h.based
  obtain ⟨⟨outbox, ho, hsup⟩, hstop, hmain, hlog, hgen, _⟩ := hd
  have hg := (hl thread hw).answered _ (ho ▸ mem_cons_self)
  unfold PreviewSystem.resync
  simp only
  have hqueued : Loose browser
      { after with main :=
          { after.main with
            inFlight := none
            workerGeneration := some generation
            queuedEdits := none
            queuedFull := some after.main.sourceText } } := ⟨hloose.omitted, hloose.distinct, hloose.tended⟩
  have hordered' : Ordered
      { after with main :=
          { after.main with
            inFlight := none
            workerGeneration := some generation
            queuedEdits := none
            queuedFull := some after.main.sourceText } } := by
    refine hordered.with_main rfl (fun _ hn => (by cases hn)) (fun g hm => ?_) rfl rfl hordered.idle
    rw [← Option.mem_some.mp hm, hgen]
    exact hg
  obtain ⟨hposted, hcleared⟩ := @Loose.post_reset M browser _ hqueued hordered' false
  have hrun : Running _ { thread with outbox } := hordered'.is_running hsup
  rcases post_cases browser .reset false hrun with ⟨_, hp⟩ | ⟨_, hf⟩
  · refine hposted.agreed ?_ hcleared
    rw [hp.main]
    exact fun hn => by cases hn
  · exact hqueued.failed hrun hf

theorem Agreed.apply {seq : Nat} {generation : WorkerGeneration} {blocks : List BlockPatch} (ha : Agreed browser system)
    (h : Synced system) (hw : system.supervisor.worker = some thread)
    (hd : Delivered system after thread (.rendered seq generation blocks)) :
    Agreed browser (after.apply browser thread.id seq generation blocks) := by
  have hloose := hd.loose ha.toLoose hw
  obtain ⟨basis, _, hl⟩ := h.based
  have hlink := hl thread hw
  obtain ⟨⟨outbox, ho, hsup⟩, _, hmain, _, _, _⟩ := hd
  obtain ⟨_, rfl, hresets⟩ := hlink.delivered ho
  obtain ⟨children, idle, hpatch, _⟩ := patch_eq browser.sanitize
    { after.main with inFlight := none, workerGeneration := some generation } seq blocks
  have hqueued : (after.main.patch browser.sanitize seq blocks).queuedFull = after.main.queuedFull := by
    obtain ⟨_, _, heq, _⟩ := patch_eq browser.sanitize after.main seq blocks
    rw [heq]
  unfold PreviewSystem.apply
  simp only
  have hdisplays : ∀ {pages : List (BlockKey × JsString)}, Carries browser.sanitize system.main blocks pages →
      (pages.map (·.1)).Nodup → Displays browser.sanitize
        (({ after.main with inFlight := none, workerGeneration := some generation } : PreviewRenderer).patch
          browser.sanitize seq blocks) pages := by
    intro pages hc hnodup
    rw [hmain]
    have hc' : Carries browser.sanitize
        { system.main with inFlight := none, workerGeneration := some generation } blocks pages := hc
    exact Displays.patch hc' hnodup
  refine ⟨⟨?_, patch_nodup hloose.distinct, hloose.tended⟩, ?_, ?_, ?_⟩
  · intro key html shown hm
    rcases mem_cons.mp hm with hm | hm
    · cases hm
    · exact hloose.omitted key html shown hm
  · simp only [hpatch, hsup]
    rw [← hpatch]
    intro hfull other hm
    cases Option.mem_some.mp hm
    rw [hmain] at hfull
    have htrust := ha.trusting hfull thread hw
    refine ⟨fun newest older heq hhead hcache => ?_, fun newest older heq old hold hreq => ?_, fun _ _ _ hm => by cases hm⟩
    · have hcarries := htrust.newest newest older heq hhead hcache
      rw [ho] at hcarries
      exact hdisplays hcarries ((ha.tended thread hw).coherent _ (mem_modules (heq ▸ mem_cons_self))).distinct
    obtain ⟨r, hr, hne⟩ := hreq
    refine absurd (hresets r (mem_append_left _ (mem_flatMap.mpr ⟨old, ?_, hr⟩))) hne
    rw [show thread.instances = newest :: older from heq]
    exact mem_cons_of_mem _ hold
  · simp only [hpatch, hsup]
    intro hfull other hm
    cases Option.mem_some.mp hm
    rw [hmain] at hfull
    exact ha.cleared hfull thread hw
  · simp only [hpatch, hsup]
    rw [← hpatch]
    intro hfull _ other hm
    cases Option.mem_some.mp hm
    rw [hmain] at hfull
    obtain ⟨worker, hworker, hg, text, hb, hc⟩ :=
      (ha.trusting hfull thread hw).response seq generation blocks (ho ▸ mem_cons_self)
    refine .inr ⟨worker, hworker, ?_, seq, text, ?_, hdisplays hc MarkdownWorker.freshResponse_nodup⟩
    · rw [hpatch, hg]
    · rw [hpatch, hmain]
      exact ⟨hb.full, hb.edits, hb.unedited⟩

theorem Agreed.onRendered {response : RenderResponse} (ha : Agreed browser system) (h : Synced system)
    (hw : system.supervisor.worker = some thread) (hd : Delivered system after thread response) :
    Agreed browser (after.onRendered browser thread.id response) := by
  obtain ⟨basis, hb, hl⟩ := h.based
  obtain ⟨outbox, ho, _⟩ := hd.outbox
  have hin := ((hl thread hw).delivered ho).1
  have hacts := (h.toOrdered.is_running hw).acts
  unfold PreviewSystem.onRendered
  rw [hd.main, if_neg hacts, if_neg (not_not.mpr hin)]
  cases response with
  | resync seq generation actualChars reason => exact (ha.resync h hw hd).pump (h.resync hw hd)
  | rendered seq generation blocks => exact (ha.apply h hw hd).pump (h.apply hw hd)

end

theorem Agreed.messageRetired (ha : Agreed browser system) {worker : Nat} :
    Agreed browser (system.messageRetired worker) :=
  ⟨⟨ha.omitted, ha.distinct, ha.tended⟩, ha.trusting, ha.cleared, ha.settled⟩

theorem Agreed.message (ha : Agreed browser system) (h : Synced system) {worker : Nat} :
    Agreed browser (system.message browser worker) := by
  unfold PreviewSystem.message
  split
  · exact ha.messageRetired
  rename_i thread hw
  split
  · exact ha.messageRetired
  rename_i hid
  rw [not_not.mp hid |>.symm]
  split
  · exact ha
  rename_i response outbox ho
  have hrun := h.toOrdered.is_running hw
  unfold PreviewSystem.onMessage
  rw [if_neg fun hf => ?_]
  · exact ha.onRendered h hw ⟨⟨outbox, ho, rfl⟩, hrun.stopped, rfl, rfl, rfl, rfl⟩
  · rcases hf with hf | hf
    · exact Bool.false_ne_true (hrun.stopped.symm.trans hf)
    · exact hf rfl

theorem Agreed.destroy (ha : Agreed browser system) (h : Synced system) : Agreed browser system.destroy := by
  unfold PreviewSystem.destroy
  simp only
  split
  · rename_i hs
    refine Loose.idle ha.omitted ha.distinct ?_
    cases hw : system.supervisor.worker with
    | none => rfl
    | some thread => exact absurd hs (by rw [(h.toOrdered.is_running hw).stopped]; exact Bool.false_ne_true)
  · cases hw : system.supervisor.worker with
    | none => exact Loose.idle ha.omitted ha.distinct hw
    | some thread => exact Loose.idle ha.omitted ha.distinct rfl

theorem Agreed.step (ha : Agreed browser system) (h : Synced system) (event : PreviewEvent)
    (hu : WorksUndisturbed system event) : Agreed browser (system.step browser event) := by
  cases event with
  | update edits => exact ha.update h
  | invalidate text => exact ha.invalidate h
  | receive => exact ha.receive
  | reevaluate => exact ha.reevaluate h
  | work k imports => exact ha.work h hu
  | message worker => exact ha.message h
  | timeout =>
    unfold PreviewSystem.step PreviewSystem.timeout
    simp only
    split
    · split
      · exact ha.fail h
      · exact ha
    · exact ha
  | workerError worker => exact ha.fail h
  | microtask => exact ha.microtask h
  | idle => exact ha.paint
  | destroy => exact ha.destroy h

theorem agreed_start : Agreed browser (PreviewSystem.start M browser) := by
  unfold PreviewSystem.start PreviewSystem.spawn
  simp only
  cases browser.unspawnable 0 with
  | true => exact Loose.idle (fun _ _ _ hm => (by cases hm)) nodup_nil rfl
  | false =>
    have hthread : ∀ {P : WorkerThread M → Prop}, P (.fresh M 0 0) →
        ∀ thread ∈ some (WorkerThread.fresh M 0 0), P thread := by
      intro P hp thread ht
      rw [← Option.mem_some.mp ht]
      exact hp
    refine ⟨⟨fun key html shown hm => ?_, nodup_nil, hthread tended_fresh⟩, fun _ => hthread ⟨?_, ?_, ?_⟩,
      fun hn => absurd rfl hn, fun _ _ => hthread (Or.inl ⟨rfl, rfl, rfl⟩)⟩
    · cases mem_singleton.mp hm
    · intro newest older heq _ hc
      cases heq
      exact absurd rfl hc
    · intro newest older heq old hm
      cases heq
      cases hm
    · intro seq generation blocks hm
      cases hm

theorem run_agreed {events : List PreviewEvent}
    (hu : Transition.Along (PreviewSystem.step browser) WorksUndisturbed (PreviewSystem.start M browser) events) :
    Agreed browser (Transition.run (PreviewSystem.step browser) (PreviewSystem.start M browser) events) :=
  (Transition.run_inv (I := fun s => Agreed browser s ∧ Synced s)
    (fun _ event h hu => ⟨h.1.step h.2 event hu, h.2.step event⟩) ⟨agreed_start, synced_start⟩ hu).1

end

/-! ## At rest -/

/-- The worker runs, and nothing is asked, queued or left to paint. -/
structure Quiescent {M : Markdown} (system : PreviewSystem M) : Prop where
  worker : system.supervisor.worker ≠ none
  inFlight : system.main.inFlight = none
  queuedFull : system.main.queuedFull = none
  queuedEdits : system.main.queuedEdits = none
  idle : system.main.idle = none

theorem mem_iff_lookup {pages : List (BlockKey × JsString)} (hnodup : (pages.map (·.1)).Nodup) {key : BlockKey}
    {html : JsString} : (key, html) ∈ pages ↔ lookup pages key = some html := by
  constructor
  · intro hm
    exact lookup_of_mem hnodup hm
  intro h
  unfold lookup at h
  obtain ⟨page, hp, rfl⟩ := Option.map_eq_some_iff.mp h
  have hk := find?_some hp
  rw [beq_iff_eq] at hk
  rw [← hk]
  exact mem_of_find?_eq_some hp

theorem nodeHtml_eq_lookup {children : List PreviewNode} {key : BlockKey} :
    nodeHtml children key = lookup (children.map fun node => (node.key, node.html)) key := by
  unfold nodeHtml findNode lookup
  rw [find?_map, Option.map_map]
  rfl

theorem lookup_sanitized {sanitize : JsString → JsString} {pages : List (BlockKey × JsString)} {key : BlockKey} :
    lookup (pages.map fun page => (page.1, sanitize page.2)) key = (lookup pages key).map sanitize := by
  unfold lookup
  rw [find?_map, Option.map_map, Option.map_map]
  rfl

theorem Displays.perm {sanitize : JsString → JsString} {main : PreviewRenderer} {pages : List (BlockKey × JsString)}
    (h : Displays sanitize main pages) (hidle : main.idle = none) (hdistinct : (main.children.map (·.key)).Nodup)
    (hnodup : (pages.map (·.1)).Nodup) :
    (main.children.map fun node => (node.key, node.html)).Perm
      (pages.map fun page => (page.1, sanitize page.2)) := by
  have hchildren : ((main.children.map fun node => (node.key, node.html)).map (·.1)).Nodup := by
    rw [map_map]
    exact hdistinct
  have hpages : ((pages.map fun page => (page.1, sanitize page.2)).map (·.1)).Nodup := by
    rw [map_map]
    exact hnodup
  unfold Displays at h
  rw [hidle] at h
  refine (perm_ext_iff_of_nodup (List.Nodup.of_map _ hchildren) (List.Nodup.of_map _ hpages)).mpr ?_
  rintro ⟨key, html⟩
  rw [mem_iff_lookup hchildren, mem_iff_lookup hpages, ← nodeHtml_eq_lookup, lookup_sanitized, h key]

section
variable {M : Markdown} {browser : Browser}

/-- **What the worker omits, the container shows**, and a preview at rest shows what a full response for the text
would contain, along every run whose modules are not disturbed. -/
theorem preview_blocks_agree (events : List PreviewEvent)
    (hu : Transition.Along (PreviewSystem.step browser) WorksUndisturbed (PreviewSystem.start M browser) events) :
    let system := Transition.run (PreviewSystem.step browser) (PreviewSystem.start M browser) events
    (∀ key html shown, .omitted key html shown ∈ system.log → shown = some (browser.sanitize html)) ∧
      (Quiescent system →
        system.main.children = [] ∧ system.main.workerGeneration = none ∨
          ∃ thread ∈ system.supervisor.worker, ∃ worker ∈ thread.modules,
            system.main.workerGeneration = some worker.generation ∧
              ∃ seq, (system.main.children.map fun node => (node.key, node.html)).Perm
                ((worker.freshResponse seq system.main.sourceText).map fun page =>
                  (page.1, browser.sanitize page.2))) := by
  intro system
  have ha : Agreed browser system := run_agreed hu
  refine ⟨ha.omitted, fun hq => ?_⟩
  obtain ⟨thread, ht⟩ := Option.ne_none_iff_exists'.mp hq.worker
  rcases ha.settled hq.queuedFull hq.inFlight thread ht with ⟨hnone, hempty, _⟩ | ⟨worker, hm, hg, seq, text, hb, hd⟩
  · exact .inl ⟨hempty, hnone⟩
  · refine .inr ⟨thread, ht, worker, hm, hg, seq, ?_⟩
    rw [← hb.unedited hq.queuedEdits]
    exact hd.perm hq.idle ha.distinct MarkdownWorker.freshResponse_nodup

end

/-! ## A pass that fails between two others -/

section
open JsString

def plainBrowser : Browser := ⟨id, fun _ => false, fun _ => false⟩

def answered (imports : Imports) : List PreviewEvent := [.receive, .work 0 imports, .message 0]

def typed (at_ : Int) (text : String) : PreviewEvent := .update [⟨at_, at_, ofString text⟩]

/-- Two paragraphs are painted, then a dollar sign whose renderer cannot be imported replaces them by an error
node, then the sign is deleted. -/
def failedImport : List PreviewEvent :=
  typed 0 "a\n\nb" :: answered ⟨true, true⟩ ++ typed 4 "$" :: answered ⟨true, false⟩ ++
    .update [⟨4, 5, []⟩] :: answered ⟨true, true⟩

theorem failed_import_omits :
    ¬∀ key html shown,
      .omitted key html shown ∈ (Transition.run (PreviewSystem.step plainBrowser)
        (PreviewSystem.start calloutMarkdown plainBrowser) failedImport).log →
        shown = some (plainBrowser.sanitize html) := by
  intro h
  have hany : (Transition.run (PreviewSystem.step plainBrowser) (PreviewSystem.start calloutMarkdown plainBrowser)
      failedImport).log.any (fun | .omitted _ _ none => true | _ => false) = true := by decide +kernel
  obtain ⟨entry, hm, he⟩ := any_eq_true.mp hany
  cases entry with
  | omitted key html shown =>
    cases h key html shown hm
    cases he
  | _ => cases he

theorem undisturbed_start {M : Markdown} {main : PreviewRenderer} {generation : WorkerGeneration} {text : JsString} :
    Undisturbed main (MarkdownWorker.start M generation) ⟨true, true⟩ text := by
  have hpresent : ((MarkdownWorker.start M generation).renderText ⟨true, true⟩ text).1.present = [] := by
    rcases MarkdownWorker.renderText_keepsCache with ⟨_, hp⟩ | ⟨_, hp⟩ <;> exact hp
  have hloaded : ((MarkdownWorker.start M generation).loadRequestedFeatures ⟨true, true⟩ text).2 = true ∧
      ((MarkdownWorker.start M generation).loadRequestedFeatures ⟨true, true⟩ text).1.lastText = [] ∧
      ((MarkdownWorker.start M generation).loadRequestedFeatures ⟨true, true⟩ text).1.lastEnvSignature = none := by
    unfold MarkdownWorker.loadRequestedFeatures
    simp only [Bool.not_true, Bool.and_false, Bool.false_eq_true, if_false]
    split
    · exact ⟨rfl, rfl, rfl⟩
    · exact ⟨rfl, rfl, rfl⟩
  refine ⟨.inl hpresent, fun _ _ => hpresent, fun _ => ⟨hloaded.1, fun h => absurd hloaded.2.1 h.2.1, fun _ => ?_⟩⟩
  unfold MarkdownWorker.CacheAgrees
  split
  · trivial
  · intro hs
    rw [hloaded.2.2] at hs
    cases hs

def firstRender : List PreviewEvent := typed 0 "a\n\nb" :: answered ⟨true, true⟩ ++ [.idle]

theorem first_render_agrees :
    (Transition.run (PreviewSystem.step plainBrowser)
        (PreviewSystem.start calloutMarkdown plainBrowser) firstRender).main.children.length = 2 ∧
      ∀ key html shown, .omitted key html shown ∈ (Transition.run (PreviewSystem.step plainBrowser)
          (PreviewSystem.start calloutMarkdown plainBrowser) firstRender).log →
        shown = some (plainBrowser.sanitize html) := by
  refine ⟨by rfl, (preview_blocks_agree firstRender ⟨trivial, trivial, ?_, trivial, trivial, trivial⟩).1⟩
  have hw : (Transition.run (PreviewSystem.step plainBrowser) (PreviewSystem.start calloutMarkdown plainBrowser)
      [typed 0 "a\n\nb", .receive]).supervisor.worker =
      some ⟨0, [], [⟨MarkdownWorker.start calloutMarkdown 0, [.render 1 (ofString "a\n\nb")]⟩], []⟩ := by
    rfl
  intro thread ht instance_ hi request hr seq text ha
  change _ ∈ (Transition.run (PreviewSystem.step plainBrowser) (PreviewSystem.start calloutMarkdown plainBrowser)
      [typed 0 "a\n\nb", .receive]).supervisor.worker at ht
  rw [hw] at ht
  cases ht
  cases hi
  cases hr
  cases ha
  exact undisturbed_start

end

end Marks
