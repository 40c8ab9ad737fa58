import Marks.Blocks

/-! # The preview's worker

The module state of the Markdown worker and what one message does to it. A message is processed as a whole:
the serial dispatcher starts the next one only behind it. Headings and statistics of a response are left
out. -/

namespace Marks

open JsString

structure MarkdownFeatures where
  katex : Bool
  highlightCode : Bool
deriving DecidableEq, Repr

/-- markdown-it with the plugins of `createMarkdownIt`. A parse writes to its environment, also when it
throws; the environment shows its parts as JSON. -/
structure Markdown where
  Env : Type
  Payload : Type
  newEnv : Env
  parse : MarkdownFeatures → JsString → Env → Env × Option (List (Token Payload))
  render : MarkdownFeatures → List (Token Payload) → Env → Option JsString
  references : Env → JsString
  footnotes : Env → JsString
  abbreviations : Env → JsString
  headingId : Token Payload → JsString

structure BlockPatch where
  key : BlockKey
  line : Nat
  sourceStart : Nat
  sourceEnd : Nat
  exactTextStart : Option Nat
  html : Option JsString
deriving DecidableEq, Repr

abbrev WorkerGeneration := Nat

structure PatchRequest where
  seq : Nat
  edits : List TextEdit
  generation : WorkerGeneration
  baseChars : Nat
  chars : Nat
deriving DecidableEq, Repr

inductive RenderRequest where
  | render (seq : Nat) (text : JsString)
  | patch (request : PatchRequest)
  | reset
deriving DecidableEq, Repr

inductive ResyncReason where
  | generation
  | baseLength
  | resultLength
  | invalidEdit
deriving DecidableEq, Repr

inductive RenderResponse where
  | rendered (seq : Nat) (generation : WorkerGeneration) (blocks : List BlockPatch)
  | resync (seq : Nat) (generation : WorkerGeneration) (actualChars : Nat) (reason : ResyncReason)
deriving DecidableEq, Repr

def RenderResponse.seq : RenderResponse → Nat
  | .rendered seq _ _ => seq
  | .resync seq _ _ _ => seq

inductive PatchTransition where
  | applied (text : JsString)
  | resync (actualChars : Nat) (reason : ResyncReason)
deriving DecidableEq, Repr

/-- Apply a delta only when it names this exact worker state. -/
def transitionPatch (text : JsString) (generation : WorkerGeneration) (request : PatchRequest) :
    PatchTransition :=
  if request.generation ≠ generation then .resync text.length .generation
  else if request.baseChars ≠ text.length then .resync text.length .baseLength
  else
    match applyTextEdits text request.edits with
    | none => .resync text.length .invalidEdit
    | some next => if next.length ≠ request.chars then .resync text.length .resultLength else .applied next

def envSignature (M : Markdown) (env : M.Env) (tokens : List (Token M.Payload)) : List Nat :=
  let headingIds := List.intercalate [0]
    ((tokens.filter fun token => token.type == ofString "heading_open").map M.headingId)
  [M.references env, M.footnotes env, M.abbreviations env, headingIds].map hashString

/-- `MATH_HINT`: a dollar sign that no backslash precedes. -/
def mathHint : Option UInt16 → JsString → Bool
  | _, [] => false
  | previous, c :: rest => (c == 36 && previous != some 92) || mathHint (some c) rest

def highlightLanguages : List JsString :=
  ["bash", "sh", "zsh", "shell", "console", "c", "cpp", "csharp", "css", "diff", "dockerfile", "go", "graphql",
    "ini", "toml", "java", "javascript", "js", "mjs", "cjs", "node", "json", "kotlin", "lua", "markdown", "php",
    "python", "py", "ruby", "rust", "rs", "scss", "sql", "swift", "typescript", "ts", "tsx", "jsx", "xml", "html",
    "svg", "vue", "yaml", "yml"].map ofString

/-- The language a fence at this line start names, which may stand behind further line breaks. -/
def fenceLanguage (text : JsString) : Option JsString :=
  match isFence text with
  | none => none
  | some (c, n) =>
    match indented text with
    | none => none
    | some rest =>
      let info := (rest.drop n).dropWhile isSpace
      match info with
      | first :: more =>
        if isLetter first ∧ c ≠ first then
          some (first :: more.takeWhile fun c => isLetter c || isDigit c || c == 95 || c == 43 || c == 45)
        else none
      | [] => none

def lowercase (c : UInt16) : UInt16 := if 65 ≤ c ∧ c ≤ 90 then c + 32 else c

/-- Some line starts a fence whose language has a highlighter; `lineStart` says whether this one may. -/
def requestsSyntaxHighlight : Bool → JsString → Bool
  | _, [] => false
  | lineStart, c :: rest =>
    (lineStart && (fenceLanguage (c :: rest)).any fun language =>
      highlightLanguages.contains (language.map lowercase)) ||
      requestsSyntaxHighlight (isLineTerminator c) rest

/-- Only plain one-line paragraphs and headings map to their text one to one. -/
def exactMappingStart (source : Option JsString) (start : Nat) : Option Nat :=
  match source with
  | none => none
  | some source =>
    if source.contains newline then none
    else
      let marker := match headingRest source with
        | some rest =>
          let blanks := run (fun c => c == 32 || c == 9) rest
          if 0 < blanks then source.length - rest.length + blanks else 0
        | none => 0
      let body := source.drop marker
      let item := (body.dropWhile isSpace)
      let isItem := match item with
        | c :: next :: _ => ((c == 45 || c == 43 || c == 42) && isSpace next) ||
            (isDigit c && match item.drop (run isDigit item) with
              | mark :: next :: _ => (mark == 46 || mark == 41) && isSpace next
              | _ => false)
        | _ => false
      if body = [] ∨ (body.any fun c => (ofString "\\`*_~[]<>|!$&").contains c) = true ∨ isItem = true then none
      else some (start + marker)

/-- The module state. `highlighter` and `katexPlugin` are what was imported, `md` what the renderer was made
with. -/
structure MarkdownWorker (M : Markdown) where
  generation : WorkerGeneration
  md : MarkdownFeatures
  highlighter : Bool
  katexPlugin : Bool
  cache : List (BlockKey × JsString)
  present : List BlockKey
  lastEnvSignature : Option (List Nat)
  lastText : JsString
  lastEnv : M.Env

structure Imports where
  highlight : Bool
  katex : Bool
deriving DecidableEq, Repr

namespace MarkdownWorker

variable {M : Markdown}

def start (M : Markdown) (generation : WorkerGeneration) : MarkdownWorker M :=
  ⟨generation, ⟨false, false⟩, false, false, [], [], none, [], M.newEnv⟩

variable (worker : MarkdownWorker M)

def clearRenderCache : MarkdownWorker M :=
  { worker with cache := [], present := [], lastEnvSignature := none, lastText := [], lastEnv := M.newEnv }

/-- `loadRequestedFeatures`; `false` when an import failed. A failed second import leaves the first one
loaded and the renderer as it was. -/
def loadRequestedFeatures (imports : Imports) (text : JsString) : MarkdownWorker M × Bool :=
  let wantsHighlight := !worker.highlighter && requestsSyntaxHighlight true text
  if wantsHighlight && !imports.highlight then (worker, false)
  else
    let loaded := { worker with highlighter := worker.highlighter || wantsHighlight }
    let wantsKatex := !worker.katexPlugin && mathHint none text
    if wantsKatex && !imports.katex then (loaded, false)
    else
      let loaded := { loaded with katexPlugin := worker.katexPlugin || wantsKatex }
      if wantsHighlight || wantsKatex then
        ({ loaded with md := ⟨loaded.katexPlugin, loaded.highlighter⟩ }.clearRenderCache, true)
      else (worker, true)

/-- A block with its HTML, before it is decided whether the HTML is sent. -/
structure RenderedBlock where
  key : BlockKey
  line : Nat
  sourceStart : Nat
  sourceEnd : Nat
  exactTextStart : Option Nat
  html : JsString
  always : Bool
deriving DecidableEq, Repr

def RenderedBlock.patch (present : List BlockKey) (block : RenderedBlock) : BlockPatch :=
  ⟨block.key, block.line, block.sourceStart, block.sourceEnd, block.exactTextStart,
    if !present.contains block.key || block.always then some block.html else none⟩

def lookup (cache : List (BlockKey × JsString)) (key : BlockKey) : Option JsString :=
  (cache.find? (·.1 == key)).map (·.2)

def identity (group : TokenGroup M.Payload) : JsString :=
  group.source.getD (64 :: List.intercalate [44] (group.tokens.map (·.type)))

/-- The cached HTML of a group with a source, or what the renderer makes of it. -/
def htmlOf (features : MarkdownFeatures) (env : M.Env) (cache : List (BlockKey × JsString)) (key : BlockKey)
    (group : TokenGroup M.Payload) : Option JsString :=
  match lookup cache key with
  | some html => if group.source.isNone then M.render features group.tokens env else some html
  | none => M.render features group.tokens env

/-- The loop over the token groups of a full parse; `none` when the renderer throws. -/
def renderGroups (features : MarkdownFeatures) (env : M.Env) (cache : List (BlockKey × JsString))
    (offsets : List Nat) : List Nat → List (TokenGroup M.Payload) → Option (List RenderedBlock)
  | _, [] => some []
  | seen, group :: groups =>
    let base := hashString (identity group)
    let key := occurrenceKey seen base
    match htmlOf features env cache key group, renderGroups features env cache offsets (seen ++ [base]) groups with
    | some html, some blocks =>
      let line := group.line.getD 0
      let sourceStart := offsets.getD line 0
      some (⟨key, line, sourceStart, sourceStart + (group.source.getD []).length,
        exactMappingStart group.source sourceStart, html, group.source.isNone⟩ :: blocks)
    | _, _ => none

def finish (worker : MarkdownWorker M) (blocks : List RenderedBlock) : MarkdownWorker M :=
  { worker with cache := blocks.map fun block => (block.key, block.html), present := blocks.map (·.key) }

/-- The full pass of `render`. -/
def renderFull (text : JsString) : MarkdownWorker M × Option (List RenderedBlock) :=
  match M.parse worker.md text M.newEnv with
  | (_, none) => (worker, none)
  | (env, some tokens) =>
    let signature := envSignature M env tokens
    let worker := if worker.lastEnvSignature = some signature then worker
      else { worker with cache := [], present := [], lastEnvSignature := some signature }
    let worker := { worker with lastText := text, lastEnv := env }
    let lines := lines text
    match renderGroups worker.md env worker.cache (lineOffsets lines 0) [] (groupTokens tokens lines) with
    | none => (worker, none)
    | some blocks => (worker, some blocks)

/-- The parses of the dirty blocks, one environment through all of them. -/
def parseDirty (features : MarkdownFeatures) (dirty : List BlockKey) (cache : List (BlockKey × JsString)) :
    M.Env → List SourceBlock → M.Env × Option (List (BlockKey × List (Token M.Payload)))
  | env, [] => (env, some [])
  | env, block :: blocks =>
    if !dirty.contains block.key && (lookup cache block.key).isSome then parseDirty features dirty cache env blocks
    else
      match M.parse features block.source env with
      | (env, none) => (env, none)
      | (env, some tokens) =>
        let (env, parsed) := parseDirty features dirty cache env blocks
        (env, parsed.map ((block.key, tokens) :: ·))

/-- The loop over the source blocks of an incremental pass. -/
def renderBlocks (features : MarkdownFeatures) (dirty : List BlockKey) (cache : List (BlockKey × JsString))
    (parsed : List (BlockKey × List (Token M.Payload))) (env : M.Env) :
    List SourceBlock → Option (List RenderedBlock)
  | [] => some []
  | block :: blocks =>
    let kept := if dirty.contains block.key then none else lookup cache block.key
    let html := match kept with
      | some html => some html
      | none => (parsed.find? (·.1 == block.key)).bind fun entry => M.render features entry.2 env
    match html, renderBlocks features dirty cache parsed env blocks with
    | some html, some blocks =>
      some (⟨block.key, block.start, block.sourceStart, block.sourceEnd,
        exactMappingStart (some block.source) block.sourceStart, html, dirty.contains block.key⟩ :: blocks)
    | _, _ => none

def renderIncremental (text : JsString) (dirty : List BlockKey) : MarkdownWorker M × Option (List RenderedBlock) :=
  let blocks := splitSourceBlocks text
  match parseDirty worker.md dirty worker.cache worker.lastEnv blocks with
  | (env, none) => ({ worker with lastEnv := env }, none)
  | (env, some parsed) =>
    let worker := { worker with lastEnv := env }
    match renderBlocks worker.md dirty worker.cache parsed env blocks with
    | none => (worker, none)
    | some rendered => ({ worker with lastText := text }, some rendered)

/-- The blocks of a pass with the text accepted: HTML and all, or `none` when something threw. -/
def renderText (imports : Imports) (text : JsString) : MarkdownWorker M × Option (List RenderedBlock) :=
  match worker.loadRequestedFeatures imports text with
  | (worker, false) => (worker, none)
  | (worker, true) =>
    let incremental := incrementalParseSafe worker.lastText text
    if worker.lastText ≠ [] ∧ incremental.safe then worker.renderIncremental text (incremental.dirty.map (·.key))
    else worker.renderFull text

def errorHtml : JsString :=
  ofString "<div class=\"marks-callout marks-callout-danger\"><p>Preview failed to render.</p></div>"

def errorBlock (seq : Nat) (text : JsString) : BlockPatch :=
  ⟨.error seq, 0, 0, text.length, none, some errorHtml⟩

/-- `render` inside the handler's `try`: a throw keeps the accepted text. -/
def respond (imports : Imports) (seq : Nat) (text : JsString) : MarkdownWorker M × RenderResponse :=
  match worker.renderText imports text with
  | (worker, some blocks) =>
    (worker.finish blocks, .rendered seq worker.generation (blocks.map (RenderedBlock.patch worker.present)))
  | (worker, none) =>
    ({ worker with lastText := text }, .rendered seq worker.generation [errorBlock seq text])

def processMessage (imports : Imports) : RenderRequest → MarkdownWorker M × Option RenderResponse
  | .reset => (worker.clearRenderCache, none)
  | .render seq text =>
    let (worker, response) := worker.respond imports seq text
    (worker, some response)
  | .patch request =>
    match transitionPatch worker.lastText worker.generation request with
    | .resync actualChars reason => (worker, some (.resync request.seq worker.generation actualChars reason))
    | .applied text =>
      let (worker, response) := worker.respond imports request.seq text
      (worker, some response)

/-! ## What a message leaves of the module -/

section
variable {worker}

theorem loadRequestedFeatures_generation {imports : Imports} {text : JsString} :
    (worker.loadRequestedFeatures imports text).1.generation = worker.generation := by
  unfold loadRequestedFeatures
  simp only
  split
  · rfl
  · split
    · rfl
    · split <;> rfl

theorem renderFull_generation {text : JsString} : (worker.renderFull text).1.generation = worker.generation := by
  unfold renderFull
  split
  · rfl
  · simp only
    split <;> split <;> rfl

variable {blocks : List RenderedBlock}

theorem renderFull_lastText {text : JsString}
    (h : (worker.renderFull text).2 = some blocks) : (worker.renderFull text).1.lastText = text := by
  unfold renderFull at h ⊢
  split at h
  · cases h
  · simp only at h ⊢
    split <;> rfl

variable {dirty : List BlockKey}

theorem renderIncremental_generation {text : JsString} :
    (worker.renderIncremental text dirty).1.generation = worker.generation := by
  unfold renderIncremental
  simp only
  split
  · rfl
  · split <;> rfl

theorem renderIncremental_lastText {text : JsString}
    (h : (worker.renderIncremental text dirty).2 = some blocks) :
    (worker.renderIncremental text dirty).1.lastText = text := by
  unfold renderIncremental at h ⊢
  simp only at h ⊢
  split at h
  · cases h
  · split at h
    · cases h
    · rfl

theorem renderText_generation {imports : Imports} {text : JsString} :
    (worker.renderText imports text).1.generation = worker.generation := by
  have hload := @loadRequestedFeatures_generation M worker imports text
  unfold renderText
  split
  · rename_i hl
    rw [hl] at hload
    exact hload
  rename_i hl
  rw [hl] at hload
  simp only
  split
  · exact renderIncremental_generation.trans hload
  · exact renderFull_generation.trans hload

theorem renderText_lastText {imports : Imports} {text : JsString} {blocks : List RenderedBlock}
    (h : (worker.renderText imports text).2 = some blocks) : (worker.renderText imports text).1.lastText = text := by
  unfold renderText at h ⊢
  split at h
  · cases h
  simp only at h ⊢
  split at h
  · rename_i hi
    rw [if_pos hi]
    exact renderIncremental_lastText h
  · rename_i hi
    rw [if_neg hi]
    exact renderFull_lastText h

theorem respond_spec (worker : MarkdownWorker M) (imports : Imports) (seq : Nat) (text : JsString) :
    (worker.respond imports seq text).1.generation = worker.generation ∧
      (worker.respond imports seq text).1.lastText = text ∧
      ∃ blocks, (worker.respond imports seq text).2 = .rendered seq worker.generation blocks := by
  have hg := @renderText_generation M worker imports text
  unfold respond
  split
  · rename_i hr
    have ht := @renderText_lastText M worker imports text _ (congrArg Prod.snd hr)
    rw [hr] at hg ht
    exact ⟨hg, ht, _, by rw [← hg]⟩
  · rename_i hr
    rw [hr] at hg
    exact ⟨hg, rfl, _, by rw [← hg]⟩

end

end MarkdownWorker

end Marks
