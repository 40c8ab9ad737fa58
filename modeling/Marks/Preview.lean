import Marks.MarkdownWorker
import Marks.Runs

/-! # The preview

The main thread's renderer, the supervisor of its worker, the worker's thread with the messages in flight, and
every order in which they take their steps. The children of the container are the nodes by key, so one list is
both. Listeners, statistics and the hydration of assets are left out. -/

namespace Marks

open JsString

/-! ## The container -/

structure PreviewNode where
  key : BlockKey
  html : JsString
  line : Nat
  sourceStart : Nat
  sourceEnd : Nat
  exactTextStart : Option Nat
deriving DecidableEq, Repr

def findNode (children : List PreviewNode) (key : BlockKey) : Option PreviewNode := children.find? (·.key == key)

def nextElementSibling (children : List PreviewNode) (key : BlockKey) : Option BlockKey :=
  match children.dropWhile (·.key != key) with
  | _ :: next :: _ => some next.key
  | _ => none

def insertBefore (children : List PreviewNode) (node : PreviewNode) (cursor : Option BlockKey) : List PreviewNode :=
  let others := children.filter (·.key != node.key)
  match cursor with
  | none => others ++ [node]
  | some key => others.takeWhile (·.key != key) ++ node :: others.dropWhile (·.key != key)

section
variable (sanitize : JsString → JsString)

/-- What the node of a block is after the block was patched. -/
def patchNode (children : List PreviewNode) (block : BlockPatch) : PreviewNode :=
  let html := match block.html, findNode children block.key with
    | some html, _ => sanitize html
    | none, some node => node.html
    | none, none => sanitize []
  ⟨block.key, html, block.line, block.sourceStart, block.sourceEnd, block.exactTextStart⟩

def patchBlock (state : List PreviewNode × Option BlockKey) (block : BlockPatch) :
    List PreviewNode × Option BlockKey :=
  let (children, cursor) := state
  let node := patchNode sanitize children block
  if (findNode children block.key).isSome ∧ cursor = some block.key then
    (children.map fun child => if child.key = block.key then node else child, nextElementSibling children block.key)
  else (insertBefore children node cursor, cursor)

def patchRange (children : List PreviewNode) (blocks : List BlockPatch) (start stop : Nat) (retire : Bool) :
    List PreviewNode :=
  let children := if retire then children.filter fun node => (blocks.map (·.key)).contains node.key else children
  let first := children.head?.map (·.key)
  let before :=
    if start = 0 then first
    else
      match blocks[start - 1]? with
      | some block => nextElementSibling children block.key
      | none => none
  (((blocks.take stop).drop start).foldl (patchBlock sanitize) (children, before.or first)).1

end

/-! ## The main thread -/

structure QueuedEdits where
  edits : List TextEdit
  baseChars : Nat
  chars : Nat
deriving DecidableEq, Repr

/-- The closure of `scheduleRemainder`, with the request its blocks answer. -/
structure Remainder where
  seq : Nat
  blocks : List BlockPatch
  offset : Nat
deriving DecidableEq, Repr

structure PreviewRenderer where
  children : List PreviewNode
  seq : Nat
  inFlight : Option Nat
  queuedFull : Option JsString
  queuedEdits : Option QueuedEdits
  sourceText : JsString
  workerGeneration : Option WorkerGeneration
  workerTerminal : Bool
  destroyed : Bool
  idle : Option Remainder
deriving DecidableEq, Repr

def firstPaintBlocks : Nat := 48
def idlePaintBlocks : Nat := 40

def terminalHtml : JsString :=
  ofString ("<div class=\"marks-callout marks-callout-danger\"><p>Preview stopped responding. " ++
    "Reload this page to try again.</p></div>")

namespace PreviewRenderer

def start : PreviewRenderer := ⟨[], 0, none, none, none, [], none, false, false, none⟩

variable (sanitize : JsString → JsString) (main : PreviewRenderer)

def patch (seq : Nat) (blocks : List BlockPatch) : PreviewRenderer :=
  if main.children = [] ∧ firstPaintBlocks < blocks.length then
    { main with
      children := patchRange sanitize main.children blocks 0 firstPaintBlocks false
      idle := some ⟨seq, blocks, firstPaintBlocks⟩ }
  else { main with children := patchRange sanitize main.children blocks 0 blocks.length true, idle := none }

/-- One call of `step`. -/
def paint (remainder : Remainder) : PreviewRenderer :=
  let stop := min (remainder.offset + idlePaintBlocks) remainder.blocks.length
  { main with
    children := patchRange sanitize main.children remainder.blocks remainder.offset stop
      (stop == remainder.blocks.length)
    idle := if stop < remainder.blocks.length then some { remainder with offset := stop } else none }

def onWorkerTerminal : PreviewRenderer :=
  if main.destroyed ∨ main.workerTerminal then main
  else
    { main with
      workerTerminal := true
      inFlight := none
      queuedEdits := none
      queuedFull := none
      idle := none
      children := [⟨.terminalError, sanitize terminalHtml, 0, 0, main.sourceText.length, none⟩] }

/-- Queue the edits, the source text with them already applied. -/
def queueEdits (edits : List TextEdit) (sourceText : JsString) : PreviewRenderer :=
  let queued := main.queuedEdits.getD ⟨[], main.sourceText.length, sourceText.length⟩
  { main with
    sourceText := sourceText
    queuedEdits := some { queued with edits := queued.edits ++ edits, chars := sourceText.length } }

/-- Without a delta base every queued edit is replaced by one full render. -/
def rebase : PreviewRenderer :=
  if main.queuedEdits.isSome ∧ main.workerGeneration = none then
    { main with queuedEdits := none, queuedFull := some main.sourceText }
  else main

/-- The request `pump` posts next, and the renderer with it in flight. -/
def nextRequest : Option (PreviewRenderer × RenderRequest) :=
  let seq := main.seq + 1
  match main.queuedFull, main.queuedEdits, main.workerGeneration with
  | some text, _, _ => some ({ main with seq, inFlight := some seq, queuedFull := none }, .render seq text)
  | none, some queued, some generation =>
    some ({ main with seq, inFlight := some seq, queuedEdits := none },
      .patch ⟨seq, queued.edits, generation, queued.baseChars, queued.chars⟩)
  | none, _, _ => none

end PreviewRenderer

/-! ## The worker's thread -/

structure ModuleInstance (M : Markdown) where
  worker : MarkdownWorker M
  queue : List RenderRequest

/-- The first instance receives the messages; the others finish what they received before the entry was
evaluated again. -/
structure WorkerThread (M : Markdown) where
  id : Nat
  inbox : List RenderRequest
  instances : List (ModuleInstance M)
  outbox : List RenderResponse

structure WorkerSupervisor (M : Markdown) where
  worker : Option (WorkerThread M)
  awaitingResponse : Bool
  failuresWithoutResponse : Nat
  stopped : Bool

def maxRecoveries : Nat := 1

inductive PreviewTask where
  | recover
  | terminal
deriving DecidableEq, Repr

inductive PreviewLog where
  | spawned (worker : Nat)
  | posted (seq : Nat) (sourceText : JsString)
  | patched (seq : Nat) (text : JsString)
  | omitted (key : BlockKey) (html : JsString) (shown : Option JsString)
  | applied (worker seq : Nat)
  | painted (seq : Nat)
deriving DecidableEq, Repr

/-- What the browser decides: the sanitizer's result, which calls of `postMessage` throw and which
constructions of a worker do. -/
structure Browser where
  sanitize : JsString → JsString
  rejects : Nat → Bool
  unspawnable : Nat → Bool

structure PreviewSystem (M : Markdown) where
  main : PreviewRenderer
  supervisor : WorkerSupervisor M
  retired : List (Nat × List RenderResponse)
  microtasks : List PreviewTask
  posts : Nat
  workers : Nat
  generations : WorkerGeneration
  log : List PreviewLog

inductive PreviewEvent where
  | update (edits : List TextEdit)
  | invalidate (text : JsString)
  | receive
  | reevaluate
  | work (instance_ : Nat) (imports : Imports)
  | message (worker : Nat)
  | timeout
  | workerError (worker : Nat)
  | microtask
  | idle
  | destroy
deriving DecidableEq, Repr

namespace PreviewSystem

variable {M : Markdown} (browser : Browser) (system : PreviewSystem M)

/-! ## The supervisor -/

/-- `none` when the constructor throws. -/
def spawn : PreviewSystem M × Bool :=
  if browser.unspawnable system.workers then ({ system with workers := system.workers + 1 }, false)
  else
    let thread := ⟨system.workers, [], [⟨MarkdownWorker.start M system.generations, []⟩], []⟩
    ({ system with
        supervisor := { system.supervisor with worker := some thread }
        workers := system.workers + 1
        generations := system.generations + 1
        log := .spawned system.workers :: system.log }, true)

def stop : PreviewSystem M :=
  { system with
    supervisor := { system.supervisor with stopped := true }
    main := system.main.onWorkerTerminal browser.sanitize }

def onWorkerRecovery : PreviewSystem M :=
  if system.main.destroyed ∨ system.main.workerTerminal then system
  else
    { system with
      main :=
        { system.main with
          inFlight := none
          workerGeneration := none
          queuedEdits := none
          queuedFull := some system.main.sourceText }
      microtasks := system.microtasks ++ [.recover] }

/-- `detachAndTerminate`: what the worker had already posted stays in flight. -/
def terminate (thread : WorkerThread M) : PreviewSystem M :=
  { system with
    supervisor := { system.supervisor with worker := none, awaitingResponse := false }
    retired := (thread.id, thread.outbox) :: system.retired }

def fail (worker : Nat) : PreviewSystem M :=
  match system.supervisor.worker with
  | none => system
  | some thread =>
    if system.supervisor.stopped ∨ thread.id ≠ worker then system
    else
      let system := system.terminate thread
      let failures := system.supervisor.failuresWithoutResponse + 1
      let system := { system with supervisor := { system.supervisor with failuresWithoutResponse := failures } }
      if maxRecoveries < failures then system.stop browser
      else
        match system.spawn browser with
        | (system, true) => system.onWorkerRecovery
        | (system, false) => system.stop browser

def post (message : RenderRequest) (expectResponse : Bool) : PreviewSystem M × Bool :=
  match system.supervisor.worker with
  | none => (system, false)
  | some thread =>
    if system.supervisor.stopped then (system, false)
    else
      let called := { system with posts := system.posts + 1 }
      if browser.rejects system.posts then (called.fail browser thread.id, false)
      else
        ({ called with
            supervisor :=
              { system.supervisor with
                worker := some { thread with inbox := thread.inbox ++ [message] }
                awaitingResponse := system.supervisor.awaitingResponse || expectResponse } }, true)

/-! ## The renderer -/

def pump : PreviewSystem M :=
  if system.main.inFlight.isSome ∨ system.main.destroyed ∨ system.main.workerTerminal then system
  else
    let main := system.main.rebase
    match main.nextRequest with
    | none => { system with main }
    | some (main, request) =>
      match ({ system with main } : PreviewSystem M).post browser request true with
      | (system, true) => { system with log := .posted main.seq main.sourceText :: system.log }
      | (system, false) =>
        if system.main.inFlight = some main.seq then { system with main := { system.main with inFlight := none } }
        else system

def update (edits : List TextEdit) : PreviewSystem M :=
  if system.main.destroyed ∨ system.main.workerTerminal ∨ edits = [] then system
  else
    match applyTextEdits system.main.sourceText edits with
    | none => system
    | some sourceText => ({ system with main := system.main.queueEdits edits sourceText } : PreviewSystem M).pump browser

/-- `invalidate` up to its `pump`. -/
def clear (text : JsString) : PreviewSystem M :=
  let main := { system.main with idle := none, sourceText := text, workerGeneration := none }
  let system := (({ system with main } : PreviewSystem M).post browser .reset false).1
  { system with main := { system.main with children := [], queuedEdits := none, queuedFull := some text } }

def invalidate (text : JsString) : PreviewSystem M :=
  if system.main.destroyed ∨ system.main.workerTerminal then system
  else (system.clear browser text).pump browser

/-- The answer to a resync, up to `pump`. -/
def resync (generation : WorkerGeneration) : PreviewSystem M :=
  let main :=
    { system.main with
      inFlight := none
      workerGeneration := some generation
      queuedEdits := none
      queuedFull := some system.main.sourceText }
  (({ system with main } : PreviewSystem M).post browser .reset false).1

/-- The response in the container, up to `pump`. -/
def apply (worker seq : Nat) (generation : WorkerGeneration) (blocks : List BlockPatch) : PreviewSystem M :=
  let main := { system.main with inFlight := none, workerGeneration := some generation }
  { system with main := main.patch browser.sanitize seq blocks, log := .applied worker seq :: system.log }

def onRendered (worker : Nat) (response : RenderResponse) : PreviewSystem M :=
  if system.main.destroyed ∨ system.main.workerTerminal then system
  else if system.main.inFlight ≠ some response.seq then
    ({ system with main := { system.main with inFlight := none } } : PreviewSystem M).pump browser
  else
    match response with
    | .resync _ generation _ _ => (system.resync browser generation).pump browser
    | .rendered seq generation blocks => (system.apply browser worker seq generation blocks).pump browser

def runTask : PreviewTask → PreviewSystem M
  | .recover =>
    if system.main.destroyed ∨ system.main.workerTerminal then system
    else (system.post browser .reset false).1.pump browser
  | .terminal => { system with main := system.main.onWorkerTerminal browser.sanitize }

def paint : PreviewSystem M :=
  match system.main.idle with
  | none => system
  | some remainder =>
    if system.main.destroyed then system
    else
      { system with
        main := system.main.paint browser.sanitize remainder
        log := .painted remainder.seq :: system.log }

def destroy : PreviewSystem M :=
  let system := { system with main := { system.main with destroyed := true, idle := none } }
  if system.supervisor.stopped then system
  else
    let system := match system.supervisor.worker with
      | some thread => system.terminate thread
      | none => system
    { system with supervisor := { system.supervisor with stopped := true, awaitingResponse := false } }

/-! ## The messages -/

/-- `worker.onmessage`. -/
def onMessage (worker : Nat) (response : RenderResponse) : PreviewSystem M :=
  if system.supervisor.stopped ∨ system.supervisor.worker.map (·.id) ≠ some worker then system
  else
    let supervisor := { system.supervisor with awaitingResponse := false, failuresWithoutResponse := 0 }
    ({ system with supervisor } : PreviewSystem M).onRendered browser worker response

def messageRetired (worker : Nat) : PreviewSystem M :=
  { system with
    retired := system.retired.map fun (id, outbox) => if id = worker then (id, outbox.tail) else (id, outbox) }

def message (worker : Nat) : PreviewSystem M :=
  match system.supervisor.worker with
  | none => system.messageRetired worker
  | some thread =>
    if thread.id ≠ worker then system.messageRetired worker
    else
      match thread.outbox with
      | [] => system
      | response :: outbox =>
        let supervisor := { system.supervisor with worker := some { thread with outbox } }
        ({ system with supervisor } : PreviewSystem M).onMessage browser worker response

/-- The port hands the next message to the module evaluated last. -/
def receive : PreviewSystem M :=
  match system.supervisor.worker with
  | none => system
  | some thread =>
    match thread.inbox, thread.instances with
    | request :: inbox, newest :: older =>
      let thread :=
        { thread with inbox, instances := { newest with queue := newest.queue ++ [request] } :: older }
      { system with supervisor := { system.supervisor with worker := some thread } }
    | _, _ => system

/-- The worker's entry is evaluated once more, behind the same port. -/
def reevaluate : PreviewSystem M :=
  match system.supervisor.worker with
  | none => system
  | some thread =>
    let fresh := ⟨MarkdownWorker.start M system.generations, []⟩
    { system with
      supervisor :=
        { system.supervisor with worker := some { thread with instances := fresh :: thread.instances } }
      generations := system.generations + 1 }

/-- The accepted delta and the omitted HTML of one answer, with what the container holds in its place. -/
def answerLog (before after : MarkdownWorker M) (request : RenderRequest) (response : Option RenderResponse) :
    List PreviewLog :=
  let patched := match request with
    | .patch patch =>
      match transitionPatch before.lastText before.generation patch with
      | .applied text => [.patched patch.seq text]
      | .resync _ _ => []
    | _ => []
  let omitted := match response with
    | some (.rendered _ _ blocks) =>
      (blocks.filter (·.html.isNone)).map fun block =>
        .omitted block.key ((MarkdownWorker.lookup after.cache block.key).getD [])
          ((findNode system.main.children block.key).map (·.html))
    | _ => []
  omitted ++ patched

/-- An instance processes its next message. -/
def work (k : Nat) (imports : Imports) : PreviewSystem M :=
  match system.supervisor.worker with
  | none => system
  | some thread =>
    match thread.instances[k]? with
    | none => system
    | some instance_ =>
      match instance_.queue with
      | [] => system
      | request :: queue =>
        let answer := instance_.worker.processMessage imports request
        let thread :=
          { thread with
            instances := thread.instances.set k ⟨answer.1, queue⟩
            outbox := thread.outbox ++ answer.2.toList }
        { system with
          supervisor := { system.supervisor with worker := some thread }
          log := system.answerLog instance_.worker answer.1 request answer.2 ++ system.log }

def timeout : PreviewSystem M :=
  match system.supervisor.worker with
  | some thread => if system.supervisor.awaitingResponse then system.fail browser thread.id else system
  | none => system

def microtask : PreviewSystem M :=
  match system.microtasks with
  | [] => system
  | task :: microtasks => ({ system with microtasks } : PreviewSystem M).runTask browser task

def step : PreviewEvent → PreviewSystem M
  | .update edits => system.update browser edits
  | .invalidate text => system.invalidate browser text
  | .receive => system.receive
  | .reevaluate => system.reevaluate
  | .work k imports => system.work k imports
  | .message worker => system.message browser worker
  | .timeout => system.timeout browser
  | .workerError worker => system.fail browser worker
  | .microtask => system.microtask browser
  | .idle => system.paint browser
  | .destroy => system.destroy

/-- The renderer right after its constructor. -/
def start (M : Markdown) (browser : Browser) : PreviewSystem M :=
  let system : PreviewSystem M := ⟨.start, ⟨none, false, 0, false⟩, [], [], 0, 0, 0, []⟩
  match system.spawn browser with
  | (system, true) => system
  | (system, false) =>
    { system with supervisor := { system.supervisor with stopped := true }, microtasks := [.terminal] }

end PreviewSystem

end Marks
