import Marks.Json
import Marks.Runs

/-! # Hosted agent runs

One run of the hub: its journal of events, the slot of its pending tool call, its receipts, and the task, the
requests and the provider calls that take its lock in turn. Every section under the lock is a step; an emission,
a tool call, a cancellation and a late receipt lookup stand between their sections. -/

namespace Marks.Agent

abbrev Text := List Char

/-! ## Protocol -/

def maxAssistantOutputBytes : Nat := 64 * 1024
def maxToolResultBytes : Nat := 16 * 1024
def maxEvents : Nat := 512
def maxEventBytes : Nat := 128 * 1024
def maxRunEventBytes : Nat := 1024 * 1024
def maxToolCalls : Nat := 8

inductive RunStatus
  | queued
  | running
  | waitingForTool
  | completed
  | failed
  | cancelled
deriving DecidableEq, Repr

def RunStatus.isTerminal : RunStatus → Bool
  | completed | failed | cancelled => true
  | queued | running | waitingForTool => false

def RunStatus.name : RunStatus → String
  | queued => "queued"
  | running => "running"
  | waitingForTool => "waitingForTool"
  | completed => "completed"
  | failed => "failed"
  | cancelled => "cancelled"

inductive ToolResultStatus
  | succeeded
  | failed
  | cancelled
deriving DecidableEq, Repr

def ToolResultStatus.name : ToolResultStatus → String
  | succeeded => "succeeded"
  | failed => "failed"
  | cancelled => "cancelled"

inductive ToolEffect
  | read
  | write
  | destructive
deriving DecidableEq, Repr

def ToolEffect.name : ToolEffect → String
  | read => "read"
  | write => "write"
  | destructive => "destructive"

inductive ToolDurability
  | ephemeral
  | document
  | external
deriving DecidableEq, Repr

def ToolDurability.name : ToolDurability → String
  | ephemeral => "ephemeral"
  | document => "document"
  | external => "external"

structure AgentTool where
  commandId : Text
  name : Text
  effect : ToolEffect
  durability : ToolDurability
deriving DecidableEq, Repr

structure AgentUsage where
  inputTokens : Nat
  outputTokens : Nat
  totalTokens : Nat
deriving DecidableEq, Repr

def AgentUsage.default : AgentUsage := ⟨0, 0, 0⟩

structure ToolResultBody where
  requestId : Text
  callId : Text
  status : ToolResultStatus
  output : Json
deriving Repr

structure ProviderToolCall where
  callId : Text
  name : Text
  arguments : Json
deriving Repr

structure ProviderToolResult where
  status : ToolResultStatus
  outputJson : Text
deriving DecidableEq, Repr

inductive EventKind
  | runStarted
  | assistantDelta
  | toolCall
  | toolResultAccepted
  | runCompleted
  | runFailed
  | runCancelled
deriving DecidableEq, Repr

def EventKind.name : EventKind → String
  | runStarted => "run.started"
  | assistantDelta => "assistant.delta"
  | toolCall => "tool.call"
  | toolResultAccepted => "tool.result.accepted"
  | runCompleted => "run.completed"
  | runFailed => "run.failed"
  | runCancelled => "run.cancelled"

def EventKind.isTerminal : EventKind → Bool
  | runCompleted | runFailed | runCancelled => true
  | runStarted | assistantDelta | toolCall | toolResultAccepted => false

structure AgentEvent where
  sequence : Nat
  kind : EventKind
  data : Json
deriving Repr

inductive AgentError
  | badRequest
  | conflict
  | internal
deriving DecidableEq, Repr

/-! ## Event data -/

def jsonText (text : String) : Json := .string text.toList
def jsonNat (n : Nat) : Json := .number (Nat.toDigits 10 n)

def startedData (runId documentId : Text) (createdAtMs : Nat) : Json :=
  .object [("createdAtMs".toList, jsonNat createdAtMs), ("documentId".toList, .string documentId),
    ("runId".toList, .string runId), ("status".toList, jsonText RunStatus.running.name)]

def deltaData (text : Text) : Json := .object [("text".toList, .string text)]

def callData (call : ProviderToolCall) (tool : AgentTool) : Json :=
  .object [("arguments".toList, call.arguments), ("callId".toList, .string call.callId),
    ("commandId".toList, .string tool.commandId), ("durability".toList, jsonText tool.durability.name),
    ("effect".toList, jsonText tool.effect.name), ("name".toList, .string tool.name)]

def acceptedData (callId : Text) (status : ToolResultStatus) : Json :=
  .object [("callId".toList, .string callId), ("status".toList, jsonText status.name)]

def usageData (usage : AgentUsage) : Json :=
  .object [("inputTokens".toList, jsonNat usage.inputTokens), ("outputTokens".toList, jsonNat usage.outputTokens),
    ("totalTokens".toList, jsonNat usage.totalTokens)]

/-- The terminal event of a status; the whole output is written once more into a completion. -/
def terminalEvent (status : RunStatus) (code : Option Text) (usage : AgentUsage) (outputText : Text) :
    Option (EventKind × Json) :=
  match status with
  | .completed => some (.runCompleted, .object [("outputText".toList, .string outputText),
      ("status".toList, jsonText status.name), ("usage".toList, usageData usage)])
  | .failed => some (.runFailed, .object [("code".toList, .string (code.getD "providerError".toList)),
      ("status".toList, jsonText status.name)])
  | .cancelled => some (.runCancelled, .object [("status".toList, jsonText status.name)])
  | .queued | .running | .waitingForTool => none

/-! ## State -/

structure PendingTool where
  callId : Text
  result : Option ProviderToolResult
deriving DecidableEq, Repr

structure RunInner where
  status : RunStatus
  events : List AgentEvent
  eventBytes : Nat
  outputText : Text
  usage : AgentUsage
  pendingTool : Option PendingTool
deriving Repr

/-- The rows of the run: the one of `agent_runs` and those of `agent_events`. -/
structure StoredRun where
  status : RunStatus
  terminalCode : Option Text
  outputText : Option Text
  usage : AgentUsage
  events : List AgentEvent
deriving Repr

structure ToolReceipt where
  callId : Text
  requestId : Text
  requestHash : List UInt8
deriving DecidableEq, Repr

inductive TaskStage
  | spawned
  | transitioned
  | running
  | ended
deriving DecidableEq, Repr

inductive EmitStage
  | checked
  | appended
deriving DecidableEq, Repr

/-- Where a tool call of the provider stands. -/
inductive CallStage
  | checked
  | claimed
  | announcing
  | waiting
  | taken (result : ProviderToolResult)
deriving DecidableEq, Repr

structure CallInFlight where
  call : ProviderToolCall
  tool : AgentTool
  stage : CallStage
deriving Repr

inductive ProviderOutcome
  | completion (usage : AgentUsage)
  | error (code : Text)
  | timeout
deriving DecidableEq, Repr

inductive RunLog
  | finalized (status : RunStatus) (ok : Bool)
  | submitted (body : ToolResultBody) (answer : Except AgentError Bool) (pending : Option PendingTool)
  | handed (call : ProviderToolCall) (result : ProviderToolResult)
deriving Repr

structure RunState where
  id : Text
  documentId : Text
  createdAtMs : Nat
  tools : List AgentTool
  inner : RunInner
  stored : StoredRun
  receipts : List ToolReceipt
  cancel : Bool
  task : TaskStage
  toolCalls : Nat
  emits : List (Text × EmitStage)
  calls : List CallInFlight
  cancels : Nat
  lookups : List ToolResultBody
  log : List RunLog
deriving Repr

/-- A section of the task, of the provider's driver or of a request. -/
inductive RunEvent
  | spawn
  | start
  | finish (outcome : ProviderOutcome)
  | emitText (text : Text)
  | emitNext (i : Nat)
  | callTool (call : ProviderToolCall)
  | callNext (i : Nat)
  | callLeave (i : Nat)
  | submit (body : ToolResultBody)
  | lookup (i : Nat)
  | cancelRequest
  | cancelFinalize
deriving Repr

def asciiAlphanumeric (c : Char) : Bool :=
  ('a' ≤ c && c ≤ 'z') || ('A' ≤ c && c ≤ 'Z') || ('0' ≤ c && c ≤ '9')

def validateIdentifier (value : Text) (max : Nat) : Bool :=
  !value.isEmpty && decide (Json.utf8Bytes value ≤ max) &&
    value.all fun c => asciiAlphanumeric c || c == '-' || c == '_' || c == '.' || c == ':' || c == '/'

def validToolResult (body : ToolResultBody) : Bool :=
  validateIdentifier body.requestId 128 && validateIdentifier body.callId 128 &&
    decide (Json.utf8Bytes body.output.serialize ≤ maxToolResultBytes)

namespace RunState

section
variable (run : RunState)

/-! ## The journal -/

def transition (status : RunStatus) : Option RunState :=
  if run.inner.status.isTerminal then none
  else some { run with inner := { run.inner with status }, stored := { run.stored with status } }

def nextSequence : Nat := run.inner.events.getLast?.elim 1 (·.sequence + 1)

def fits (data : Json) : Bool :=
  decide (Json.utf8Bytes data.serialize ≤ maxEventBytes) && decide (run.inner.events.length < maxEvents) &&
    decide (run.inner.eventBytes + Json.utf8Bytes data.serialize ≤ maxRunEventBytes)

def appendEventLocked (kind : EventKind) (data : Json) : Option RunState :=
  if run.fits data then
    let event : AgentEvent := ⟨run.nextSequence, kind, data⟩
    some { run with
      inner := { run.inner with
        events := run.inner.events ++ [event]
        eventBytes := run.inner.eventBytes + Json.utf8Bytes data.serialize }
      stored := { run.stored with events := run.stored.events ++ [event] } }
  else none

def appendEvent (kind : EventKind) (data : Json) : Option RunState :=
  if run.inner.status.isTerminal then none else run.appendEventLocked kind data

def finalize (status : RunStatus) (code : Option Text) (usage : AgentUsage) : Option RunState :=
  if run.inner.status.isTerminal then some run
  else
    match terminalEvent status code usage run.inner.outputText with
    | none => none
    | some (kind, data) =>
      if run.fits data then
        let event : AgentEvent := ⟨run.nextSequence, kind, data⟩
        let output := if status = .completed then some run.inner.outputText else none
        some { run with
          inner := { run.inner with
            status
            usage
            pendingTool := none
            events := run.inner.events ++ [event]
            eventBytes := run.inner.eventBytes + Json.utf8Bytes data.serialize }
          stored := ⟨status, code, output, usage, run.stored.events ++ [event]⟩ }
      else none

/-- A caller that ignores what `finalize` returns. -/
def settle (status : RunStatus) (code : Option Text) (usage : AgentUsage) : RunState :=
  match run.finalize status code usage with
  | some settled => { settled with log := .finalized status true :: settled.log }
  | none => { run with log := .finalized status false :: run.log }

/-! ## The task -/

def internalError : Text := "internalError".toList

def spawn : RunState :=
  match run.task with
  | .spawned =>
    match run.transition .running with
    | some run => { run with task := .transitioned }
    | none => { run.settle .failed (some internalError) .default with task := .ended }
  | _ => run

def start : RunState :=
  match run.task with
  | .transitioned =>
    match run.appendEvent .runStarted (startedData run.id run.documentId run.createdAtMs) with
    | some run => { run with task := .running }
    | none => { run.settle .failed (some internalError) .default with task := .ended }
  | _ => run

/-- The outcome the task chooses: its status, code and usage. -/
def chosen : ProviderOutcome → RunStatus × Option Text × AgentUsage
  | .completion usage => (.completed, none, usage)
  | .error code =>
    if code = "cancelled".toList ∨ run.cancel then (.cancelled, none, .default) else (.failed, some code, .default)
  | .timeout => (.failed, some "runtimeLimit".toList, .default)

def finish (outcome : ProviderOutcome) : RunState :=
  match run.task with
  | .running =>
    let (status, code, usage) := run.chosen outcome
    let cancelled : RunState := { run with cancel := run.cancel || outcome == .timeout }
    { cancelled.settle status code usage with task := .ended }
  | _ => run

/-! ## The driver -/

def emitText (text : Text) : RunState :=
  if run.task = .spawned ∨ run.task = .transitioned ∨ text = [] ∨ run.cancel ∨
      maxAssistantOutputBytes < Json.utf8Bytes run.inner.outputText + Json.utf8Bytes text then run
  else { run with emits := run.emits ++ [(text, .checked)] }

def emitNext (i : Nat) : RunState :=
  match run.emits[i]? with
  | none => run
  | some (text, .checked) =>
    match run.appendEvent .assistantDelta (deltaData text) with
    | some run => { run with emits := run.emits.set i (text, .appended) }
    | none => { run with emits := run.emits.eraseIdx i }
  | some (text, .appended) =>
    { run with inner := { run.inner with outputText := run.inner.outputText ++ text }, emits := run.emits.eraseIdx i }

def callTool (call : ProviderToolCall) : RunState :=
  if run.task = .spawned ∨ run.task = .transitioned ∨ run.cancel then run
  else
    let counted : RunState := { run with toolCalls := run.toolCalls + 1 }
    if maxToolCalls < counted.toolCalls ∨ !validateIdentifier call.callId 128 then counted
    else
      match run.tools.find? (·.name == call.name) with
      | none => counted
      | some tool =>
        if maxToolResultBytes < Json.utf8Bytes call.arguments.serialize ∨ !call.arguments.isObject then counted
        else { counted with calls := counted.calls ++ [⟨call, tool, .checked⟩] }

def setStage (i : Nat) (flight : CallInFlight) (stage : CallStage) : RunState :=
  { run with calls := run.calls.set i { flight with stage } }

def dropCall (i : Nat) : RunState := { run with calls := run.calls.eraseIdx i }

def withPending (pendingTool : Option PendingTool) : RunState := { run with inner := { run.inner with pendingTool } }

/-- The next section of a tool call; a waiting one takes whatever result the slot holds. -/
def callNext (i : Nat) : RunState :=
  match run.calls[i]? with
  | none => run
  | some flight =>
    match flight.stage with
    | .checked =>
      if run.inner.pendingTool.isSome then run.dropCall i
      else (run.withPending (some ⟨flight.call.callId, none⟩)).setStage i flight .claimed
    | .claimed =>
      match run.transition .waitingForTool with
      | some run => run.setStage i flight .announcing
      | none => run.dropCall i
    | .announcing =>
      match run.appendEvent .toolCall (callData flight.call flight.tool) with
      | some run => run.setStage i flight .waiting
      | none => (run.withPending none).dropCall i
    | .waiting =>
      match run.inner.pendingTool.bind (·.result) with
      | some result => (run.withPending none).setStage i flight (.taken result)
      | none => run
    | .taken result =>
      match run.transition .running with
      | some run => { run.dropCall i with log := .handed flight.call result :: run.log }
      | none => run.dropCall i

/-- A waiting call that is cancelled, times out or is dropped with the provider leaves its slot as it is. -/
def callLeave (i : Nat) : RunState :=
  match run.calls[i]? with
  | some flight => if flight.stage = .waiting then run.dropCall i else run
  | none => run

end

/-! ## Tool results -/

section
variable (digest : ToolResultBody → List UInt8) (run : RunState)

def receiptsOf (body : ToolResultBody) : List ToolReceipt :=
  run.receipts.filter fun receipt => receipt.callId == body.callId || receipt.requestId == body.requestId

def receiptOf (body : ToolResultBody) : ToolReceipt := ⟨body.callId, body.requestId, digest body⟩

def lookupToolReceipt (body : ToolResultBody) : Except AgentError (Option Bool) :=
  if run.receiptsOf body = [] then .ok none
  else if run.receiptsOf body = [receiptOf digest body] then .ok (some true)
  else .error .conflict

def answer (body : ToolResultBody) (answer : Except AgentError Bool) : RunState :=
  { run with log := .submitted body answer run.inner.pendingTool :: run.log }

/-- The answer of a submission that finds no slot of its own open. -/
def answerReceipt (body : ToolResultBody) : RunState :=
  match run.lookupToolReceipt digest body with
  | .error error => run.answer body (.error error)
  | .ok none => run.answer body (.error .conflict)
  | .ok (some replayed) => run.answer body (.ok replayed)

def place (body : ToolResultBody) : RunState :=
  { run.withPending (some ⟨body.callId, some ⟨body.status, body.output.serialize⟩⟩) with
    receipts := run.receipts ++ [receiptOf digest body] }

/-- The answer is that of the event, and a refused event leaves the result in its slot. -/
def accept (body : ToolResultBody) : RunState :=
  match (run.place digest body).appendEventLocked .toolResultAccepted (acceptedData body.callId body.status) with
  | some accepted => accepted.answer body (.ok false)
  | none => (run.place digest body).answer body (.error .internal)

def submitToolResult (body : ToolResultBody) : RunState :=
  if !validToolResult body then run.answer body (.error .badRequest)
  else if run.inner.status ≠ .waitingForTool then run.answerReceipt digest body
  else
    match run.inner.pendingTool with
    | none => run.answerReceipt digest body
    | some pending =>
      if pending.callId ≠ body.callId then run.answer body (.error .conflict)
      else if pending.result.isSome then { run with lookups := run.lookups ++ [body] }
      else if run.receiptsOf body = [] then run.accept digest body
      else if run.receiptsOf body = [receiptOf digest body] then run.answer body (.ok true)
      else run.answer body (.error .conflict)

def lookup (i : Nat) : RunState :=
  match run.lookups[i]? with
  | none => run
  | some body => { run.answerReceipt digest body with lookups := run.lookups.eraseIdx i }

/-! ## Cancellation -/

def cancelRequest : RunState :=
  if run.inner.status.isTerminal then run else { run with cancel := true, cancels := run.cancels + 1 }

def cancelFinalize : RunState :=
  if run.cancels = 0 then run
  else { run.settle .cancelled none .default with cancels := run.cancels - 1 }

def step : RunEvent → RunState
  | .spawn => run.spawn
  | .start => run.start
  | .finish outcome => run.finish outcome
  | .emitText text => run.emitText text
  | .emitNext i => run.emitNext i
  | .callTool call => run.callTool call
  | .callNext i => run.callNext i
  | .callLeave i => run.callLeave i
  | .submit body => run.submitToolResult digest body
  | .lookup i => run.lookup digest i
  | .cancelRequest => run.cancelRequest
  | .cancelFinalize => run.cancelFinalize

end

def new (id documentId : Text) (createdAtMs : Nat) (tools : List AgentTool) : RunState where
  id := id
  documentId := documentId
  createdAtMs := createdAtMs
  tools := tools
  inner := ⟨.queued, [], 0, [], .default, none⟩
  stored := ⟨.queued, none, none, .default, []⟩
  receipts := []
  cancel := false
  task := .spawned
  toolCalls := 0
  emits := []
  calls := []
  cancels := 0
  lookups := []
  log := []

end RunState

end Marks.Agent
