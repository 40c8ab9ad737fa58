import Marks.Agent
import Marks.Commands
import Marks.Strings

/-! # Hosted tool calls in the browser

The record of a hosted run in the storage of a tab, and the components that consume the run: each event is
delivered, a tool call is stored before its command starts, and its receipt is stored before it is submitted. A
reload drops the components of a tab, a further tab starts from a copy of its storage, and a component that mounts
resumes from what its tab has stored. The log of the run, the command registry and the request ids are given. -/

namespace Marks.AgentPill

open Agent (ToolEffect ToolDurability ToolResultStatus)

/-! ## Stored runs -/

def maxCalls : Nat := 8
def maxDetailChars : Nat := 1024
def maxSafeInteger : Nat := 2 ^ 53 - 1

inductive CallState
  | executing
  | terminal
deriving DecidableEq, Repr

structure StoredHostedToolCall where
  callId : JsString
  requestId : JsString
  commandId : JsString
  state : CallState
  status : Option ToolResultStatus
  message : Option JsString
  error : Option JsString
deriving DecidableEq, Repr

/-- The cursor is the id of the last event, zero before the first. -/
structure ActiveHostedRunRecord where
  documentId : JsString
  runId : JsString
  requestId : JsString
  eventsUrl : JsString
  expiresAtMs : Nat
  lastEventId : Nat
  calls : List StoredHostedToolCall
deriving DecidableEq, Repr

def boundedId (value : JsString) : Bool := decide (0 < value.length) && decide (value.length ≤ 160)

def optionalBoundedString (value : Option JsString) : Bool := value.all fun text => decide (text.length ≤ maxDetailChars)

def validCall (call : StoredHostedToolCall) : Bool :=
  boundedId call.callId && boundedId call.requestId && boundedId call.commandId &&
    (call.state == .executing || call.status.isSome) &&
    optionalBoundedString call.message && optionalBoundedString call.error

def validateRecord (record : ActiveHostedRunRecord) (expectedDocumentId : JsString) : Bool :=
  record.documentId == expectedDocumentId && boundedId record.runId && boundedId record.requestId &&
    decide (record.eventsUrl.length ≤ 512) && decide (record.expiresAtMs ≤ maxSafeInteger) &&
    decide (record.calls.length ≤ maxCalls) && record.calls.all validCall

def readActiveHostedRun (documentId : JsString) (now : Nat) (storage : Option ActiveHostedRunRecord) :
    Option ActiveHostedRunRecord :=
  storage.filter fun record => validateRecord record documentId && decide (now < record.expiresAtMs)

/-- The record as it is stored: the last calls, with short details. -/
def writeActiveHostedRun (record : ActiveHostedRunRecord) : ActiveHostedRunRecord :=
  { record with
    calls := (record.calls.drop (record.calls.length - maxCalls)).map fun call =>
      { call with
        message := call.message.map (·.take maxDetailChars)
        error := call.error.map (·.take maxDetailChars) } }

/-! ## Events and the command contract -/

structure ToolCall where
  callId : JsString
  commandId : JsString
  name : JsString
  arguments : CommandInput
  effect : ToolEffect
  durability : ToolDurability
deriving DecidableEq, Repr

/-- An event as a component reads it; a terminal one is `run.completed`, `run.failed` or `run.cancelled`. -/
inductive HostedRunEvent
  | runStarted (runId documentId : JsString)
  | assistantDelta
  | toolCall (call : ToolCall)
  | toolResultAccepted
  | terminal
deriving DecidableEq, Repr

def HostedRunEvent.call : HostedRunEvent → Option ToolCall
  | toolCall call => some call
  | runStarted _ _ | assistantDelta | toolResultAccepted | terminal => none

structure HostedAgentToolResult where
  requestId : JsString
  callId : JsString
  status : ToolResultStatus
  commandId : JsString
  message : Option JsString
  error : Option JsString
deriving DecidableEq, Repr

structure AgentCommand where
  exposed : Bool
  risk : CommandRisk
deriving DecidableEq, Repr

def hostedConsequence : CommandRisk → ToolEffect × ToolDurability
  | .read => (.read, .ephemeral)
  | .destructive => (.destructive, .document)
  | .external => (.write, .external)
  | .write => (.write, .document)

/-- Each run of characters that are neither letters nor digits becomes one underscore. -/
def underscored : Bool → JsString → JsString
  | _, [] => []
  | inRun, c :: rest =>
    if JsString.isLetter c || JsString.isDigit c then c :: underscored false rest
    else if inRun then underscored true rest
    else 95 :: underscored true rest

def expectedName (commandId : JsString) : JsString := JsString.ofString "marks_" ++ underscored false commandId

def matchesContract (getCommand : JsString → Option AgentCommand) (call : ToolCall) : Bool :=
  match getCommand call.commandId with
  | none => false
  | some definition =>
    definition.exposed && call.name == expectedName call.commandId &&
      (call.effect, call.durability) == hostedConsequence definition.risk

def outcomeUnknown : JsString := JsString.ofString
  "The browser reloaded before the command receipt was recorded; outcome unknown and not replayed."

def contractMismatch : JsString := JsString.ofString
  "The proposed tool did not match the registered Marks command contract."

/-! ## Components -/

/-- What a component awaits: an event, the receipt of a command, or the answer to a submission. -/
inductive Stage
  | reading
  | running (call : StoredHostedToolCall) (seq : Nat)
  | submitting (call : StoredHostedToolCall) (seq : Nat)
  | ended
deriving DecidableEq, Repr

/-- A component that consumes the run, with the record it started from and its own copy of it. -/
structure Pill where
  record : ActiveHostedRunRecord
  storedRun : Option ActiveHostedRunRecord
  after : Nat
  stage : Stage
  aborted : Bool
deriving DecidableEq, Repr

/-- A component at work: its tab's storage, what any tab saved last, and what has been launched and submitted. -/
structure View where
  pill : Pill
  storage : Option ActiveHostedRunRecord
  saved : Option ActiveHostedRunRecord
  launches : List ToolCall
  submissions : List HostedAgentToolResult
deriving DecidableEq, Repr

def resultOf (call : StoredHostedToolCall) : Option HostedAgentToolResult :=
  if call.state = .terminal then
    call.status.map fun status =>
      ⟨call.requestId, call.callId, status, call.commandId, call.message, call.error⟩
  else none

namespace View

variable (v : View)

def setStage (stage : Stage) : View := { v with pill := { v.pill with stage } }

/-- The component's copy and its tab's storage are replaced together. -/
def store (record : Option ActiveHostedRunRecord) : View :=
  { v with
    pill := { v.pill with storedRun := record }
    storage := record.map writeActiveHostedRun
    saved := record.map writeActiveHostedRun }

def updateStoredCall (call : StoredHostedToolCall) : View :=
  match v.pill.storedRun with
  | none => v
  | some current =>
    v.store (some { current with calls := current.calls.filter (·.callId != call.callId) ++ [call] })

/-- An event that ends nothing moves the cursor. -/
def eventDone (seq : Nat) : View :=
  match v.pill.storedRun with
  | some current =>
    if current.runId = v.pill.record.runId then (v.store (some { current with lastEventId := seq })).setStage .reading
    else v.setStage .reading
  | none => v.setStage .reading

/-- The submission of a stored result, unless the component is gone. -/
def submitStored (call : StoredHostedToolCall) (seq : Nat) : View :=
  match resultOf call with
  | some result =>
    if v.pill.aborted then v.eventDone seq
    else { v.setStage (.submitting call seq) with submissions := v.submissions ++ [result] }
  | none => v.eventDone seq

def fail : View := if v.pill.aborted then v.setStage .ended else (v.store none).setStage .ended

def handleHostedTool (getCommand : JsString → Option AgentCommand) (call : ToolCall) (seq : Nat)
    (requestId : JsString) : View :=
  match v.pill.storedRun.bind fun run => run.calls.find? (·.callId == call.callId) with
  | some stored =>
    match stored.state with
    | .executing =>
      let stored := { stored with state := .terminal, status := some .failed, error := some outcomeUnknown }
      (v.updateStoredCall stored).submitStored stored seq
    | .terminal => v.submitStored stored seq
  | none =>
    if matchesContract getCommand call then
      let stored : StoredHostedToolCall := ⟨call.callId, requestId, call.commandId, .executing, none, none, none⟩
      { (v.updateStoredCall stored).setStage (.running stored seq) with launches := v.launches ++ [call] }
    else
      let stored : StoredHostedToolCall :=
        ⟨call.callId, requestId, call.commandId, .terminal, some .failed, none, some contractMismatch⟩
      (v.updateStoredCall stored).submitStored stored seq

/-- An event of the log is read; one that is not behind the cursor has been handled before. -/
def deliver (getCommand : JsString → Option AgentCommand) (log : List HostedRunEvent) (seq : Nat)
    (requestId : JsString) : View :=
  if v.pill.stage ≠ .reading ∨ seq ≤ v.pill.after then v
  else
    match log[seq - 1]? with
    | none => v
    | some event =>
      let read : View := { v with pill := { v.pill with after := seq } }
      match event with
      | .runStarted runId documentId =>
        if runId ≠ v.pill.record.runId ∨ documentId ≠ v.pill.record.documentId then read.fail
        else read.eventDone seq
      | .toolCall call => read.handleHostedTool getCommand call seq requestId
      | .terminal => (read.store none).setStage .ended
      | .assistantDelta | .toolResultAccepted => read.eventDone seq

/-- The command of a call has finished. -/
def finish (status : ToolResultStatus) (message error : Option JsString) : View :=
  match v.pill.stage with
  | .running call seq =>
    let stored := { call with state := .terminal, status := some status, message, error }
    (v.updateStoredCall stored).submitStored stored seq
  | _ => v

/-- A submission that got no answer is sent again. -/
def retry : View :=
  match v.pill.stage with
  | .submitting call _ =>
    match resultOf call with
    | some result => if v.pill.aborted then v else { v with submissions := v.submissions ++ [result] }
    | none => v
  | _ => v

def accepted : View :=
  match v.pill.stage with
  | .submitting _ seq => v.eventDone seq
  | _ => v

/-- The stream or a submission fails for good. -/
def broken : View :=
  match v.pill.stage with
  | .reading | .submitting _ _ => v.fail
  | .running _ _ | .ended => v

def unmount : View :=
  let gone : View := { v with pill := { v.pill with aborted := true } }
  if v.pill.stage = .reading then gone.setStage .ended else gone

end View

/-! ## Tabs -/

structure BrowserTab where
  storage : Option ActiveHostedRunRecord
  pills : List Pill
deriving DecidableEq, Repr

structure Browser where
  tabs : List BrowserTab
  saved : Option ActiveHostedRunRecord
  launches : List ToolCall
  submissions : List HostedAgentToolResult
deriving DecidableEq, Repr

inductive PillEvent
  | deliver (seq : Nat) (requestId : JsString)
  | finish (status : ToolResultStatus) (message error : Option JsString)
  | retry
  | accepted
  | broken
  | unmount
deriving DecidableEq, Repr

inductive BrowserEvent
  | pill (tab i : Nat) (event : PillEvent)
  | mount (tab now : Nat)
  | reload (tab : Nat)
  | duplicate (tab : Nat)
deriving DecidableEq, Repr

section
variable (getCommand : JsString → Option AgentCommand) (log : List HostedRunEvent) (documentId : JsString)

def View.step (v : View) : PillEvent → View
  | .deliver seq requestId => v.deliver getCommand log seq requestId
  | .finish status message error => v.finish status message error
  | .retry => v.retry
  | .accepted => v.accepted
  | .broken => v.broken
  | .unmount => v.unmount

namespace Browser

variable (browser : Browser)

/-- The component `i` of a tab, as it works. -/
def view? (tab i : Nat) : Option View :=
  (browser.tabs[tab]?).bind fun found => (found.pills[i]?).map fun pill =>
    ⟨pill, found.storage, browser.saved, browser.launches, browser.submissions⟩

def putView (tab i : Nat) (v : View) : Browser where
  tabs := browser.tabs.modify tab fun found => ⟨v.storage, found.pills.set i v.pill⟩
  saved := v.saved
  launches := v.launches
  submissions := v.submissions

/-- A component mounts and resumes the run its tab has stored. -/
def mount (tab now : Nat) : Browser :=
  { browser with tabs := browser.tabs.modify tab fun found =>
      match readActiveHostedRun documentId now found.storage with
      | none => { found with storage := none }
      | some record => { found with pills := found.pills ++ [⟨record, some record, record.lastEventId, .reading, false⟩] } }

def step : BrowserEvent → Browser
  | .pill tab i event =>
    match browser.view? tab i with
    | some v => browser.putView tab i (v.step getCommand log event)
    | none => browser
  | .mount tab now => browser.mount documentId tab now
  | .reload tab => { browser with tabs := browser.tabs.modify tab fun found => { found with pills := [] } }
  | .duplicate tab => { browser with tabs := browser.tabs ++ ((browser.tabs[tab]?).map fun found => ⟨found.storage, []⟩).toList }

end Browser

end

def Browser.started (documentId runId requestId eventsUrl : JsString) (expiresAtMs : Nat) : Browser :=
  let record : ActiveHostedRunRecord := ⟨documentId, runId, requestId, eventsUrl, expiresAtMs, 0, []⟩
  ⟨[⟨some record, [⟨record, some record, 0, .reading, false⟩]⟩], some record, [], []⟩

end Marks.AgentPill
