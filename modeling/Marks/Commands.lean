import Marks.Authority
import Marks.Runs

/-! # Commands

The admission of a command and the runtime that carries its runs: a call creates a run, a queued microtask or an
approval starts its executor, and the executor's promise settles it. The registry of the commands, the supply
of run ids and what an executor returns are given. -/

namespace Marks

/-! ## Admission -/

inductive CommandSource where
  | human
  | keyboard
  | palette
  | agent
  | bridge
deriving DecidableEq, Repr

inductive CommandModality where
  | edit
  | split
  | preview
deriving DecidableEq, Repr

inductive RibbonPane where
  | editor
  | preview
deriving DecidableEq, Repr

inductive RibbonTask where
  | compose
  | inspect
deriving DecidableEq, Repr

inductive Shell where
  | phone
  | studio
  | desktop
  | foldBook
  | foldLaptop
deriving DecidableEq, Repr

inductive EditorContextKind where
  | text
  | heading
  | image
  | table
  | shape
  | code
deriving DecidableEq, Repr

inductive WorkspaceKind where
  | local_
  | scratch
  | session
deriving DecidableEq, Repr

inductive CommandRole where
  | document (role : DocumentRole)
  | scratch
  | local_
deriving DecidableEq, Repr

inductive CommandCapability where
  | edit
  | comment
  | saveVersion
  | manageShares
deriving DecidableEq, Repr

inductive CommandRisk where
  | read
  | write
  | external
  | destructive
deriving DecidableEq, Repr

/-- A value of an input with what `typeof` says of it. -/
structure InputValue where
  type : String
  value : String
deriving DecidableEq, Repr

abbrev CommandInput := List (String × InputValue)

structure CommandProperty where
  type : String
  enum : Option (List InputValue)
deriving DecidableEq, Repr

structure CommandParameterSchema where
  properties : List (String × CommandProperty)
  required : List String
  additionalProperties : Bool
deriving DecidableEq, Repr

structure CommandDefinition where
  id : String
  label : String
  invocationSources : List CommandSource
  modes : Option (List CommandModality)
  contexts : Option (List EditorContextKind)
  roles : Option (List CommandRole)
  workspaceKinds : Option (List WorkspaceKind)
  capability : Option CommandCapability
  requiresDocument : Bool
  requiresSelection : Bool
  risk : CommandRisk
  parameters : Option CommandParameterSchema
deriving DecidableEq, Repr

structure DocumentCapabilities where
  role : Option CommandRole
  edit : Bool
  comment : Bool
  saveVersion : Bool
  manageShares : Bool
deriving DecidableEq, Repr

structure CommandEnvironment where
  hasDocument : Bool
  hydrated : Bool
  capabilities : Option DocumentCapabilities
  workspaceKind : WorkspaceKind
  mode : CommandModality
  activePane : RibbonPane
  shell : Shell
  context : EditorContextKind
  selectionLength : Nat
  voiceSupported : Bool
deriving DecidableEq, Repr

structure CommandAvailability where
  visible : Bool
  enabled : Bool
  reason : Option String
deriving DecidableEq, Repr

def CommandModality.name : CommandModality → String
  | .edit => "edit"
  | .split => "split"
  | .preview => "preview"

def EditorContextKind.name : EditorContextKind → String
  | .text => "text"
  | .heading => "heading"
  | .image => "image"
  | .table => "table"
  | .shape => "shape"
  | .code => "code"

def DocumentCapabilities.has (capabilities : DocumentCapabilities) : CommandCapability → Bool
  | .edit => capabilities.edit
  | .comment => capabilities.comment
  | .saveVersion => capabilities.saveVersion
  | .manageShares => capabilities.manageShares

def ribbonTask (environment : CommandEnvironment) : RibbonTask :=
  if environment.mode = .preview then .inspect
  else if environment.mode = .edit then .compose
  else if environment.shell = .foldBook ∨ environment.shell = .foldLaptop then .compose
  else if environment.activePane = .preview then .inspect
  else .compose

def invocationCommandMode (environment : CommandEnvironment) (source : CommandSource) : CommandModality :=
  if source = .human ∧ ribbonTask environment = .inspect then .preview else environment.mode

def capabilityReason : CommandCapability → String
  | .edit => "Your current role can read but cannot edit this document."
  | .comment => "Your current role cannot add review comments."
  | .saveVersion => "Your current role cannot save or restore versions."
  | .manageShares => "Only the document owner can manage access."

def workspaceReason (command : CommandDefinition) (environment : CommandEnvironment) : String :=
  if environment.workspaceKind = .scratch then "Log in before managing named access or account-only history."
  else if environment.workspaceKind = .local_ then "This control requires the Marks identity service."
  else if (command.workspaceKinds.getD []).contains .scratch then "This command only applies before you log in."
  else "This command is not available in the current workspace."

/-- The reason of `evaluateAvailability`, in the order of its checks. -/
def unavailableReason (command : CommandDefinition) (environment : CommandEnvironment) (mode : CommandModality) :
    Option String :=
  let role := environment.capabilities.bind (·.role)
  if command.requiresDocument && !environment.hasDocument then some "Open a document first."
  else if command.requiresDocument && !environment.hydrated then some "The document is still opening."
  else if command.modes.any (!·.contains mode) then
    some (if mode = .preview then "Switch to Editor or Split to change Markdown."
      else "This command is unavailable in " ++ mode.name ++ " mode.")
  else if command.contexts.any (!·.contains environment.context) then
    some ("Select a " ++ String.intercalate " or " ((command.contexts.getD []).map (·.name)) ++
      " to use this command.")
  else if command.workspaceKinds.any (!·.contains environment.workspaceKind) then
    some (workspaceReason command environment)
  else if command.roles.isSome && role.isNone then some "Document authority has not resolved yet."
  else if command.roles.any fun roles => !role.any roles.contains then
    some "Your document role does not allow this command."
  else
    match command.capability.filter fun capability => !environment.capabilities.any (·.has capability) with
    | some capability => some (capabilityReason capability)
    | none =>
      if command.requiresSelection && environment.selectionLength == 0 then some "Select text first."
      else if command.id = "input.dictate" ∧ environment.voiceSupported = false then
        some "Voice input is not supported by this browser."
      else if command.id = "view.split" ∧ environment.shell = .phone then
        some "Split view is not available in the phone shell."
      else none

def commandInvocationAvailability (command : CommandDefinition) (environment : CommandEnvironment)
    (source : CommandSource) : CommandAvailability :=
  if !command.invocationSources.contains source then ⟨false, false, none⟩
  else
    let reason := unavailableReason command environment (invocationCommandMode environment source)
    ⟨true, reason.isNone, reason⟩

/-- What is wrong with one value of an input. -/
def validateValue (schema : CommandParameterSchema) : String × InputValue → Option String
  | (key, value) =>
    match schema.properties.lookup key with
    | none => none
    | some property =>
      if value.type ≠ property.type then some ("Command argument " ++ key ++ " must be " ++ property.type ++ ".")
      else if property.enum.any (!·.contains value) then
        some ("Command argument " ++ key ++ " is outside the allowed values.")
      else none

def validateInput (command : CommandDefinition) (input : CommandInput) : Option String :=
  match command.parameters with
  | none => if input = [] then none else some "This command does not accept arguments."
  | some schema =>
    let unknown := if schema.additionalProperties then none
      else (input.map (·.1)).find? fun key => (schema.properties.lookup key).isNone
    match unknown with
    | some key => some ("Unknown command argument: " ++ key)
    | none =>
      match schema.required.find? fun key => (input.lookup key).isNone with
      | some key => some ("Missing required command argument: " ++ key)
      | none => input.findSome? (validateValue schema)

def approvalMessage (command : CommandDefinition) : String :=
  if command.risk = .destructive then command.label ++ " can remove or revoke data. Approve before it runs."
  else command.label ++ " crosses the browser or service boundary. Approve before it runs."

/-! ## Runs -/

inductive CommandRunStatus where
  | proposed
  | awaitingApproval
  | running
  | succeeded
  | failed
  | cancelled
deriving DecidableEq, Repr

def CommandRunStatus.isTerminal : CommandRunStatus → Bool
  | .succeeded | .failed | .cancelled => true
  | _ => false

structure CommandRun where
  id : String
  commandId : String
  source : CommandSource
  status : CommandRunStatus
  input : CommandInput
  proposedAt : Millis
  startedAt : Option Millis
  finishedAt : Option Millis
  message : Option String
  error : Option String
deriving DecidableEq, Repr

structure RuntimeInvocation where
  source : CommandSource
  input : CommandInput
  bypassApproval : Bool
deriving DecidableEq, Repr

inductive CommandOutcome where
  | returned (ok : Bool) (message : Option String)
  | threw (message : Option String)
deriving DecidableEq, Repr

/-- What was called and what came of it. -/
inductive CommandLog where
  | created (run : CommandRun) (bypassApproval : Bool)
  | approved (runId : String)
  | cancelled (runId : String)
  | destroyed
  | executed (runId : String) (environment : CommandEnvironment)
  | resolved (receipt : CommandRun)
deriving DecidableEq, Repr

structure CommandRuntimeOptions where
  registry : String → Option CommandDefinition
  id : Nat → String
  maxReceipts : Nat

/-- The runtime with what it is among: the environment, the clock, the ids drawn, the abort signals that fired,
the microtasks and the executor's calls in flight. -/
structure CommandRuntime where
  environment : CommandEnvironment
  clock : Millis
  drawn : Nat
  pending : List CommandRun
  runs : List CommandRun
  receipts : List CommandRun
  aborted : List String
  microtasks : List String
  calls : List String
  log : List CommandLog

inductive CommandEvent where
  | start (commandId : String) (invocation : RuntimeInvocation)
  | propose (commandId : String) (input : CommandInput) (source : CommandSource)
  | approve (runId : String)
  | cancel (runId : String)
  | destroy
  | change (environment : CommandEnvironment)
  | tick (clock : Millis)
  | microtask
  | complete (runId : String) (outcome : CommandOutcome)
deriving DecidableEq, Repr

def needsApproval (command : CommandDefinition) (source : CommandSource) (bypassApproval : Bool) : Bool :=
  (source == .agent || source == .bridge) && (command.risk == .external || command.risk == .destructive) &&
    !bypassApproval

/-- `slice(-n)`, which keeps everything for zero. -/
def sliceLast {α : Type} (n : Nat) (l : List α) : List α := if n = 0 then l else l.drop (l.length - n)

namespace CommandRuntime

variable (options : CommandRuntimeOptions) (runtime : CommandRuntime)

def find (runId : String) : Option CommandRun := runtime.pending.find? (·.id == runId)

def replace (runs : List CommandRun) (run : CommandRun) : List CommandRun :=
  runs.map fun other => if other.id = run.id then run else other

def update (runId : String) (patch : CommandRun → CommandRun) : CommandRuntime :=
  match runtime.find runId with
  | none => runtime
  | some run => { runtime with pending := replace runtime.pending (patch run), runs := replace runtime.runs (patch run) }

/-- The receipt `finish` makes out of a run. -/
def receipt (run : CommandRun) (status : CommandRunStatus) (message : Option String) : CommandRun :=
  { run with
    status
    finishedAt := some runtime.clock
    message := if status = .failed then run.message else message
    error := if status = .failed then message.or run.error else none }

def finish (runId : String) (status : CommandRunStatus) (message : Option String) : CommandRuntime :=
  match runtime.find runId with
  | none => runtime
  | some run =>
    let receipt := runtime.receipt run status message
    { runtime with
      pending := runtime.pending.filter (·.id != runId)
      runs := replace runtime.runs receipt
      receipts := sliceLast options.maxReceipts (runtime.receipts ++ [receipt])
      log := .resolved receipt :: runtime.log }

/-- `execute` up to its `await`. -/
def execute (runId : String) : CommandRuntime :=
  match runtime.find runId with
  | none => runtime
  | some run =>
    if run.status ≠ .proposed then runtime
    else
      match options.registry run.commandId with
      | none => runtime
      | some command =>
        let availability := commandInvocationAvailability command runtime.environment run.source
        if !availability.enabled then
          runtime.finish options runId .failed (some (availability.reason.getD "Command became unavailable."))
        else
          let runtime := runtime.update runId fun run =>
            { run with
              status := .running
              startedAt := some runtime.clock
              message := some ("Running " ++ command.label) }
          { runtime with
            calls := runtime.calls ++ [runId]
            log := .executed runId runtime.environment :: runtime.log }

/-- The rest of `execute`, behind its `await`. -/
def settle (runId : String) (label : String) (outcome : CommandOutcome) : CommandRuntime :=
  if runtime.aborted.contains runId then runtime.finish options runId .cancelled (some "Cancelled before completion.")
  else
    match outcome with
    | .returned true message => runtime.finish options runId .succeeded (message.or (some (label ++ " completed.")))
    | .returned false message =>
      runtime.finish options runId .failed (message.or (some (label ++ " could not be applied.")))
    | .threw message => runtime.finish options runId .failed (message.or (some "Command failed."))

/-- The promise of a call in flight settles. The label is that of the command the call holds; without a pending
run there is nothing left to finish. -/
def complete (runId : String) (outcome : CommandOutcome) : CommandRuntime :=
  if runtime.calls.contains runId then
    let label := ((runtime.find runId).bind fun run => options.registry run.commandId).elim "" (·.label)
    ({ runtime with calls := runtime.calls.erase runId } : CommandRuntime).settle options runId label outcome
  else runtime

/-- The run of a call, as it is born. -/
def newRun (commandId : String) (command : CommandDefinition) (invocation : RuntimeInvocation) : CommandRun :=
  let source := invocation.source
  let availability := commandInvocationAvailability command runtime.environment source
  let inputError := if source = .agent ∨ source = .bridge then validateInput command invocation.input else none
  let approval := needsApproval command source invocation.bypassApproval
  { id := options.id runtime.drawn
    commandId
    source
    status := if availability.enabled ∧ inputError = none then
      if approval then .awaitingApproval else .proposed else .failed
    input := invocation.input
    proposedAt := runtime.clock
    startedAt := none
    finishedAt := none
    message := if approval then some (approvalMessage command) else none
    error := inputError.or
      (if availability.enabled then none else some (availability.reason.getD "Command is unavailable.")) }

def create (run : CommandRun) (bypassApproval : Bool) : CommandRuntime :=
  let runtime :=
    { runtime with
      drawn := runtime.drawn + 1
      pending := runtime.pending ++ [run]
      runs := sliceLast 12 (runtime.runs ++ [run])
      log := .created run bypassApproval :: runtime.log }
  if run.status = .failed then runtime.finish options run.id .failed run.error else runtime

/-- An unknown command throws before there is a run. -/
def start (commandId : String) (invocation : RuntimeInvocation) : CommandRuntime :=
  match options.registry commandId with
  | none => runtime
  | some command =>
    let run := runtime.newRun options commandId command invocation
    let runtime := runtime.create options run invocation.bypassApproval
    if run.status = .proposed then { runtime with microtasks := runtime.microtasks ++ [run.id] } else runtime

def propose (commandId : String) (input : CommandInput) (source : CommandSource) : CommandRuntime :=
  runtime.start options commandId ⟨source, input, false⟩

def approve (runId : String) : CommandRuntime :=
  let runtime := { runtime with log := .approved runId :: runtime.log }
  match runtime.find runId with
  | none => runtime
  | some run =>
    if run.status ≠ .awaitingApproval then runtime
    else
      (runtime.update runId fun run => { run with status := .proposed, message := some "Approved" }).execute options
        runId

def cancel (runId : String) : CommandRuntime :=
  let runtime := { runtime with log := .cancelled runId :: runtime.log }
  match runtime.find runId with
  | none => runtime
  | some run =>
    if run.status.isTerminal then runtime
    else
      ({ runtime with aborted := runtime.aborted ++ [runId] } : CommandRuntime).finish options runId .cancelled
        (some "Cancelled before completion.")

def destroy : CommandRuntime :=
  let ids := runtime.pending.map (·.id)
  let runtime := { runtime with aborted := runtime.aborted ++ ids, log := .destroyed :: runtime.log }
  ids.foldl (fun runtime runId => runtime.finish options runId .cancelled (some "Command surface closed.")) runtime

def microtask : CommandRuntime :=
  match runtime.microtasks with
  | [] => runtime
  | runId :: microtasks => ({ runtime with microtasks } : CommandRuntime).execute options runId

def step : CommandEvent → CommandRuntime
  | .start commandId invocation => runtime.start options commandId invocation
  | .propose commandId input source => runtime.propose options commandId input source
  | .approve runId => runtime.approve options runId
  | .cancel runId => runtime.cancel options runId
  | .destroy => runtime.destroy options
  | .change environment => { runtime with environment }
  | .tick clock => { runtime with clock }
  | .microtask => runtime.microtask options
  | .complete runId outcome => runtime.complete options runId outcome

def initial (environment : CommandEnvironment) : CommandRuntime := ⟨environment, 0, 0, [], [], [], [], [], [], []⟩

end CommandRuntime

end Marks
