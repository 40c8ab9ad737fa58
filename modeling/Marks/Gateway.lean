import Marks.Agent

/-! # The event stream of a hosted run

The frames the service writes for a cursor, the bytes of them a connection delivers, and the client that decodes
them, cuts them into frames, parses each and hands its event on, reconnecting from its cursor until a terminal event.
A piece of the stream is an event or a keep-alive. Whether and where a connection ends is up to the connection. -/

namespace Marks.Gateway

open Agent (Text AgentEvent AgentUsage EventKind ToolEffect ToolDurability ToolResultStatus)

/-! ## The service -/

def keepAlive : Text := ": keepalive\n\n".toList

def frame (event : AgentEvent) : Text :=
  "id: ".toList ++ Nat.toDigits 10 event.sequence ++ "\nevent: ".toList ++ event.kind.name.toList ++
    "\ndata: ".toList ++ event.data.serialize ++ "\n\n".toList

def pieceText : Option AgentEvent → Text
  | none => keepAlive
  | some event => frame event

def pieces : List Nat → List AgentEvent → List (Option AgentEvent)
  | _, [] => []
  | waits, event :: events => List.replicate (waits.headD 0) none ++ some event :: pieces waits.tail events

def piecesText (sent : List (Option AgentEvent)) : Text := sent.flatMap pieceText

/-! ## Connections -/

/-- The waits for the events, the sizes of the chunks that arrive, and whether the stream then ends cleanly. -/
structure Connection where
  waits : List Nat
  chunks : List Nat
  clean : Bool
deriving DecidableEq, Repr

def decoded : Nat → Text → Text
  | _, [] => []
  | bytes, c :: rest => if c.utf8Size ≤ bytes then c :: decoded (bytes - c.utf8Size) rest else []

def flushed (bytes : Nat) (text : Text) : Text :=
  if decoded bytes text ≠ text ∧ Json.utf8Bytes (decoded bytes text) < bytes then ['\uFFFD'] else []

/-! ## Events -/

def maxEventBytes : Nat := 128 * 1024
def maxSafeInteger : Nat := 2 ^ 53 - 1

inductive HostedAgentRunEvent
  | runStarted (runId documentId : Text) (createdAtMs : Nat)
  | assistantDelta (text : Text)
  | toolCall (callId commandId name : Text) (arguments : Json) (effect : ToolEffect) (durability : ToolDurability)
  | toolResultAccepted (callId : Text) (status : ToolResultStatus)
  | runCompleted (outputText : Text) (usage : AgentUsage)
  | runFailed (code : Text)
  | runCancelled
deriving Repr

def HostedAgentRunEvent.isTerminal : HostedAgentRunEvent → Bool
  | runCompleted _ _ | runFailed _ | runCancelled => true
  | runStarted _ _ _ | assistantDelta _ | toolCall _ _ _ _ _ _ | toolResultAccepted _ _ => false

structure HostedAgentEventEnvelope where
  id : Nat
  event : HostedAgentRunEvent
deriving Repr

inductive AgentGatewayError
  | invalidResponse
deriving DecidableEq, Repr

def field (value : Json) (name : String) : Option Json :=
  match value with
  | .object fields => (fields.find? (·.1 == name.toList)).map (·.2)
  | .null | .bool _ | .number _ | .string _ | .array _ => none

def textOf : Json → Option Text
  | .string text => some text
  | .null | .bool _ | .number _ | .array _ | .object _ => none

def isDigits (text : Text) : Bool := !text.isEmpty && text.all (·.isDigit)

/-- A safe integer that is not negative; the service writes one as its digits. -/
def nonNegativeInteger : Json → Option Nat
  | .number digits =>
    if isDigits digits && decide (Nat.ofDigitChars 10 digits 0 ≤ maxSafeInteger) then
      some (Nat.ofDigitChars 10 digits 0)
    else none
  | .null | .bool _ | .string _ | .array _ | .object _ => none

def effectOf (text : Text) : Option ToolEffect := [.read, .write, .destructive].find? (·.name.toList == text)

def durabilityOf (text : Text) : Option ToolDurability :=
  [.ephemeral, .document, .external].find? (·.name.toList == text)

def resultStatusOf (text : Text) : Option ToolResultStatus :=
  [.succeeded, .failed, .cancelled].find? (·.name.toList == text)

def statusIs (value : Json) (status : String) : Option Unit :=
  if (field value "status").bind textOf = some status.toList then some () else none

def parseUsage (usage : Json) : Option AgentUsage := do
  let inputTokens ← (field usage "inputTokens").bind nonNegativeInteger
  let outputTokens ← (field usage "outputTokens").bind nonNegativeInteger
  let totalTokens ← (field usage "totalTokens").bind nonNegativeInteger
  some ⟨inputTokens, outputTokens, totalTokens⟩

/-- The event of a name with its data; `none` is an invalid response. -/
def parseRunEvent (eventName : Text) (value : Json) : Option HostedAgentRunEvent :=
  if !value.isObject || (field value "type").isSome then none
  else if eventName = "run.started".toList then do
    let runId ← (field value "runId").bind textOf
    let documentId ← (field value "documentId").bind textOf
    statusIs value "running"
    let createdAtMs ← (field value "createdAtMs").bind nonNegativeInteger
    some (.runStarted runId documentId createdAtMs)
  else if eventName = "assistant.delta".toList then do
    let text ← (field value "text").bind textOf
    some (.assistantDelta text)
  else if eventName = "tool.call".toList then do
    let callId ← (field value "callId").bind textOf
    let commandId ← (field value "commandId").bind textOf
    let name ← (field value "name").bind textOf
    let arguments ← (field value "arguments").filter Json.isObject
    let effect ← ((field value "effect").bind textOf).bind effectOf
    let durability ← ((field value "durability").bind textOf).bind durabilityOf
    some (.toolCall callId commandId name arguments effect durability)
  else if eventName = "tool.result.accepted".toList then do
    let callId ← (field value "callId").bind textOf
    let status ← ((field value "status").bind textOf).bind resultStatusOf
    some (.toolResultAccepted callId status)
  else if eventName = "run.completed".toList then do
    statusIs value "completed"
    let outputText ← (field value "outputText").bind textOf
    let usage ← (field value "usage").bind parseUsage
    some (.runCompleted outputText usage)
  else if eventName = "run.failed".toList then do
    statusIs value "failed"
    let code ← (field value "code").bind textOf
    some (.runFailed code)
  else if eventName = "run.cancelled".toList then do
    statusIs value "cancelled"
    some .runCancelled
  else none

/-! ## Frames -/

/-- `indexOf`. -/
def indexOf (pattern : Text) : Text → Option Nat
  | [] => if pattern = [] then some 0 else none
  | c :: rest => if pattern.isPrefixOf (c :: rest) then some 0 else (indexOf pattern rest).map (· + 1)

/-- Where the first frame ends, and the length of its boundary. -/
def eventBoundary (value : Text) : Option (Nat × Nat) :=
  match indexOf ['\n', '\n'] value, indexOf ['\r', '\n', '\r', '\n'] value with
  | none, none => none
  | some lf, none => some (lf, 2)
  | none, some crlf => some (crlf, 4)
  | some lf, some crlf => if crlf < lf then some (crlf, 4) else some (lf, 2)

/-- `split(/\r?\n/)`. -/
def splitLines : Text → List Text
  | [] => [[]]
  | '\n' :: rest => [] :: splitLines rest
  | '\r' :: '\n' :: rest => [] :: splitLines rest
  | c :: rest =>
    match splitLines rest with
    | [] => [[c]]
    | line :: lines => (c :: line) :: lines

def withoutMark : Text → Text
  | '\uFEFF' :: rest => rest
  | text => text

structure FrameFields where
  id : Text
  eventName : Text
  data : List Text
deriving DecidableEq, Repr

def readLine (fields : FrameFields) (rawLine : Text) : FrameFields :=
  if rawLine = [] ∨ rawLine.head? = some ':' then fields
  else
    let name := rawLine.takeWhile (· != ':')
    let raw := (rawLine.dropWhile (· != ':')).tail
    let value := if raw.head? = some ' ' then raw.tail else raw
    if name = "id".toList then { fields with id := value }
    else if name = "event".toList then { fields with eventName := value }
    else if name = "data".toList then { fields with data := fields.data ++ [value] }
    else fields

def readFields (frame : Text) : FrameFields := (splitLines (withoutMark frame)).foldl readLine ⟨[], [], []⟩

section
variable (parseJson : Text → Option Json)

def parseFrame (frame : Text) : Except AgentGatewayError (Option HostedAgentEventEnvelope) :=
  let fields := readFields frame
  let serialized := List.intercalate ['\n'] fields.data
  if fields.data = [] then .ok none
  else if !isDigits fields.id then .error .invalidResponse
  else if fields.eventName = [] then .error .invalidResponse
  else if maxEventBytes < Json.utf8Bytes serialized then .error .invalidResponse
  else
    match (parseJson serialized).bind (parseRunEvent fields.eventName) with
    | some event => .ok (some ⟨Nat.ofDigitChars 10 fields.id 0, event⟩)
    | none => .error .invalidResponse

/-! ## The client -/

/-- The unread text of a connection, the cursor, and the events handed to `onEvent`. -/
structure Client where
  buffer : Text
  after : Nat
  calls : List HostedAgentEventEnvelope
deriving Repr

inductive Progress
  | reading (client : Client)
  | returned (client : Client)
  | rejected (client : Client)
deriving Repr

def Progress.client : Progress → Client
  | reading client | returned client | rejected client => client

/-- An event is handed on unless it is not behind the cursor; a terminal one ends the stream. -/
def accept (client : Client) (envelope : HostedAgentEventEnvelope) : Progress :=
  if client.after ≠ 0 ∧ envelope.id ≤ client.after then .reading client
  else
    let handed : Client := { client with after := envelope.id, calls := client.calls ++ [envelope] }
    if envelope.event.isTerminal then .returned handed else .reading handed

def readFrame (client : Client) (frame : Text) : Progress :=
  match parseFrame parseJson frame with
  | .error _ => .rejected client
  | .ok none => .reading client
  | .ok (some envelope) => accept client envelope

/-- The whole frames of the buffer; each is longer than nothing, so the buffer's length is fuel enough. -/
def drain : Nat → Client → Progress
  | 0, client => .reading client
  | fuel + 1, client =>
    match eventBoundary client.buffer with
    | none => .reading client
    | some (index, length) =>
      match readFrame parseJson { client with buffer := client.buffer.drop (index + length) }
          (client.buffer.take index) with
      | .reading client => drain fuel client
      | .returned client => .returned client
      | .rejected client => .rejected client

/-- A chunk has been decoded. -/
def readText (client : Client) (text : Text) : Progress :=
  let read : Client := { client with buffer := client.buffer ++ text }
  if maxEventBytes < Json.utf8Bytes read.buffer ∧ eventBoundary read.buffer = none then .rejected read
  else drain parseJson read.buffer.length read

/-- `WhiteSpace` and `LineTerminator`: what `trim` drops. -/
def isSpace (c : Char) : Bool :=
  c.toNat ∈ [0x9, 0xA, 0xB, 0xC, 0xD, 0x20, 0xA0, 0x1680, 0x2028, 0x2029, 0x202F, 0x205F, 0x3000, 0xFEFF] ||
    (0x2000 ≤ c.toNat && c.toNat ≤ 0x200A)

/-- The stream ends cleanly: what is left of it is read as a frame. -/
def finish (client : Client) (rest : Text) : Progress :=
  match readText parseJson client rest with
  | .reading client =>
    if client.buffer.all isSpace then .reading client else readFrame parseJson client client.buffer
  | .returned client => .returned client
  | .rejected client => .rejected client

/-- A connection that has delivered so many bytes of the text, and the chunks that are still to come. -/
def readChunks (text : Text) (clean : Bool) : Nat → List Nat → Client → Progress
  | bytes, [], client => if clean then finish parseJson client (flushed bytes text) else .reading client
  | bytes, size :: sizes, client =>
    match readText parseJson client ((decoded (bytes + size) text).drop (decoded bytes text).length) with
    | .reading client => readChunks text clean (bytes + size) sizes client
    | .returned client => .returned client
    | .rejected client => .rejected client

/-- The connections that the client makes, each from its cursor. -/
def streamHostedAgentRun (log : List AgentEvent) : List Connection → Client → Progress
  | [], client => .reading client
  | connection :: connections, client =>
    let sent := pieces connection.waits (log.filter (client.after < ·.sequence))
    match readChunks parseJson (piecesText sent) connection.clean 0 connection.chunks { client with buffer := [] } with
    | .reading client => streamHostedAgentRun log connections client
    | .returned client => .returned client
    | .rejected client => .rejected client

end

end Marks.Gateway
