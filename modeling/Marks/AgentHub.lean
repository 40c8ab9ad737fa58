import Marks.Agent
import Marks.Authority

/-! # The hub of hosted runs

Requests that create runs, and those that revoke a session or a device. A creation checks its cookie before the
run's own transaction, and puts the run in the hub's map after it; a revocation writes the sessions first, and then
cancels the runs it finds in the map, session by session. -/

namespace Marks.Agent

structure HubConfig where
  enabled : Bool
  maxConcurrentRuns : Nat
  maxConcurrentRunsPerSession : Nat
  maxRunsPerHour : Nat
  maxRuntimeMs : Millis
  eventRetentionMs : Millis

def oneHourMs : Millis := 60 * 60 * 1000

structure CreateRunBody where
  requestId : Text
  documentId : Text
  prompt : Text
  tools : List AgentTool
deriving DecidableEq, Repr

inductive HubError
  | refused (error : ApiError)
  | rateLimited
  | unavailable
deriving DecidableEq, Repr

/-- A run: what its row says of it, whether the row is there, and whether the hub's map names it. It is `launched`
once it was put in the map and its task was spawned. -/
structure AgentRun where
  sessionId : SessionId
  principalId : PrincipalId
  requestId : Text
  requestHash : List UInt8
  createdAtMs : Millis
  expiresAtMs : Millis
  stored : Bool
  loaded : Bool
  launched : Bool
  state : RunState

/-- Where a request for a run stands; from `acquired` on it holds a permit, until it is answered or its run ends. -/
inductive CreateStage
  | admitted
  | permitted
  | fresh
  | acquired
  | created (run : Nat)
  | existing (run : Nat)
  | answered (answer : Except HubError (Nat × Bool))

def CreateStage.isAnswered : CreateStage → Bool
  | answered _ => true
  | _ => false

structure Creation where
  session : AuthenticatedSession
  body : CreateRunBody
  stage : CreateStage

/-- Where a logout, or the revocation of a device, stands. While it cancels it has the sessions it revoked, those
whose runs it has still to collect, the runs it collected and has still to cancel, and whether the token of the
first of them is cancelled. -/
inductive RevokeStage
  | admitted
  | cancelling (revoked left : List SessionId) (runs : List Nat) (token : Bool)
  | answered (revoked : List SessionId)
  | refused (error : ApiError)
deriving DecidableEq, Repr

structure Revocation where
  caller : AuthenticatedSession
  /-- The device to revoke; a logout names none. -/
  device : Option DeviceId
  stage : RevokeStage
deriving DecidableEq, Repr

inductive HubEvent where
  | create (sessionId : SessionId) (body : CreateRunBody) (now : Millis)
  /-- The body is checked, and the document read; either may refuse. -/
  | permit (i : Nat) (refusal : Option HubError)
  | lookup (i : Nat)
  | acquire (i : Nat)
  | transact (i : Nat) (now : Millis)
  | launch (i : Nat)
  | replay (i : Nat)
  | revokeRequest (sessionId : SessionId) (device : Option DeviceId) (now : Millis)
  | revoke (i : Nat) (now : Millis)
  | collect (i : Nat)
  | cancelToken (i : Nat)
  | cancelFinalize (i : Nat)
  | answer (i : Nat)
  /-- A section of a run's task, of its provider's driver or of a request for it. -/
  | run (r : Nat) (event : RunEvent)
  | load (sessionId : SessionId) (r : Nat)
  | sweepRuns (now : Millis)
  | sweepRows (now : Millis)
  | login (id : SessionId) (principalId : PrincipalId) (deviceId : DeviceId) (expiresAtMs : Millis)
  | rotate (id : SessionId) (expiresAtMs : Millis)
  /-- What other routes change outside the sessions. -/
  | tables (auth : AuthorityTables)

/-- The hub with the requests it serves. The sessions whose runs some revocation has collected are not the server's
to know. -/
structure AgentHub where
  auth : AuthorityTables
  permits : Nat
  runs : List AgentRun
  creations : List Creation
  revocations : List Revocation
  collected : List SessionId

namespace AgentHub

def init (config : HubConfig) (auth : AuthorityTables) : AgentHub := ⟨auth, config.maxConcurrentRuns, [], [], [], []⟩

section
variable (hub : AgentHub)

def setRun (r : Nat) (run : AgentRun) : AgentHub := { hub with runs := hub.runs.set r run }

def setCreation (i : Nat) (creation : Creation) (stage : CreateStage) : AgentHub :=
  { hub with creations := hub.creations.set i { creation with stage } }

def setRevocation (i : Nat) (revocation : Revocation) (stage : RevokeStage) : AgentHub :=
  { hub with revocations := hub.revocations.set i { revocation with stage } }

def release : AgentHub := { hub with permits := hub.permits + 1 }

/-! ## Creation -/

def create (sessionId : SessionId) (body : CreateRunBody) (now : Millis) : AgentHub :=
  match cookieSession hub.auth sessionId now with
  | some session => { hub with creations := hub.creations ++ [⟨session, body, .admitted⟩] }
  | none => hub

def permit (i : Nat) (refusal : Option HubError) : AgentHub :=
  match hub.creations[i]? with
  | some ⟨session, body, .admitted⟩ =>
    hub.setCreation i ⟨session, body, .admitted⟩
      (match refusal with
        | some error => .answered (.error error)
        | none => .permitted)
  | _ => hub

def lookupRequest (sessionId : SessionId) (requestId : Text) : Option Nat :=
  hub.runs.findIdx? fun run => run.stored && run.sessionId == sessionId && run.requestId == requestId

/-- `load_owned_run`: a run in the map, or a finished one put back there from its row. -/
def loadOwnedRun (sessionId : SessionId) (r : Nat) : Except HubError AgentHub :=
  match hub.runs[r]? with
  | none => .error (.refused .notFound)
  | some run =>
    if run.loaded then
      if run.sessionId ≠ sessionId then .error (.refused .notFound) else .ok hub
    else if !run.stored ∨ run.sessionId ≠ sessionId then .error (.refused .notFound)
    else if !run.state.stored.status.isTerminal then .error .unavailable
    else .ok (hub.setRun r { run with loaded := true })

def replay (i : Nat) : AgentHub :=
  match hub.creations[i]? with
  | some ⟨session, body, .existing r⟩ =>
    match hub.loadOwnedRun session.id r with
    | .ok loaded => loaded.setCreation i ⟨session, body, .existing r⟩ (.answered (.ok (r, true)))
    | .error error => hub.setCreation i ⟨session, body, .existing r⟩ (.answered (.error error))
  | _ => hub

def acquire (i : Nat) : AgentHub :=
  match hub.creations[i]? with
  | some ⟨session, body, .fresh⟩ =>
    if hub.permits = 0 then hub.setCreation i ⟨session, body, .fresh⟩ (.answered (.error .unavailable))
    else { hub.setCreation i ⟨session, body, .fresh⟩ .acquired with permits := hub.permits - 1 }
  | _ => hub

def activeRuns (sessionId : SessionId) : Nat :=
  hub.runs.countP fun run => run.stored && run.sessionId == sessionId && !run.state.stored.status.isTerminal

def recentRuns (principalId : PrincipalId) (now : Millis) : Nat :=
  hub.runs.countP fun run => run.stored && run.principalId == principalId && decide (now - oneHourMs ≤ run.createdAtMs)

/-- The run enters the map, its task is spawned, and the request is answered. -/
def launch (i : Nat) : AgentHub :=
  match hub.creations[i]? with
  | some ⟨session, body, .created r⟩ =>
    match hub.runs[r]? with
    | some run => (hub.setRun r { run with loaded := true, launched := true }).setCreation i ⟨session, body, .created r⟩
        (.answered (.ok (r, false)))
    | none => hub
  | _ => hub

end

section
variable (config : HubConfig) (digest : CreateRunBody → List UInt8) (hub : AgentHub)

def lookup (i : Nat) : AgentHub :=
  match hub.creations[i]? with
  | some ⟨session, body, .permitted⟩ =>
    hub.setCreation i ⟨session, body, .permitted⟩
      (if !config.enabled then .answered (.error .unavailable)
      else
        match hub.lookupRequest session.id body.requestId with
        | none => .fresh
        | some r =>
          if (hub.runs[r]?.map (·.requestHash)) ≠ some (digest body) then .answered (.error (.refused .conflict))
          else .existing r)
  | _ => hub

def newRun (session : AuthenticatedSession) (body : CreateRunBody) (now : Millis) : AgentRun where
  sessionId := session.id
  principalId := session.principalId
  requestId := body.requestId
  requestHash := digest body
  createdAtMs := now
  expiresAtMs := now + config.maxRuntimeMs
  stored := true
  loaded := false
  launched := false
  state := .new ("run_".toList ++ Nat.toDigits 10 hub.runs.length) body.documentId now body.tools

/-- The transaction of `start_run`; the permit is dropped where no run comes of it. -/
def transact (i : Nat) (now : Millis) : AgentHub :=
  match hub.creations[i]? with
  | some ⟨session, body, .acquired⟩ =>
    match hub.lookupRequest session.id body.requestId with
    | some r =>
      (hub.setCreation i ⟨session, body, .acquired⟩
        (if (hub.runs[r]?.map (·.requestHash)) ≠ some (digest body) then .answered (.error (.refused .conflict))
        else .existing r)).release
    | none =>
      if config.maxConcurrentRunsPerSession ≤ hub.activeRuns session.id ∨
          config.maxRunsPerHour ≤ hub.recentRuns session.principalId now then
        (hub.setCreation i ⟨session, body, .acquired⟩ (.answered (.error .rateLimited))).release
      else
        { hub with runs := hub.runs ++ [hub.newRun config digest session body now] }.setCreation i
          ⟨session, body, .acquired⟩ (.created hub.runs.length)
  | _ => hub

end

/-! ## Revocation -/

section
variable (hub : AgentHub)

def revokeRequest (sessionId : SessionId) (device : Option DeviceId) (now : Millis) : AgentHub :=
  match cookieSession hub.auth sessionId now with
  | some session => { hub with revocations := hub.revocations ++ [⟨session, device, .admitted⟩] }
  | none => hub

/-- The transaction: a logout revokes the caller's session, whoever revoked it meanwhile; a device's revocation
finds the sessions it is the first to revoke. -/
def revoke (i : Nat) (now : Millis) : AgentHub :=
  match hub.revocations[i]? with
  | some ⟨caller, none, .admitted⟩ =>
    { hub with auth := sessionDelete hub.auth caller.id now }.setRevocation i ⟨caller, none, .admitted⟩
      (.cancelling [caller.id] [caller.id] [] false)
  | some ⟨caller, some device, .admitted⟩ =>
    match deviceRevoke hub.auth caller device now with
    | .error error => hub.setRevocation i ⟨caller, some device, .admitted⟩ (.refused error)
    | .ok auth =>
      let revoked := (hub.auth.sessions.filter fun row => row.deviceId == device && row.revokedAtMs.isNone).map (·.id)
      { hub with auth }.setRevocation i ⟨caller, some device, .admitted⟩ (.cancelling revoked revoked [] false)
  | _ => hub

def runsOf (sessionId : SessionId) : List Nat :=
  (List.range hub.runs.length).filter fun r =>
    hub.runs[r]?.any fun run => run.loaded && run.sessionId == sessionId

/-- `cancel_session` takes the session's runs from the map. -/
def collect (i : Nat) : AgentHub :=
  match hub.revocations[i]? with
  | some ⟨caller, device, .cancelling revoked (sessionId :: left) [] token⟩ =>
    { hub with collected := sessionId :: hub.collected }.setRevocation i
      ⟨caller, device, .cancelling revoked (sessionId :: left) [] token⟩
      (.cancelling revoked left (hub.runsOf sessionId) false)
  | _ => hub

def cancelToken (i : Nat) : AgentHub :=
  match hub.revocations[i]? with
  | some ⟨caller, device, .cancelling revoked left (r :: runs) false⟩ =>
    match hub.runs[r]? with
    | some run =>
      (hub.setRun r { run with state := { run.state with cancel := true } }).setRevocation i
        ⟨caller, device, .cancelling revoked left (r :: runs) false⟩ (.cancelling revoked left (r :: runs) true)
    | none => hub
  | _ => hub

/-- What `finalize` answers is ignored. -/
def cancelFinalize (i : Nat) : AgentHub :=
  match hub.revocations[i]? with
  | some ⟨caller, device, .cancelling revoked left (r :: runs) true⟩ =>
    match hub.runs[r]? with
    | some run =>
      (hub.setRun r { run with state := run.state.settle .cancelled none .default }).setRevocation i
        ⟨caller, device, .cancelling revoked left (r :: runs) true⟩ (.cancelling revoked left runs false)
    | none => hub
  | _ => hub

def answer (i : Nat) : AgentHub :=
  match hub.revocations[i]? with
  | some ⟨caller, device, .cancelling revoked [] [] token⟩ =>
    hub.setRevocation i ⟨caller, device, .cancelling revoked [] [] token⟩ (.answered revoked)
  | _ => hub

end

/-! ## Runs -/

section
variable (config : HubConfig) (digest : CreateRunBody → List UInt8) (resultDigest : ToolResultBody → List UInt8)
  (hub : AgentHub)

/-- A run that was launched goes on; its permit returns when its task ends. -/
def onRun (r : Nat) (event : RunEvent) : AgentHub :=
  match hub.runs[r]? with
  | none => hub
  | some run =>
    if !run.launched then hub
    else
      let state := run.state.step resultDigest event
      let stepped := hub.setRun r { run with state }
      if run.state.task ≠ .ended ∧ state.task = .ended then stepped.release else stepped

def load (sessionId : SessionId) (r : Nat) : AgentHub :=
  match hub.loadOwnedRun sessionId r with
  | .ok loaded => loaded
  | .error _ => hub

def sweepRuns (now : Millis) : AgentHub :=
  { hub with runs := hub.runs.map fun run =>
      if run.state.inner.status.isTerminal ∧ run.expiresAtMs < now - config.eventRetentionMs then
        { run with loaded := false }
      else run }

def sweepRows (now : Millis) : AgentHub :=
  { hub with runs := hub.runs.map fun run =>
      if run.state.stored.status.isTerminal ∧ run.expiresAtMs < now - config.eventRetentionMs then
        { run with stored := false }
      else run }

def step : HubEvent → AgentHub
  | .create sessionId body now => hub.create sessionId body now
  | .permit i refusal => hub.permit i refusal
  | .lookup i => hub.lookup config digest i
  | .acquire i => hub.acquire i
  | .transact i now => hub.transact config digest i now
  | .launch i => hub.launch i
  | .replay i => hub.replay i
  | .revokeRequest sessionId device now => hub.revokeRequest sessionId device now
  | .revoke i now => hub.revoke i now
  | .collect i => hub.collect i
  | .cancelToken i => hub.cancelToken i
  | .cancelFinalize i => hub.cancelFinalize i
  | .answer i => hub.answer i
  | .run r event => hub.onRun resultDigest r event
  | .load sessionId r => hub.load sessionId r
  | .sweepRuns now => hub.sweepRuns config now
  | .sweepRows now => hub.sweepRows config now
  | .login id principalId deviceId expiresAtMs =>
    match insertSession hub.auth id principalId deviceId expiresAtMs with
    | .ok auth => { hub with auth }
    | .error _ => hub
  | .rotate id expiresAtMs => { hub with auth := rotateSession hub.auth id expiresAtMs }
  | .tables auth => { hub with auth := { auth with sessions := hub.auth.sessions } }

end

section
variable (config : HubConfig) (digest : CreateRunBody → List UInt8) (resultDigest : ToolResultBody → List UInt8)
  (auth : AuthorityTables)

def after (events : List HubEvent) : AgentHub :=
  Transition.run (fun hub e => step config digest resultDigest hub e) (init config auth) events

end

end AgentHub

end Marks.Agent
