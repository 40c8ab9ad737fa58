import Marks.Runs
import Marks.Room

/-! # Rooms

The registry of room tasks of one document, the tasks themselves, the calls that join them, and the
routes that change authority underneath. An event is what one party does without yielding: the `await`
points of the source are the boundaries, and a commit is split where other work may run beside it. -/

namespace Marks

def roomQueueCapacity : Nat := 1024
def controlQueueCapacity : Nat := 64

/-! ## Routes -/

inductive Route where
  | insertPrincipal (id : PrincipalId)
  | insertDevice (id : DeviceId) (principalId : PrincipalId) (revokeDevices : Bool)
  | insertSession (id : SessionId) (principalId : PrincipalId) (deviceId : DeviceId)
      (expiresAtMs : Millis)
  | scratchCreate (id : ScratchId) (expiresAtMs : Millis)
  | rotateSession (caller : AuthenticatedSession) (expiresAtMs : Millis)
  | sessionDelete (caller : AuthenticatedSession) (now : Millis)
  | deviceRevoke (caller : AuthenticatedSession) (target : DeviceId) (now : Millis)
  | sharePut (caller : AuthenticatedSession) (grantee : PrincipalId) (role : DocumentRole)
      (now : Millis)
  | shareDelete (caller : AuthenticatedSession) (grantee : PrincipalId) (now : Millis)
  | linkCreate (caller : AuthenticatedSession) (role : DocumentRole) (tokenHash : Bytes)
      (ttl now : Millis)
  | linkRevoke (caller : AuthenticatedSession) (now : Millis)
  | linkRedeem (caller : AuthenticatedSession) (tokenHash : Bytes) (now : Millis)
  | delete (caller : Caller) (now : Millis)
  | restore (caller : Caller)
  | claim (scratchId : ScratchId) (principalId : PrincipalId) (deviceId : DeviceId) (now : Millis)
  | principalSession (caller : AuthenticatedSession) (requested : Option SiteId) (id : TicketId)
      (secretHash : Bytes) (now : Millis)
  | scratchSession (scratchId : ScratchId) (requested : Option SiteId) (id : TicketId)
      (secretHash : Bytes) (now : Millis)
deriving DecidableEq, Repr

namespace Route

/-- The authority the request was authenticated as, where it carries one. -/
def caller : Route → Option Caller
  | insertPrincipal _ => none
  | insertDevice .. => none
  | insertSession .. => none
  | scratchCreate .. => none
  | rotateSession caller _ => some (.principal caller)
  | sessionDelete caller _ => some (.principal caller)
  | deviceRevoke caller .. => some (.principal caller)
  | sharePut caller .. => some (.principal caller)
  | shareDelete caller .. => some (.principal caller)
  | linkCreate caller .. => some (.principal caller)
  | linkRevoke caller _ => some (.principal caller)
  | linkRedeem caller .. => some (.principal caller)
  | delete caller _ => some caller
  | restore caller => some caller
  | claim scratchId .. => some (.scratch scratchId)
  | principalSession caller .. => some (.principal caller)
  | scratchSession scratchId .. => some (.scratch scratchId)

def apply (db : AuthorityTables) : Route → Except ApiError AuthorityTables
  | insertPrincipal id => Marks.insertPrincipal db id
  | insertDevice id principalId revokeDevices => Marks.insertDevice db id principalId revokeDevices
  | insertSession id principalId deviceId expires =>
    Marks.insertSession db id principalId deviceId expires
  | scratchCreate id expires => Marks.scratchCreate db id expires
  | rotateSession caller expires => .ok (Marks.rotateSession db caller.id expires)
  | sessionDelete caller now => .ok (Marks.sessionDelete db caller.id now)
  | deviceRevoke caller target now => Marks.deviceRevoke db caller target now
  | sharePut caller grantee role now => Marks.sharePut db caller grantee role now
  | shareDelete caller grantee now => Marks.shareDelete db caller grantee now
  | linkCreate caller role tokenHash ttl now => Marks.linkCreate db caller role tokenHash ttl now
  | linkRevoke caller now => Marks.linkRevoke db caller now
  | linkRedeem caller tokenHash now => Marks.linkRedeem db caller tokenHash now
  | delete caller now => deleteDocument db caller now
  | restore caller => restoreDocument db caller
  | claim scratchId principalId deviceId now => Marks.claim db scratchId principalId deviceId now
  | principalSession caller requested id secretHash now =>
    (principalRoomSession db caller requested id secretHash now).map (·.1)
  | scratchSession scratchId requested id secretHash now =>
    (scratchRoomSession db scratchId requested id secretHash now).map (·.1)

/-- The controls a route sends once its transaction is done. -/
def notices (before after : AuthorityTables) : Route → List Control
  | sessionDelete caller _ => [.sessionRevoked caller.id]
  | deviceRevoke _ target _ => [.deviceRevoked target]
  | sharePut .. => [.epochChanged after.epoch]
  | shareDelete .. => [.epochChanged after.epoch]
  | linkCreate .. => [.epochChanged after.epoch]
  | linkRevoke .. => [.epochChanged after.epoch]
  | delete .. => [.deleted]
  | claim scratchId .. =>
    if before.document.record.owner = .scratch scratchId then [.epochChanged after.epoch] else []
  | _ => []

end Route

/-! ## Tasks and calls -/

inductive RoomMsg where
  | join (call : Nat)
  | frame (conn : ConnId) (data : Bytes)
  | read (reader : Nat)
  | shutdown
deriving DecidableEq, Repr

/-- Where the loop of a running task stands. -/
inductive Phase
  | idle
  | collecting (frames : List (ConnId × Bytes))
  | staging (frames : List (ConnId × Bytes)) (batch : Batch)
deriving DecidableEq, Repr

inductive Body (E : Engine) where
  | starting
  /-- Hydration failed: every join is refused until the channel closes. -/
  | refusing
  | running (room : Room E) (phase : Phase)
  /-- `run` has returned; the registry is not yet cleaned. -/
  | exited
  | gone

structure Task (E : Engine) where
  body : Body E
  inbox : List RoomMsg
  lane : List RoomControl
  aborted : Bool

namespace Task

variable {E : Engine} (task : Task E)

/-- The receiver of the task's channels is dropped. -/
def isClosed : Bool :=
  match task.body with
  | .exited => true
  | .gone => true
  | _ => false

/-- `JoinHandle::abort`: the task ends where it next awaits; staging and committing do not await. -/
def abort : Task E :=
  match task.body with
  | .running _ (.staging _ _) => { task with aborted := true }
  | .exited => task
  | _ => { task with body := .gone, inbox := [], lane := [] }

end Task

inductive JoinPhase where
  | looking
  | checking
  | creating
  | holding (task : TaskId)
  | waiting (task : TaskId)
  | answered
deriving DecidableEq, Repr

structure JoinCall where
  actor : RoomActor
  clientVersion : Option Version
  phase : JoinPhase
deriving DecidableEq, Repr

inductive Entry where
  | room (task : TaskId) (output : Output)
  | answered (call : Nat) (result : Except JoinRefusal (TaskId × ConnId)) (live : Bool)
  | read (task : TaskId) (answer : RoomRead)
deriving DecidableEq

structure Server (E : Engine) where
  db : Database
  /-- The document's entry in the registry. -/
  entry : Option TaskId
  tasks : List (Task E)
  joins : List JoinCall
  reads : List Nat
  callers : List Caller
  admitted : List RoomActor
  notices : List Control
  log : List Entry

inductive Event where
  | authenticate (sessionId : SessionId) (now : Millis)
  | authenticateScratch (scratchId : ScratchId) (now : Millis)
  | route (route : Route)
  | admission (ticketId : TicketId) (secretMatches : Bool) (cookie : Option AuthenticatedSession)
      (now : Millis)
  | dispatch (notice : Nat)
  | lose (notice : Nat)
  | join (actor : Nat) (clientVersion : Option Version)
  | joinLookup (call : Nat) (crowded : Bool)
  | joinCheck (call : Nat) (storage : Storage)
  | joinInsert (call : Nat) (crowded : Bool)
  | joinSend (call : Nat)
  | joinTimeout (call : Nat)
  | joinDropped (call : Nat)
  | frame (task : TaskId) (conn : ConnId) (data : Bytes)
  | read (reader : Nat)
  | readTimeout (reader : Nat)
  | leave (task : TaskId) (conn : ConnId)
  | evict (task : TaskId)
  | abandon (task : TaskId)
  | hydrate (task : TaskId) (storage : Storage)
  | control (task : TaskId) (storage : Storage) (now : Millis)
  | receive (task : TaskId) (storage : Storage) (now : Millis)
  | collect (task : TaskId)
  | process (task : TaskId) (storage : Storage) (now : Millis)
  | stage (task : TaskId) (storage : Storage) (now : Millis)
  | commit (task : TaskId) (storage : Storage) (now : Millis)
  | idle (task : TaskId) (storage : Storage)
  | cleanup (task : TaskId)
  | shutdown
  | crash
deriving DecidableEq, Repr

namespace Server

variable (env : Env) (s : Server env.engine)

def setTask (t : TaskId) (task : Task env.engine) : Server env.engine :=
  { s with tasks := s.tasks.set t task }

/-- Put a task's room back, moving what it put out to the log. -/
def putRoom (t : TaskId) (task : Task env.engine) (room : Room env.engine) (phase : Phase) :
    Server env.engine :=
  { s with
    tasks := s.tasks.set t { task with body := .running { room with out := [] } phase }
    log := s.log ++ room.out.map (.room t) }

def abortTask (t : TaskId) : Server env.engine :=
  match s.tasks[t]? with
  | some task => s.setTask env t task.abort
  | none => s

/-- A leave was not acknowledged in time: drop the entry if it is `t`, and abort the task. -/
def evictTask (t : TaskId) : Server env.engine :=
  if s.entry = some t then { s with entry := none }.abortTask env t else s

def closed (t : TaskId) : Bool :=
  match s.tasks[t]? with
  | some task => task.isClosed
  | none => true

/-- `try_send` on a task's control lane. -/
def sendControl (t : TaskId) (control : RoomControl) : Option (Server env.engine) :=
  match s.tasks[t]? with
  | some task =>
    if !task.isClosed ∧ task.lane.length < controlQueueCapacity then
      some (s.setTask env t { task with lane := task.lane ++ [control] })
    else none
  | none => none

/-- `try_send` on a task's message queue. -/
def sendMessage (t : TaskId) (message : RoomMsg) : Option (Server env.engine) :=
  match s.tasks[t]? with
  | some task =>
    if !task.isClosed ∧ task.inbox.length < roomQueueCapacity then
      some (s.setTask env t { task with inbox := task.inbox ++ [message] })
    else none
  | none => none

/-! ## Routes and controls -/

def authenticated : Option Caller → Bool
  | some caller => s.callers.contains caller
  | none => true

def applyRoute (route : Route) : Server env.engine :=
  if s.authenticated env route.caller then
    match route.apply s.db.auth with
    | .error _ => s
    | .ok auth => { s with
        db := { s.db with auth }
        notices := s.notices ++ route.notices s.db.auth auth }
  else s

def admission (ticketId : TicketId) (secretMatches : Bool) (cookie : Option AuthenticatedSession)
    (now : Millis) : Server env.engine :=
  if s.authenticated env (cookie.map .principal) then
    match admitTicket s.db.auth ticketId secretMatches cookie now with
    | .error _ => s
    | .ok (auth, actor) =>
      { s with db := { s.db with auth }, admitted := s.admitted ++ [actor] }
  else s

/-- `dispatch_control`: a lane that takes no message costs the task its life. -/
def dispatchControl (control : Control) : Server env.engine :=
  match s.entry with
  | none => s
  | some t =>
    match s.sendControl env t (.authority control) with
    | some s => if control = .deleted then { s with entry := none } else s
    | none => s.evictTask env t

/-! ## Joins -/

def setJoin (call : Nat) (join : JoinCall) (phase : JoinPhase) : Server env.engine :=
  { s with joins := s.joins.set call { join with phase } }

def answer (call : Nat) (join : JoinCall) (result : Except JoinRefusal (TaskId × ConnId)) :
    Server env.engine :=
  { s.setJoin env call join .answered with log := s.log ++ [.answered call result s.db.auth.live] }

def spawn : Server env.engine :=
  { s with tasks := s.tasks ++ [⟨.starting, [], [], false⟩], entry := some s.tasks.length }

/-- The registry lookups of `entry_tx`: an open entry is used, a closed one removed. -/
def lookupEntry (call : Nat) (join : JoinCall) (crowded : Bool)
    (vacant : Server env.engine → Server env.engine) : Server env.engine :=
  match s.entry.filter fun t => !s.closed env t with
  | some t => s.setJoin env call join (.holding t)
  | none =>
    let s := { s with entry := none }
    if crowded then s.answer env call join (.error .capacity) else vacant s

def stepJoin (call : Nat) (f : JoinCall → Server env.engine) : Server env.engine :=
  match s.joins[call]? with
  | some join => f join
  | none => s

def joinLookup (call : Nat) (crowded : Bool) : Server env.engine :=
  s.stepJoin env call fun join =>
    if join.phase = .looking then
      s.lookupEntry env call join crowded fun s => s.setJoin env call join .checking
    else s

def joinCheck (call : Nat) (storage : Storage) : Server env.engine :=
  s.stepJoin env call fun join =>
    if join.phase ≠ .checking then s
    else if storage ≠ .ok then s.answer env call join (.error .internal)
    else if s.db.auth.live then s.setJoin env call join .creating
    else s.answer env call join (.error .gone)

def joinInsert (call : Nat) (crowded : Bool) : Server env.engine :=
  s.stepJoin env call fun join =>
    if join.phase = .creating then
      s.lookupEntry env call join crowded fun s =>
        (s.spawn env).setJoin env call join (.holding s.tasks.length)
    else s

def joinSend (call : Nat) : Server env.engine :=
  s.stepJoin env call fun join =>
    match join.phase with
    | .holding t =>
      match s.sendMessage env t (.join call) with
      | some s => s.setJoin env call join (.waiting t)
      | none =>
        s.answer env call join (.error (if s.closed env t then .internal else .capacity))
    | _ => s

def joinTimeout (call : Nat) : Server env.engine :=
  s.stepJoin env call fun join =>
    match join.phase with
    | .waiting _ => s.answer env call join (.error .capacity)
    | _ => s

/-- The reply channel of a join was dropped with its task. -/
def joinDropped (call : Nat) : Server env.engine :=
  s.stepJoin env call fun join =>
    match join.phase with
    | .waiting t => if s.closed env t then s.answer env call join (.error .internal) else s
    | _ => s

/-! ## The task loop -/

def stepTask (t : TaskId) (f : Task env.engine → Server env.engine) : Server env.engine :=
  match s.tasks[t]? with
  | some task => f task
  | none => s

def finishTask (t : TaskId) (task : Task env.engine) (body : Body env.engine) : Server env.engine :=
  s.setTask env t { task with body, inbox := [], lane := [] }

def hydrate (t : TaskId) (storage : Storage) : Server env.engine :=
  s.stepTask env t fun task =>
    match task.body with
    | .starting =>
      let hydrated :=
        if storage = .ok ∧ s.db.auth.live then hydrateDocument env.engine s.db.store else none
      match hydrated with
      | some (document, revision) =>
        let room : Room env.engine :=
          ⟨t, document, revision, 0, s.db.auth.epoch, [], 1, none, 0, []⟩
        s.setTask env t { task with body := .running room .idle }
      | none => s.setTask env t { task with body := .refusing }
    | _ => s

/-- Apply the control at the head of the lane. -/
def applyControl (t : TaskId) (task : Task env.engine) (room : Room env.engine) (phase : Phase)
    (control : RoomControl) (lane : List RoomControl) (storage : Storage) (now : Millis) :
    Server env.engine :=
  let controlled := room.control env s.db storage now control
  { s with db := controlled.1 }.putRoom env t { task with lane } controlled.2 phase

def control (t : TaskId) (storage : Storage) (now : Millis) : Server env.engine :=
  s.stepTask env t fun task =>
    match task.body, task.lane with
    | .running room .idle, control :: lane =>
      s.applyControl env t task room .idle control lane storage now
    | _, _ => s

/-- A join reaches the room; a caller that stopped waiting is skipped. -/
def receiveJoin (t : TaskId) (task : Task env.engine) (room : Room env.engine) (call : Nat)
    (now : Millis) : Server env.engine :=
  match s.joins[call]? with
  | some join =>
    if join.phase = .waiting t then
      let joined := room.join env join.actor join.clientVersion now
      (s.putRoom env t task joined.1 .idle).answer env call join (joined.2.map fun conn => (t, conn))
    else s.setTask env t task
  | none => s.setTask env t task

def receiveRunning (t : TaskId) (task : Task env.engine) (room : Room env.engine)
    (message : RoomMsg) (storage : Storage) (now : Millis) : Server env.engine :=
  match message with
  | .join call => s.receiveJoin env t task room call now
  | .frame conn data => s.putRoom env t task room (.collecting [(conn, data)])
  | .read reader =>
    if s.reads.contains reader then
      { s.setTask env t task with
        reads := s.reads.erase reader
        log := s.log ++ [.read t (room.read env)] }
    else s.setTask env t task
  | .shutdown =>
    let compacted := if room.dead = none then room.compact env s.db storage else (s.db, room)
    let s := { s with db := compacted.1 }.putRoom env t task
      (compacted.2.closeAll env closeInternal) .idle
    s.finishTask env t task .exited

/-- A task whose hydration failed refuses joins and drains everything else. -/
def receiveRefusing (t : TaskId) (task : Task env.engine) (message : RoomMsg) :
    Server env.engine :=
  match message with
  | .join call =>
    (s.setTask env t task).stepJoin env call fun join =>
      if join.phase = .waiting t then
        (s.setTask env t task).answer env call join (.error .gone)
      else s.setTask env t task
  | .shutdown => s.finishTask env t task .exited
  | _ => s.setTask env t task

def receive (t : TaskId) (storage : Storage) (now : Millis) : Server env.engine :=
  s.stepTask env t fun task =>
    match task.body, task.inbox with
    | .running room .idle, message :: inbox =>
      if task.lane = [] then s.receiveRunning env t { task with inbox } room message storage now else s
    | .refusing, message :: inbox => s.receiveRefusing env t { task with inbox } message
    | _, _ => s

/-- Drain one more frame behind the first. -/
def collect (t : TaskId) : Server env.engine :=
  s.stepTask env t fun task =>
    match task.body, task.inbox with
    | .running room (.collecting frames), .frame conn data :: inbox =>
      if task.lane = [] ∧ frames.length < env.config.commitBatchMax then
        s.putRoom env t { task with inbox } room (.collecting (frames ++ [(conn, data)]))
      else s
    | _, _ => s

/-- End the drain. A control that ended it is applied before the frames. -/
def process (t : TaskId) (storage : Storage) (now : Millis) : Server env.engine :=
  s.stepTask env t fun task =>
    match task.body with
    | .running room (.collecting frames) =>
      match task.lane with
      | control :: lane =>
        if frames.length < env.config.commitBatchMax then
          let controlled := room.control env s.db storage now control
          { s with db := controlled.1 }.putRoom env t { task with lane } controlled.2
            (.staging frames (controlled.2.startBatch env))
        else s.putRoom env t task room (.staging frames (room.startBatch env))
      | [] => s.putRoom env t task room (.staging frames (room.startBatch env))
    | _ => s

def stage (t : TaskId) (storage : Storage) (now : Millis) : Server env.engine :=
  s.stepTask env t fun task =>
    match task.body with
    | .running room (.staging ((conn, data) :: frames) batch) =>
      let staged := room.stageFrame env s.db storage batch ⟨conn, data, now⟩
      s.putRoom env t task staged.1 (.staging frames staged.2)
    | _ => s

def commit (t : TaskId) (storage : Storage) (now : Millis) : Server env.engine :=
  s.stepTask env t fun task =>
    match task.body with
    | .running room (.staging [] batch) =>
      let finished := room.finishFrames env s.db storage now batch
      let s := { s with db := finished.1 }.putRoom env t task finished.2 .idle
      if task.aborted then s.finishTask env t task .gone else s
    | _ => s

/-- The idle timeout: compact, return, and close the channels. -/
def idle (t : TaskId) (storage : Storage) : Server env.engine :=
  s.stepTask env t fun task =>
    match task.body with
    | .running room .idle =>
      if room.sockets = [] ∧ room.dead = none ∧ task.lane = [] ∧ task.inbox = [] then
        { s with db := (room.compact env s.db storage).1 }.finishTask env t task .exited
      else s
    | _ => s

def cleanup (t : TaskId) : Server env.engine :=
  s.stepTask env t fun task =>
    match task.body with
    | .exited =>
      { s.setTask env t { task with body := .gone } with
        entry := if s.entry = some t then none else s.entry }
    | _ => s

/-- The registry is drained; a task whose queue takes no shutdown is aborted. -/
def shutdown : Server env.engine :=
  match s.entry with
  | none => s
  | some t =>
    let s := { s with entry := none }
    match s.sendMessage env t .shutdown with
    | some s => s
    | none => s.abortTask env t

def abandon (t : TaskId) : Server env.engine :=
  s.stepTask env t fun task =>
    if task.inbox.contains .shutdown then s.setTask env t task.abort else s

/-- The process dies; the database stays. -/
def crash : Server env.engine where
  db := s.db
  entry := none
  tasks := s.tasks.map fun _ => ⟨.gone, [], [], true⟩
  joins := s.joins.map fun join => { join with phase := .answered }
  reads := []
  callers := []
  admitted := []
  notices := []
  log := s.log

def step : Event → Server env.engine
  | .authenticate sessionId now =>
    match cookieSession s.db.auth sessionId now with
    | some session => { s with callers := s.callers ++ [.principal session] }
    | none => s
  | .authenticateScratch scratchId now =>
    match scratchCaller s.db.auth scratchId now with
    | some scratchId => { s with callers := s.callers ++ [.scratch scratchId] }
    | none => s
  | .route route => s.applyRoute env route
  | .admission ticketId secretMatches cookie now => s.admission env ticketId secretMatches cookie now
  | .dispatch notice =>
    match s.notices[notice]? with
    | some control => { s with notices := s.notices.eraseIdx notice }.dispatchControl env control
    | none => s
  | .lose notice => { s with notices := s.notices.eraseIdx notice }
  | .join actor clientVersion =>
    match s.admitted[actor]? with
    | some a => { s with
        admitted := s.admitted.eraseIdx actor
        joins := s.joins ++ [⟨a, clientVersion, .looking⟩] }
    | none => s
  | .joinLookup call crowded => s.joinLookup env call crowded
  | .joinCheck call storage => s.joinCheck env call storage
  | .joinInsert call crowded => s.joinInsert env call crowded
  | .joinSend call => s.joinSend env call
  | .joinTimeout call => s.joinTimeout env call
  | .joinDropped call => s.joinDropped env call
  | .frame t conn data => (s.sendMessage env t (.frame conn data)).getD s
  | .read reader =>
    match s.entry.bind fun t => s.sendMessage env t (.read reader) with
    | some s => { s with reads := s.reads ++ [reader] }
    | none => s
  | .readTimeout reader => { s with reads := s.reads.erase reader }
  | .leave t conn =>
    if s.entry = some t then (s.sendControl env t (.leave conn)).getD (s.evictTask env t) else s
  | .evict t => s.evictTask env t
  | .abandon t => s.abandon env t
  | .hydrate t storage => s.hydrate env t storage
  | .control t storage now => s.control env t storage now
  | .receive t storage now => s.receive env t storage now
  | .collect t => s.collect env t
  | .process t storage now => s.process env t storage now
  | .stage t storage now => s.stage env t storage now
  | .commit t storage now => s.commit env t storage now
  | .idle t storage => s.idle env t storage
  | .cleanup t => s.cleanup env t
  | .shutdown => s.shutdown env
  | .crash => s.crash env

def init (db : Database) : Server env.engine where
  db := db
  entry := none
  tasks := []
  joins := []
  reads := []
  callers := []
  admitted := []
  notices := []
  log := []

def after (db : Database) (events : List Event) : Server env.engine :=
  Transition.run (fun s e => Server.step env s e) (init env db) events

end Server

/-- The database right after the document was created. -/
structure Created (db : Database) : Prop where
  snapshotRevision : db.store.snapshotRevision = 0
  updates : db.store.updates = []
  commits : db.store.commits = []
  tickets : db.auth.tickets = []

end Marks
