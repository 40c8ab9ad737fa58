import Marks.Runs
import Marks.Store
import Marks.Journal

/-! # A client session

One page with a document open in service mode, its journal, and the server as far as the page can tell.
Work on the journal is queued in one lane and settles later than it is asked for; an event is what the
page does without awaiting, or the settling of the work at the head of the lane. -/

namespace Marks

inductive ConnectionStatus
  | connecting
  | saving
  | connected
  | offline
deriving DecidableEq, Repr

/-- Work in the journal's lane, with what its caller captured. -/
inductive JournalJob where
  | append (fallback : ReplicaJournalRecord) (mutation : JournalMutation) (broadcastTab : Bool)
  | checkpoint (fallback : ReplicaJournalRecord)
  | acknowledge (fallback : ReplicaJournalRecord) (receipt : CommitReceipt)
deriving DecidableEq, Repr

def JournalJob.isAppend : JournalJob → Bool
  | append .. => true
  | _ => false

inductive ServerMsg where
  | serverVv (version : Bytes)
  | update (bytes : Bytes)
  | snapshot (bytes : Bytes)
  | synced
  | committed (receipt : CommitReceipt)
deriving DecidableEq, Repr

inductive TabMsg where
  | update (bytes : Bytes)
  | snapshot (bytes : Bytes)
deriving DecidableEq, Repr

/-- What is observed of a client. A mutation is `minted` when it enters the pending list, `byTyping` if a
local change emitted it; `written` is a journal transaction and the pending list it leaves. -/
inductive ClientEntry where
  | opened (pending : List JournalMutation)
  | minted (mutation : JournalMutation) (byTyping : Bool)
  | written (pending : List JournalMutation)
  | broadcast (mutation : JournalMutation)
  | sent (site : SiteId) (mutation : JournalMutation)
  | acknowledged (id : MutationId)
deriving DecidableEq, Repr

inductive ClientEvent (E : Esbt) where
  /-- The page opens the document; `site` is the server's, asked for where there is no journal. -/
  | opens (site : SiteId)
  | fetched (bytes : Bytes)
  | checkpoint
  | edit (change : E.Edit)
  | prune (version : Bytes)
  | compact
  | connect
  | socketOpen
  | socketClosing
  | message (message : ServerMsg)
  | disconnect (code : Option CloseCode)
  | offline
  | pageHide
  | tab (message : TabMsg)
  | persist (storage : Storage)
  | crash
  /-- The server commits the mutation of a frame that was sent. -/
  | commit (mutation : JournalMutation)
  /-- The server commits what other replicas sent. -/
  | others (operations : List E.Op)

structure Session (E : Esbt) where
  doc : E.Doc
  marksSiteId : SiteId
  pendingMutations : List JournalMutation
  lastAckedVersion : Option Bytes
  lastServerVV : Option Bytes
  committedRevision : Nat
  localSaved : Bool
  storageFatal : Bool
  destroyed : Bool
  /-- The socket, and whether it is open. -/
  socket : Option Bool
  serverSynced : Bool
  currentStatus : ConnectionStatus
  lane : List JournalJob
  ids : MutationId
  out : List ClientEntry

namespace Session

section
variable {E : Esbt} (s : Session E)

def stopped : Bool := s.destroyed || s.storageFatal

def record (entry : ClientEntry) : Session E := { s with out := s.out ++ [entry] }

def setStatus (status : ConnectionStatus) : Session E :=
  { s with currentStatus := if s.storageFatal then .offline else status }

def enqueue (job : JournalJob) : Session E := { s with lane := s.lane ++ [job] }

def emptyRecord : ReplicaJournalRecord :=
  ⟨s.marksSiteId, [], s.pendingMutations, s.lastAckedVersion, s.committedRevision⟩

def checkpointJournal : Session E :=
  if s.storageFatal then s else s.enqueue (.checkpoint s.emptyRecord)

/-- Storage cannot be relied on: nothing is sent and nothing is asked of it from here on. -/
def recordStorageError : Session E :=
  if s.storageFatal then s
  else { s with
    storageFatal := true
    localSaved := false
    serverSynced := false
    socket := none
    currentStatus := .offline }

/-- A definitive refusal. -/
def enterTerminalRecovery : Session E :=
  if s.stopped then s
  else { s with
    destroyed := true
    serverSynced := false
    socket := none
    currentStatus := .offline }.checkpointJournal

def isDurable : Bool :=
  !s.stopped && s.pendingMutations.isEmpty && s.localSaved && s.serverSynced &&
    s.currentStatus == .connected

/-! ## Sending -/

def canSend : Bool := !s.stopped && s.socket == some true && s.serverSynced

def sendMutation (mutation : JournalMutation) : Session E :=
  if s.canSend then s.record (.sent s.marksSiteId mutation) else s

def sendPendingMutations : Session E :=
  if s.stopped then s
  else s.pendingMutations.foldl (fun s mutation => s.sendMutation mutation) s

/-- The mutation is pending from here on; the rest waits for the journal. -/
def persistAndSendMutation (bytes : Bytes) (kind : MutationKind) (broadcastTab : Bool) : Session E :=
  if s.stopped ∨ bytes = [] then s
  else
    let mutation : JournalMutation := ⟨s.ids, kind, bytes⟩
    let s := { s with
      ids := s.ids + 1
      pendingMutations := s.pendingMutations ++ [mutation] }.record (.minted mutation broadcastTab)
    let s := if s.serverSynced then s.setStatus .saving else s
    s.enqueue (.append s.emptyRecord mutation broadcastTab)

end

variable (E : Esbt) (s : Session E)

def sendMissingSince (encodedVersion : Bytes) : Session E :=
  if s.stopped then s
  else if s.pendingMutations ≠ [] then s.sendPendingMutations
  else
    let connected := if s.serverSynced then s.setStatus .connected else s
    if E.version s.doc = encodedVersion then connected
    else
      match exportReconnectPayload E s.doc encodedVersion with
      | none => s
      | some (kind, bytes) =>
        if bytes = [] then connected else s.persistAndSendMutation bytes kind false

def synchronizeWithServer : Session E :=
  if !s.serverSynced || s.stopped then s
  else if s.pendingMutations ≠ [] then (s.setStatus .saving).sendPendingMutations
  else
    match s.lastServerVV with
    | some version => s.sendMissingSince E version
    | none => s.setStatus .connected

/-! ## Receiving -/

def importRemote (bytes : Bytes) : Session E :=
  if s.stopped ∨ bytes = [] then s
  else
    match E.load s.doc bytes with
    | some doc => { s with doc }
    | none => s

def handleCommitted (receipt : CommitReceipt) : Session E :=
  if s.stopped then s
  else
    let s := { s with
      lastAckedVersion := some receipt.version
      lastServerVV := some receipt.version
      committedRevision := max s.committedRevision receipt.revision }.record (.acknowledged receipt.id)
    s.enqueue (.acknowledge s.emptyRecord receipt)

def onMessage (message : ServerMsg) : Session E :=
  if s.stopped then s
  else
    match message with
    | .update bytes => s.importRemote E bytes
    | .snapshot bytes => s.importRemote E bytes
    | .serverVv version => { s with lastServerVV := some version }
    | .synced => { s with serverSynced := true }.synchronizeWithServer E
    | .committed receipt => s.handleCommitted E receipt

def importFromTab (message : TabMsg) : Session E :=
  match message with
  | .update bytes =>
    if s.stopped ∨ bytes = [] then s
    else
      match E.load s.doc bytes with
      | none => s
      | some doc => { s with doc }.persistAndSendMutation bytes .update false
  | .snapshot bytes =>
    if s.stopped ∨ bytes = [] then s
    else
      match E.load s.doc bytes with
      | none => s
      | some doc =>
        match s.lastServerVV with
        | some version => { s with doc }.sendMissingSince E version
        | none => { s with doc }

/-! ## The page -/

/-- An edit, where the page still takes one. -/
def edit (change : E.Edit) : Session E :=
  if s.stopped then s
  else
    match E.edit s.doc change with
    | none => s
    | some (doc, bytes) =>
      { s with doc, localSaved := false }.persistAndSendMutation bytes .update true

def openSocket : Session E :=
  if s.stopped ∨ s.socket.isSome then s else { s with socket := some false, serverSynced := false }

def onDisconnect (code : Option CloseCode) : Session E :=
  let s := { s with socket := none, serverSynced := false }
  if s.stopped then s
  else
    match code with
    | some code =>
      if code = closeInvalidPayload ∨ code = closeForbiddenWrite ∨ code = closeDocumentDeleted then
        s.enterTerminalRecovery
      else s.setStatus .offline
    | none => s.setStatus .offline

def handleOffline : Session E :=
  { s with
    socket := none
    serverSynced := s.serverSynced && s.socket.isNone }.setStatus .offline

def handlePageHide : Session E := { s.checkpointJournal with socket := none }

/-- `maybePrune`, where it prunes. -/
def maybePrune (version : Bytes) : Session E :=
  if s.storageFatal then s
  else
    match E.pruneHistoryThrough s.doc version with
    | some doc => { s with doc, lastAckedVersion := some version }.checkpointJournal
    | none => s

/-- `compactDurableLocalHistory`, behind its own checkpoint. -/
def compactLocalHistory : Session E :=
  if s.storageFatal then s
  else
    match E.pruneHistoryThrough s.doc (E.version s.doc) with
    | some doc => { s with doc }.checkpointJournal
    | none => s.recordStorageError

/-- What a journal job writes. -/
def written (stored : Option ReplicaJournalRecord) : JournalJob → Option ReplicaJournalRecord
  | .append fallback mutation _ => appendPendingMutation stored fallback mutation
  | .checkpoint fallback =>
    (E.exportFullSnapshot s.doc).map (checkpointReplicaJournal stored fallback)
  | .acknowledge fallback receipt =>
    (E.exportFullSnapshot s.doc).map (acknowledgePendingMutation stored fallback receipt)

/-- The continuation of a job that succeeded. -/
def settled : JournalJob → Session E
  | .append _ mutation broadcastTab =>
    let s := { s with localSaved := true }
    if s.stopped then s
    else
      let s := if broadcastTab then s.record (.broadcast mutation) else s
      if s.serverSynced then s.sendMutation mutation else s
  | .checkpoint _ => { s with localSaved := true }
  | .acknowledge _ receipt =>
    let s := { s with
      pendingMutations := s.pendingMutations.filter fun mutation => mutation.id ≠ receipt.id
      localSaved := true }
    if s.stopped then s
    else if s.pendingMutations = [] then s.sendMissingSince E receipt.version
    else if s.serverSynced then s.setStatus .saving
    else s

def failed : Session E := { s with localSaved := false }.recordStorageError

/-- What the page does at once. -/
def react : ClientEvent E → Session E
  | .fetched bytes => s.importRemote E bytes
  | .checkpoint => s.checkpointJournal
  | .edit change => s.edit E change
  | .prune version => s.maybePrune E version
  | .compact => s.compactLocalHistory E
  | .connect => s.openSocket E
  | .socketOpen => { s with socket := s.socket.map fun _ => true }
  | .socketClosing => { s with socket := s.socket.map fun _ => false }
  | .message message => if s.socket = some true then s.onMessage E message else s
  | .disconnect code => if s.socket.isSome then s.onDisconnect E code else s
  | .offline => s.handleOffline E
  | .pageHide => s.handlePageHide E
  | .tab message => s.importFromTab E message
  | _ => s

end Session

/-! ## The client -/

structure Client (E : Esbt) where
  page : Option (Session E)
  journal : Option ReplicaJournalRecord
  ids : MutationId
  log : List ClientEntry
  /-- The operations of the server's document, and the mutations it holds receipts of. -/
  committed : List E.Op
  receipts : List JournalMutation

namespace Client

variable (E : Esbt) (c : Client E)

def init : Client E := ⟨none, none, 0, [], [], []⟩

def putPage (s : Session E) : Client E :=
  { c with page := some { s with out := [] }, ids := s.ids, log := c.log ++ s.out }

def onPage (f : Session E → Session E) : Client E :=
  match c.page with
  | some s => c.putPage E (f s)
  | none => c

def freshSession (doc : E.Doc) (site : SiteId) : Session E :=
  ⟨doc, site, [], none, none, 0, false, false, false, none, false, .connecting, [], c.ids, []⟩

def importPending (s : Session E) (mutation : JournalMutation) : Session E :=
  match E.load s.doc mutation.bytes with
  | some doc => { s with doc }
  | none => s.recordStorageError

/-- `start`, with what it read from the journal. -/
def startStored (stored : ReplicaJournalRecord) (doc : E.Doc) : Session E :=
  let s := { c.freshSession E doc stored.siteId with
    pendingMutations := stored.pending
    lastAckedVersion := stored.ackedVersion
    committedRevision := stored.committedRevision }
  let s := stored.pending.foldl (importPending E) s
  { s with localSaved := true }.record (.opened stored.pending)

/-- A snapshot that does not load ends the opening, with the checkpoint `destroy` takes. -/
def opens (site : SiteId) : Client E :=
  match c.page, c.journal with
  | some _, _ => c
  | none, none => c.putPage E ((c.freshSession E (E.create site) site).record (.opened []))
  | none, some stored =>
    let blank := E.create stored.siteId
    match if stored.snapshot = [] then some blank else E.load blank stored.snapshot with
    | some doc => c.putPage E (c.startStored E stored doc)
    | none =>
      match E.exportFullSnapshot blank with
      | some snapshot => { c with
          journal := some { stored with snapshot }
          log := c.log ++ [.written stored.pending] }
      | none => c

/-- The work at the head of the lane settles. -/
def persist (storage : Storage) : Client E :=
  match c.page with
  | none => c
  | some s =>
    match s.lane with
    | [] => c
    | job :: lane =>
      let s := { s with lane }
      match if storage = .failed then none else s.written E c.journal job with
      | none => c.putPage E s.failed
      | some stored =>
        let c : Client E := { c with journal := some stored, log := c.log ++ [.written stored.pending] }
        c.putPage E (if storage = .ok then s.settled E job else s.failed)

def commitOp (committed : List E.Op) (op : E.Op) : List E.Op :=
  if committed.any fun known => E.name known == E.name op then committed else committed ++ [op]

def commitOps (operations : List E.Op) : Client E :=
  { c with committed := operations.foldl (commitOp E) c.committed }

def commit (mutation : JournalMutation) : Client E :=
  if c.log.any fun entry => match entry with | .sent _ m => m == mutation | _ => false then
    { c.commitOps E (E.carried mutation.bytes) with receipts := c.receipts ++ [mutation] }
  else c

def step (e : ClientEvent E) : Client E :=
  match e with
  | .opens site => c.opens E site
  | .persist storage => c.persist E storage
  | .crash => { c with page := none }
  | .commit mutation => c.commit E mutation
  | .others operations => c.commitOps E operations
  | _ => c.onPage E fun s => s.react E e

def after (events : List (ClientEvent E)) : Client E :=
  Transition.run (fun c e => Client.step E c e) (init E) events

end Client

end Marks
