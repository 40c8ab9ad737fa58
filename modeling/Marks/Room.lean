import Marks.Store

/-! # The room task

The owner of one document's live replica. Frames are staged one by one against the replica and the
receipts already stored, the staged batch is committed in one transaction, and only then are receipts
and relays sent. Whether a socket's outbound queue is full when a message is offered is up to the
environment. -/

namespace Marks

abbrev ConnId := Nat
abbrev TaskId := Nat

structure Config where
  maxFrameBytes : Nat
  maxMutationsPerSecond : Nat
  maxMutationBytesPerSecond : Nat
  maxConnectionsPerRoom : Nat
  compactEveryUpdates : Nat
  compactEveryOperations : Nat
  commitBatchMax : Nat
deriving DecidableEq, Repr

/-- What the room task is given. `full t n` says that the receiver of the `n`-th message task `t`
offers has no room for it, and `retires` which connection's presence a presence frame retires. -/
structure Env where
  engine : Engine
  config : Config
  sha256 : Bytes → Bytes
  full : TaskId → Nat → Bool
  retires : TaskId → Nat → ConnId → Bytes → Option ConnId

structure Socket where
  actor : RoomActor
  mutationWindow : Nat
  mutationsInWindow : Nat
  mutationBytesInWindow : Nat
deriving DecidableEq, Repr

structure RoomRead where
  text : List Char
  fullSnapshot : Option Bytes
  compactSnapshot : Option Bytes
  connections : Nat
deriving DecidableEq, Repr

/-- What is observed of a room: rows becoming durable, rate decisions, messages on their way out. -/
inductive Output where
  | durable (row : CommitRow) (changed : Bool)
  | rate (conn : ConnId) (allowed : Bool)
  | sent (conn : ConnId) (message : OutMsg)
deriving DecidableEq, Repr

structure Room (E : Engine) where
  id : TaskId
  document : E.Doc
  /-- Last committed journal revision. -/
  revision : Nat
  /-- Journal rows since the last snapshot compaction. -/
  sinceCompact : Nat
  epoch : Nat
  sockets : List (ConnId × Socket)
  nextConn : ConnId
  dead : Option CloseCode
  attempts : Nat
  out : List Output

/-- An inbound frame and the time the room gets to it. -/
structure Inbound where
  conn : ConnId
  data : Bytes
  now : Millis
deriving DecidableEq, Repr

inductive CommitAction where
  | receipt
  | update (journal : Bytes) (acceptedOperations : List Operation) (chars : Nat)
  | snapshot (compact : Bytes) (acceptedRanges : List AcceptedRange) (chars : Nat)
deriving DecidableEq, Repr

def CommitAction.changes : CommitAction → Bool
  | receipt => false
  | update .. => true
  | snapshot .. => true

def CommitAction.chars : CommitAction → Option Nat
  | receipt => none
  | update _ _ chars => some chars
  | snapshot _ _ chars => some chars

def CommitAction.isSnapshot : CommitAction → Bool
  | snapshot .. => true
  | _ => false

structure PreparedCommit where
  conn : ConnId
  id : MessageId
  kind : MutationKind
  digest : Bytes
  revision : Nat
  version : Bytes
  actor : ActorReceipt
  committedAt : Millis
  action : CommitAction
  relay : Option OutMsg
deriving DecidableEq, Repr

def PreparedCommit.row (commit : PreparedCommit) : CommitRow :=
  ⟨commit.id, commit.digest, commit.kind, commit.revision, commit.actor.author, commit.committedAt⟩

structure PendingAck where
  conn : ConnId
  id : MessageId
  revision : Nat
  version : Bytes
deriving DecidableEq, Repr

structure SeenMutation where
  id : MessageId
  kind : MutationKind
  digest : Bytes
  revision : Nat
  version : Bytes
deriving DecidableEq, Repr

/-- The locals of `frames` while it walks its frames. -/
structure Batch where
  durableVersion : Bytes
  nextRevision : Nat
  nextSinceCompact : Nat
  prepared : List PreparedCommit
  pendingAcks : List PendingAck
  seen : List SeenMutation
deriving DecidableEq, Repr

inductive JoinRefusal
  | gone
  | stale
  | capacity
  | internal
deriving DecidableEq, Repr

inductive Control where
  | deleted
  | epochChanged (epoch : Nat)
  | sessionRevoked (sessionId : SessionId)
  | deviceRevoked (deviceId : DeviceId)
deriving DecidableEq, Repr

inductive RoomControl where
  | authority (control : Control)
  | leave (conn : ConnId)
deriving DecidableEq, Repr

namespace Room

variable (env : Env) (room : Room env.engine)

def record (outputs : List Output) : Room env.engine := { room with out := room.out ++ outputs }

/-! ## Sockets -/

def socket (conn : ConnId) : Option Socket := room.sockets.lookup conn

def setSocket (conn : ConnId) (socket : Socket) : Room env.engine :=
  { room with sockets := room.sockets.map fun entry =>
      if entry.1 = conn then (conn, socket) else entry }

def removeSocket (conn : ConnId) : Room env.engine :=
  { room with sockets := room.sockets.filter fun entry => entry.1 ≠ conn }

/-- `try_send`: offer a message to a socket's queue. -/
def trySend (conn : ConnId) (message : OutMsg) : Room env.engine × Bool :=
  if env.full room.id room.attempts then ({ room with attempts := room.attempts + 1 }, false)
  else
    ({ room with attempts := room.attempts + 1, out := room.out ++ [.sent conn message] }, true)

def closeOne (conn : ConnId) (code : CloseCode) : Room env.engine :=
  if (room.socket env conn).isSome then
    ((room.removeSocket env conn).trySend env conn (.close code)).1
  else room

def closeEach (conns : List ConnId) (code : CloseCode) : Room env.engine :=
  conns.foldl (fun room conn => room.closeOne env conn code) room

def closeAll (code : CloseCode) : Room env.engine :=
  room.closeEach env (room.sockets.map (·.1)) code

def poison (code : CloseCode) : Room env.engine :=
  { room.closeAll env code with dead := some code }

/-- Offer a message to every socket but `origin`; those whose queue is full are returned. -/
def offer (origin : ConnId) (message : OutMsg) :
    List ConnId → Room env.engine → List ConnId → Room env.engine × List ConnId
  | [], room, evicted => (room, evicted)
  | conn :: conns, room, evicted =>
    if conn = origin then offer origin message conns room evicted
    else
      let sent := room.trySend env conn message
      offer origin message conns sent.1 (if sent.2 then evicted else evicted ++ [conn])

def broadcast (origin : ConnId) (message : OutMsg) : Room env.engine :=
  let offered := offer env origin message (room.sockets.map (·.1)) room []
  offered.1.closeEach env offered.2 closeInternal

def acknowledge (conn : ConnId) (id : MessageId) (revision : Nat) (version : Bytes) :
    Room env.engine :=
  match encodeCommitted id revision version with
  | none => room.poison env closeInternal
  | some receipt =>
    if (room.socket env conn).isSome then
      let sent := room.trySend env conn (.committed receipt)
      if sent.2 then sent.1 else sent.1.closeOne env conn closeInternal
    else room

def acknowledgeAll (acks : List PendingAck) : Room env.engine :=
  acks.foldl (fun room ack => room.acknowledge env ack.conn ack.id ack.revision ack.version) room

/-! ## Joining and reading -/

/-- The server's version, then a delta where the client's version covers retained history and a
snapshot otherwise. -/
def initialFrames (clientVersion : Option Version) : Option (List OutMsg) :=
  let E := env.engine
  let version := OutMsg.serverVv (E.encodeVersion (E.version room.document))
  match clientVersion.bind (E.exportUpdate room.document) with
  | some bytes => some [version, .update bytes, .synced]
  | none =>
    match (E.exportCompactSnapshot room.document).orElse fun _ =>
        E.exportFullSnapshot room.document with
    | some snapshot => some [version, .snapshot snapshot, .synced]
    | none => none

def sendInitial (conn : ConnId) : List OutMsg → Room env.engine → Room env.engine × Bool
  | [], room => (room, true)
  | message :: messages, room =>
    let sent := room.trySend env conn message
    if sent.2 then sendInitial conn messages sent.1 else (sent.1, false)

def join (actor : RoomActor) (clientVersion : Option Version) (now : Millis) :
    Room env.engine × Except JoinRefusal ConnId :=
  if room.dead.isSome then (room, .error .gone)
  else if actor.authorizationEpoch ≠ room.epoch then (room, .error .stale)
  else if env.config.maxConnectionsPerRoom ≤ room.sockets.length then (room, .error .capacity)
  else
    match room.initialFrames env clientVersion with
    | none => (room, .error .internal)
    | some frames =>
      let conn := room.nextConn
      let sent := sendInitial env conn frames room
      if sent.2 then
        ({ sent.1 with
          nextConn := conn + 1
          sockets := sent.1.sockets ++ [(conn, ⟨actor, now / 1000, 0, 0⟩)] }, .ok conn)
      else (sent.1, .error .internal)

def read : RoomRead where
  text := env.engine.text room.document
  fullSnapshot := env.engine.exportFullSnapshot room.document
  compactSnapshot := env.engine.exportCompactSnapshot room.document
  connections := room.sockets.length

/-! ## Staging -/

/-- The fixed-window limiter of one socket. -/
def allowMutation (now : Millis) (conn : ConnId) (bytes : Nat) : Room env.engine × Bool :=
  match room.socket env conn with
  | none => (room, false)
  | some socket =>
    let window := now / 1000
    let socket := if socket.mutationWindow ≠ window then ⟨socket.actor, window, 0, 0⟩ else socket
    let socket := { socket with
      mutationsInWindow := socket.mutationsInWindow + 1
      mutationBytesInWindow := socket.mutationBytesInWindow + bytes }
    (room.setSocket env conn socket,
      socket.mutationsInWindow ≤ env.config.maxMutationsPerSecond &&
        socket.mutationBytesInWindow ≤ env.config.maxMutationBytesPerSecond)

inductive CommitLookup where
  | missing
  | hit (revision : Nat)
  | conflict
deriving DecidableEq, Repr

def lookupCommit (store : DocumentStore) (mutation : Mutation) (digest : Bytes) : CommitLookup :=
  match store.commits.find? (·.messageId == mutation.id) with
  | none => .missing
  | some row =>
    if row.payloadHash = digest ∧ row.kind = mutation.kind then .hit row.revision else .conflict

def mutationDigest (mutation : Mutation) : Bytes :=
  env.sha256 (mutation.kind.toByte :: mutation.payload)

def snapshotEnvelope (payload : Bytes) : Bool :=
  match env.engine.classify payload with
  | some .compactSnapshot => true
  | some .fullSnapshot => true
  | _ => false

/-- `u64::checked_add(1)`. -/
def nextRevision (revision : Nat) : Option Nat :=
  if revision + 1 < 2 ^ 64 then some (revision + 1) else none

/-- A mutation applied to the replica, not yet committed. -/
structure Staged where
  revision : Nat
  sinceCompact : Nat
  version : Bytes
  action : CommitAction
  relay : Option OutMsg
deriving DecidableEq, Repr

inductive Staging (E : Engine) where
  | refused
  | poisoned (document : E.Doc)
  | staged (document : E.Doc) (staged : Staged)

def stageUpdate (batch : Batch) (site : SiteId) (payload : Bytes) : Staging env.engine :=
  let E := env.engine
  match E.decode payload with
  | some (.update update) =>
    if (E.operations update).all fun operation =>
        operation.origin == site && sequenceFitsStorage operation.seq then
      match E.applyUpdate room.document update with
      | none => .refused
      | some (document, receipt) =>
        let version := E.encodeVersion receipt.version
        match receipt.journalBytes with
        | some journal =>
          match nextRevision batch.nextRevision with
          | none => .poisoned document
          | some revision =>
            .staged document ⟨revision, batch.nextSinceCompact + 1, version,
              .update journal receipt.acceptedOperations (E.len document), some (.update journal)⟩
        | none =>
          .staged document ⟨batch.nextRevision, batch.nextSinceCompact, version, .receipt, none⟩
    else .refused
  | _ => .refused

/-- The version a snapshot artifact declares. -/
def snapshotVersion (payload : Bytes) : Option Version :=
  match env.engine.decode payload with
  | some (.compactSnapshot version) => some version
  | some (.fullSnapshot version) => some version
  | _ => none

def stageSnapshot (batch : Batch) (site : SiteId) (payload : Bytes) : Staging env.engine :=
  let E := env.engine
  let before := E.version room.document
  match snapshotVersion env payload with
  | none => .refused
  | some incoming =>
    if !versionFitsStorage incoming || versionHasNewSiteOtherThan before incoming site then .refused
    else
      match E.applySnapshotBytes room.document payload with
      | none => .refused
      | some (document, after) =>
        let version := E.encodeVersion after
        if after = before then
          .staged document ⟨batch.nextRevision, batch.nextSinceCompact, version, .receipt, none⟩
        else
          match E.exportCompactSnapshot document with
          | none => .poisoned document
          | some compact =>
            match nextRevision batch.nextRevision with
            | none => .poisoned document
            | some revision =>
              .staged document ⟨revision, 0, version,
                .snapshot compact (newReceiptRanges before after) (E.len document),
                some (.snapshot compact)⟩

def stageMutation (batch : Batch) (site : SiteId) (mutation : Mutation) : Staging env.engine :=
  match mutation.kind with
  | .update => room.stageUpdate env batch site mutation.payload
  | .snapshot => room.stageSnapshot env batch site mutation.payload


def pushCommit (batch : Batch) (conn : ConnId) (mutation : Mutation) (digest : Bytes)
    (actor : ActorReceipt) (now : Millis) (staged : Staged) : Batch :=
  { batch with
    nextRevision := staged.revision
    nextSinceCompact := staged.sinceCompact
    seen := batch.seen ++ [⟨mutation.id, mutation.kind, digest, staged.revision, staged.version⟩]
    prepared := batch.prepared ++ [⟨conn, mutation.id, mutation.kind, digest, staged.revision,
      staged.version, actor, now, staged.action, staged.relay⟩] }

def pushAck (batch : Batch) (ack : PendingAck) : Batch :=
  { batch with pendingAcks := batch.pendingAcks ++ [ack] }

def prepareMutation (db : Database) (storage : Storage) (batch : Batch) (conn : ConnId)
    (now : Millis) (encoded : Bytes) : Room env.engine × Batch :=
  match decodeMutation encoded, room.socket env conn with
  | none, _ => (room.closeOne env conn closeInvalidPayload, batch)
  | some _, none => (room, batch)
  | some mutation, some socket =>
    if !authorizeRoomAction socket.actor .editText then
      (room.closeOne env conn closeForbiddenWrite, batch)
    else if (mutation.kind == .snapshot) != snapshotEnvelope env mutation.payload then
      (room.closeOne env conn closeInvalidPayload, batch)
    else
      let digest := mutationDigest env mutation
      match batch.seen.find? (·.id == mutation.id) with
      | some prior =>
        if prior.kind = mutation.kind ∧ prior.digest = digest then
          (room, pushAck batch ⟨conn, mutation.id, prior.revision, prior.version⟩)
        else (room.closeOne env conn closeInvalidPayload, batch)
      | none =>
        if storage ≠ .ok then (room.poison env closeInternal, batch)
        else
          match lookupCommit db.store mutation digest with
          | .hit revision =>
            (room, pushAck batch ⟨conn, mutation.id, revision, batch.durableVersion⟩)
          | .conflict => (room.closeOne env conn closeInvalidPayload, batch)
          | .missing =>
            let actor := actorReceipt socket.actor
            match room.stageMutation env batch actor.site mutation with
            | .refused => (room.closeOne env conn closeInvalidPayload, batch)
            | .poisoned document => ({ room with document }.poison env closeInternal, batch)
            | .staged document staged =>
              ({ room with document }, pushCommit batch conn mutation digest actor now staged)

/-- The presence lane touches no durable state; retiring an instance may evict slow sockets. -/
def clientPresence (conn : ConnId) (payload : Bytes) : Room env.engine :=
  match env.retires room.id room.attempts conn payload with
  | some other => room.broadcast env other .ephemeral
  | none => room

/-- One turn of the loop in `frames`. -/
def stageFrame (db : Database) (storage : Storage) (batch : Batch) (frame : Inbound) :
    Room env.engine × Batch :=
  if room.dead.isSome then (room, batch)
  else
    match frame.data with
    | [] => (room, batch)
    | tag :: payload =>
      if env.config.maxFrameBytes < frame.data.length then
        (room.closeOne env frame.conn closeInvalidPayload, batch)
      else if tag = msgMutation then
        let rated := room.allowMutation env frame.now frame.conn payload.length
        let room := rated.1.record env [.rate frame.conn rated.2]
        if rated.2 then room.prepareMutation env db storage batch frame.conn frame.now payload
        else (room.closeOne env frame.conn closeCapacity, batch)
      else if tag = msgEphemeral ∨ tag = msgPresenceDelta then
        (room.clientPresence env frame.conn payload, batch)
      else if tag = msgUpdate ∨ tag = msgSnapshot then
        (room.closeOne env frame.conn closeInvalidPayload, batch)
      else (room, batch)

def startBatch : Batch where
  durableVersion := env.engine.encodeVersion (env.engine.version room.document)
  nextRevision := room.revision
  nextSinceCompact := room.sinceCompact
  prepared := []
  pendingAcks := []
  seen := []

/-! ## Committing -/

/-- Fails closed for a missing, deleted or re-authorized document. -/
def requireLiveEpoch (auth : AuthorityTables) (epoch : Nat) : Except ApiError Unit :=
  if !auth.live then .error .notFound
  else if auth.epoch ≠ epoch then .error .conflict
  else .ok ()

/-- Re-check the admitted actor in the transaction that appends its mutation. -/
def requireLiveActor (auth : AuthorityTables) (author : Author) (now : Millis) : Bool :=
  match author.kind with
  | .scratch =>
    match auth.loadScratch author.id with
    | some scratch => requireLiveScratch scratch now && author.sessionId.isNone
    | none => false
  | .principal =>
    match author.sessionId.bind auth.loadSession with
    | none => false
    | some session =>
      session.revokedAtMs.isNone && now < session.expiresAtMs && session.principalId == author.id &&
        (match auth.loadDevice session.deviceId, auth.loadPrincipal author.id with
        | some device, some principal =>
          device.revokedAtMs.isNone && device.principalId == author.id &&
            requireActivePrincipal principal
        | _, _ => false)

def insertOpAuthors (author : Author) (now : Millis) :
    List Operation → DocumentStore → Except ApiError DocumentStore
  | [], store => .ok store
  | operation :: operations, store =>
    match store.insertOpAuthor ⟨operation.origin, operation.seq, author, now⟩ with
    | .ok store => insertOpAuthors author now operations store
    | .error error => .error error

def insertOpAuthorRanges (author : Author) (now : Millis) :
    List AcceptedRange → DocumentStore → Except ApiError DocumentStore
  | [], store => .ok store
  | range :: ranges, store =>
    match store.insertOpAuthorRange ⟨range, author, now⟩ with
    | .ok store => insertOpAuthorRanges author now ranges store
    | .error error => .error error

/-- The rows of one commit's action. -/
def writeAction (commit : PreparedCommit) (store : DocumentStore) : Except ApiError DocumentStore :=
  let author := commit.actor.author
  match commit.action with
  | .receipt => .ok store
  | .update journal operations _ =>
    match store.insertUpdate ⟨commit.revision, journal, author, commit.committedAt⟩ with
    | .ok store => insertOpAuthors author commit.committedAt operations store
    | .error error => .error error
  | .snapshot compact ranges _ =>
    match insertOpAuthorRanges author commit.committedAt ranges store with
    | .ok store => .ok (store.setSnapshot compact commit.revision)
    | .error error => .error error

/-- The commits of a batch in order, each distinct actor validated once. -/
def writeCommits (auth : AuthorityTables) (now : Millis) :
    List Author → List PreparedCommit → DocumentStore → Except ApiError DocumentStore
  | _, [], store => .ok store
  | validated, commit :: commits, store =>
    if !validated.contains commit.actor.author && !requireLiveActor auth commit.actor.author now then
      .error .conflict
    else
      match writeAction commit store with
      | .error error => .error error
      | .ok store =>
        match store.insertCommit commit.row with
        | .error error => .error error
        | .ok store => writeCommits auth now (commit.actor.author :: validated) commits store

def batchMetadata (prepared : List PreparedCommit) : Option (Nat × Millis) :=
  prepared.reverse.findSome? fun commit =>
    commit.action.chars.map fun chars => (chars, commit.committedAt)

def isAnonymousEdit (commit : PreparedCommit) : Bool :=
  commit.actor.author.kind == .scratch && commit.action.changes

def latest (times : List Millis) : Millis := times.foldl max 0

/-- The transaction of `commit_batch`. -/
def commitTx (db : Database) (epoch : Nat) (authorityCheckedAt : Millis)
    (prepared : List PreparedCommit) (compact : Option Bytes) (nextRevision : Nat) :
    Except ApiError Database :=
  match requireLiveEpoch db.auth epoch with
  | .error error => .error error
  | .ok () =>
    match writeCommits db.auth authorityCheckedAt [] prepared db.store with
    | .error error => .error error
    | .ok store =>
      let store := match batchMetadata prepared with
        | some (chars, now) => store.updateDocumentMetadata chars now
        | none => store
      let anonymous := prepared.filter isAnonymousEdit
      let store := store.addAnonymousEdits db.auth.document.publicEdit anonymous.length
        (latest (anonymous.map (·.committedAt)))
      .ok { db with store := compact.elim store fun snapshot => store.compactAt snapshot nextRevision }

def commitCloseCode : ApiError → CloseCode
  | .notFound => closeDocumentDeleted
  | .conflict => closeUnauthorized
  | _ => closeInternal

def prune : Room env.engine :=
  match env.engine.pruneHistoryThrough room.document (env.engine.version room.document) with
  | some document => { room with document }
  | none => room

def shouldCompact (nextSinceCompact : Nat) : Bool :=
  0 < nextSinceCompact && (env.config.compactEveryUpdates ≤ nextSinceCompact ||
    env.config.compactEveryOperations ≤ env.engine.retainedOperations room.document)

/-- The snapshot of a due compaction: `none` when its export fails, `some none` when none is due. -/
def batchSnapshot (nextSinceCompact : Nat) : Option (Option Bytes) :=
  if room.shouldCompact env nextSinceCompact then
    (env.engine.exportCompactSnapshot room.document).map some
  else some none

def announce (prepared : List PreparedCommit) : Room env.engine :=
  prepared.foldl (fun room commit =>
    let room := room.acknowledge env commit.conn commit.id commit.revision commit.version
    match commit.relay with
    | some message => room.broadcast env commit.conn message
    | none => room) room

def recordDurable (durable : Bool) (prepared : List PreparedCommit) : Room env.engine :=
  if durable then
    room.record env (prepared.map fun commit => .durable commit.row commit.action.changes)
  else room

/-- The room once its batch is durable. -/
def settle (compact : Option Bytes) (batch : Batch) : Room env.engine :=
  let room := { room with
    revision := batch.nextRevision
    sinceCompact := if compact.isSome then 0 else batch.nextSinceCompact }
  if compact.isSome || batch.prepared.any (·.action.isSnapshot) then room.prune env else room

def commitBatch (db : Database) (storage : Storage) (now : Millis) (batch : Batch) :
    Database × Room env.engine :=
  match room.batchSnapshot env batch.nextSinceCompact with
  | none => (db, room.poison env closeInternal)
  | some compact =>
    let committed := db.tx storage
      (commitTx db room.epoch now batch.prepared compact batch.nextRevision)
    let room := room.recordDurable env committed.durable batch.prepared
    match committed.result with
    | .error error => (committed.db, room.poison env (commitCloseCode error))
    | .ok () =>
      let room := (room.settle env compact batch).announce env batch.prepared
      (committed.db, room.acknowledgeAll env batch.pendingAcks)

/-- The end of `frames`, once every frame is staged. -/
def finishFrames (db : Database) (storage : Storage) (now : Millis) (batch : Batch) :
    Database × Room env.engine :=
  if room.dead.isSome then (db, room)
  else if batch.prepared = [] then (db, room.acknowledgeAll env batch.pendingAcks)
  else room.commitBatch env db storage now batch

def stageFrames (db : Database) (frames : List Inbound) (start : Room env.engine × Batch) :
    Room env.engine × Batch :=
  frames.foldl (fun state frame => state.1.stageFrame env db .ok state.2 frame) start

/-- `frames` with nothing else running and storage sound. -/
def frames (db : Database) (now : Millis) (frames : List Inbound) : Database × Room env.engine :=
  let staged := stageFrames env db frames (room, room.startBatch env)
  staged.1.finishFrames env db .ok now staged.2

/-! ## Compaction and control -/

def compactTx (db : Database) (snapshot : Bytes) (revision : Nat) : Except ApiError Database :=
  if !db.auth.live then .error .notFound
  else .ok { db with store := db.store.compactAt snapshot revision }

/-- Compact a causally closed prefix; a failed export or transaction only skips it. -/
def compact (db : Database) (storage : Storage) : Database × Room env.engine :=
  if room.sinceCompact = 0 then (db, room)
  else
    match env.engine.exportCompactSnapshot room.document with
    | none => (db, room)
    | some snapshot =>
      let compacted := db.tx storage (compactTx db snapshot room.revision)
      match compacted.result with
      | .ok () => (compacted.db, { room with sinceCompact := 0 }.prune env)
      | .error _ => (compacted.db, room)

/-- The actor as the store resolves it now, under the room's epoch. -/
def reresolveActor (auth : AuthorityTables) (now : Millis) : RoomActor → Option RoomActor
  | .principal actor =>
    (auth.principalRole actor.principalId).map fun role =>
      .principal { actor with role, authorizationEpoch := room.epoch }
  | .scratch actor =>
    let live : Bool := match auth.loadScratch actor.scratchId with
      | some scratch => requireLiveScratch scratch now
      | none => false
    if live ∧ (requireScratchDocument auth.document.record actor.scratchId ∨ auth.document.publicEdit)
    then some (.scratch { actor with authorizationEpoch := room.epoch })
    else none

def applyResolved (room : Room env.engine) (entry : ConnId × Option RoomActor) : Room env.engine :=
  match entry.2, room.socket env entry.1 with
  | some actor, some socket => room.setSocket env entry.1 { socket with actor }
  | some _, none => room
  | none, _ => room.closeOne env entry.1 closeUnauthorized

/-- Every actor is re-resolved against the store, demoted in place, or closed. -/
def reresolveSockets (auth : AuthorityTables) (storage : Storage) (now : Millis) :
    Room env.engine :=
  if storage ≠ .ok then { room.closeAll env closeInternal with dead := some closeInternal }
  else
    let resolved := room.sockets.map fun entry =>
      (entry.1, if auth.live then room.reresolveActor env auth now entry.2.actor else none)
    resolved.foldl (applyResolved env) room

def closeMatching (p : RoomActor → Bool) : Room env.engine :=
  room.closeEach env ((room.sockets.filter fun entry => p entry.2.actor).map (·.1)) closeUnauthorized

def control (db : Database) (storage : Storage) (now : Millis) :
    RoomControl → Database × Room env.engine
  | .leave conn =>
    let room := room.removeSocket env conn
    if room.sockets = [] ∧ room.dead = none then room.compact env db storage else (db, room)
  | .authority .deleted =>
    (db, { room.closeAll env closeDocumentDeleted with dead := some closeDocumentDeleted })
  | .authority (.epochChanged epoch) =>
    (db, { room with epoch }.reresolveSockets env db.auth storage now)
  | .authority (.sessionRevoked sessionId) =>
    (db, room.closeMatching env fun
      | .principal actor => actor.sessionId == sessionId
      | .scratch _ => false)
  | .authority (.deviceRevoked deviceId) =>
    (db, room.closeMatching env fun
      | .principal actor => actor.deviceId == deviceId
      | .scratch _ => false)

end Room

end Marks
