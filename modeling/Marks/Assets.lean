import Marks.Engine
import Marks.Files
import Marks.Runs

/-! # The asset store

Uploads, purges and startup sweeps over files named by the hash of their content. An upload publishes its bytes
before it writes the rows that refer to them, and a purge reclaims the bytes after it deleted the rows, both under
the gate of the hash. The blocking work of a request goes on when the request times out or is dropped, and the gate
is free from then on. A crash ends everything but the rows and the files. -/

namespace Marks.Assets

abbrev Hash := Bytes
abbrev DocumentId := Nat

def contentGateShards : Nat := 64
def maxAssetsPerDocument : Nat := 1000

structure AssetConfig where
  maxAssetBytes : Nat
  maxAssetBytesPerDocument : Nat

def shard (hash : Hash) : Nat := (hash.headD 0).toNat % contentGateShards

/-! ## Rows -/

structure BlobRow where
  contentHash : Hash
  bytes : Nat
deriving DecidableEq, Repr

structure AssetRow where
  documentId : DocumentId
  contentHash : Hash
deriving DecidableEq, Repr

structure AssetTables where
  blobs : List BlobRow
  assets : List AssetRow
deriving DecidableEq, Repr

namespace AssetTables

variable (db : AssetTables)

def hasBlob (hash : Hash) : Bool := db.blobs.any (·.contentHash == hash)

def references (hash : Hash) : Bool := db.assets.any (·.contentHash == hash)

def existing (documentId : DocumentId) (hash : Hash) : Bool :=
  db.assets.any fun row => row.documentId == documentId && row.contentHash == hash

def bytesOf (hash : Hash) : Nat := ((db.blobs.find? (·.contentHash == hash)).map (·.bytes)).getD 0

def quotaReached (config : AssetConfig) (documentId : DocumentId) (bytes : Nat) : Bool :=
  let rows := db.assets.filter (·.documentId == documentId)
  decide (maxAssetsPerDocument ≤ rows.length ∨
    config.maxAssetBytesPerDocument < (rows.map fun row => db.bytesOf row.contentHash).sum + bytes)

def insert (documentId : DocumentId) (hash : Hash) (bytes : Nat) : AssetTables where
  blobs := if db.hasBlob hash then db.blobs else db.blobs ++ [⟨hash, bytes⟩]
  assets := if db.existing documentId hash then db.assets else db.assets ++ [⟨documentId, hash⟩]

/-- Deletes the blob if no asset refers to it any more, and says whether it did. -/
def deleteBlob (hash : Hash) : AssetTables × Bool :=
  if db.hasBlob hash && !db.references hash then
    ({ db with blobs := db.blobs.filter (·.contentHash != hash) }, true)
  else (db, false)

def deleteBlobs : AssetTables → List Hash → List Hash → AssetTables × List Hash
  | db, deleted, [] => (db, deleted)
  | db, deleted, hash :: hashes =>
    let next := db.deleteBlob hash
    deleteBlobs next.1 (if next.2 then deleted ++ [hash] else deleted) hashes

def purge (documentId : DocumentId) : AssetTables × List Hash :=
  let hashes := (db.assets.filter (·.documentId == documentId)).map (·.contentHash)
  { db with assets := db.assets.filter (·.documentId != documentId) }.deleteBlobs [] hashes

end AssetTables

/-! ## Files -/

/-- A content under its hash, the private link of a removal, or the staging file of an upload. -/
inductive FileName
  | content (hash : Hash)
  | remove (hash : Hash) (worker : Nat)
  | upload (worker : Nat)
deriving DecidableEq, Repr

abbrev Disk := Files.Directory FileName Bytes

inductive PutStage
  | queued
  | existing
  | absent
  | created
  | written
  | linked
  | duplicate
  | done (ok : Bool)
deriving DecidableEq, Repr

inductive Removal
  | active
  | cancelled
  | committed
deriving DecidableEq, Repr

inductive RemoveStage
  | queued
  | started
  | linked
  | abandoned
  | checked
  | unlinked
  | committed
  | restoring
  | restored
  | done (ok : Bool)
deriving DecidableEq, Repr

inductive Worker
  | put (hash : Hash) (bytes : Bytes) (stage : PutStage)
  | remove (hash : Hash) (token : Removal) (stage : RemoveStage)
deriving DecidableEq, Repr

section
variable (digest : Bytes → Hash)

def putBlocking (w : Nat) (hash : Hash) (bytes : Bytes) (disk : Disk) : PutStage → PutStage × Disk
  | .queued =>
    if digest bytes ≠ hash then (.done false, disk)
    else if (disk.read (.content hash)).isSome then (.existing, disk)
    else (.absent, disk)
  | .existing =>
    match disk.read (.content hash) with
    | some content => (.done (content.length == bytes.length && digest content == hash), disk)
    | none => (.done false, disk)
  | .absent => if (disk.read (.upload w)).isSome then (.done false, disk) else (.created, disk.write (.upload w) [])
  | .created => (.written, disk.write (.upload w) bytes)
  | .written =>
    match disk.link (.upload w) (.content hash) with
    | .ok disk => (.linked, disk)
    | .error .alreadyExists => (.duplicate, disk)
    | .error .notFound => (.done false, disk)
  | .linked => (.done true, disk.unlink (.upload w))
  | .duplicate => (.existing, disk.unlink (.upload w))
  | .done ok => (.done ok, disk)

/-- The content is unlinked only behind a private link; a cancellation seen after that puts it back. -/
def removeBlocking (w : Nat) (hash : Hash) (token : Removal) (disk : Disk) : RemoveStage → RemoveStage × Disk
  | .queued => if token = .cancelled then (.done false, disk) else (.started, disk)
  | .started =>
    match disk.link (.content hash) (.remove hash w) with
    | .ok disk => (.linked, disk)
    | .error .notFound => (.done true, disk)
    | .error .alreadyExists => (.done false, disk)
  | .linked => if token = .cancelled then (.abandoned, disk) else (.checked, disk)
  | .abandoned => (.done false, disk.unlink (.remove hash w))
  | .checked => (.unlinked, disk.unlink (.content hash))
  | .unlinked => if token = .cancelled then (.restoring, disk) else (.committed, disk)
  | .committed => (.done true, disk.unlink (.remove hash w))
  | .restoring =>
    match disk.link (.remove hash w) (.content hash) with
    | .ok disk => (.restored, disk)
    | .error .alreadyExists => (.restored, disk)
    | .error .notFound => if (disk.read (.content hash)).isSome then (.restored, disk) else (.done false, disk)
  | .restored => (.done false, disk.unlink (.remove hash w))
  | .done ok => (.done ok, disk)

def commitRemoval (token : Removal) (stage : RemoveStage) : Removal :=
  if stage = .unlinked ∧ token = .active then .committed else token

def Worker.step (w : Nat) (disk : Disk) : Worker → Worker × Disk
  | .put hash bytes stage =>
    let next := putBlocking digest w hash bytes disk stage
    (.put hash bytes next.1, next.2)
  | .remove hash token stage =>
    let next := removeBlocking w hash token disk stage
    (.remove hash (commitRemoval token stage) next.1, next.2)

end

def Worker.isDone : Worker → Bool
  | .put _ _ (.done _) => true
  | .remove _ _ (.done _) => true
  | _ => false

/-- The request does not await its worker any more: a removal not committed is cancelled, and what is not started
may be aborted. -/
def Worker.release (aborted : Bool) : Worker → Worker
  | .put hash bytes stage => .put hash bytes (if aborted ∧ stage = .queued then .done false else stage)
  | .remove hash token stage =>
    .remove hash (if token = .active then .cancelled else token)
      (if aborted ∧ stage = .queued then .done false else stage)

/-! ## Requests -/

inductive UploadStage
  | waiting
  | locked
  | putting (worker : Nat)
  | stored
  | failed
  | removing (worker : Nat)
deriving DecidableEq, Repr

inductive PurgeStage
  | admitted
  | waiting
  | locked
  | removing (worker : Nat)
deriving DecidableEq, Repr

inductive Op
  | upload (documentId : DocumentId) (body : Bytes) (stage : UploadStage)
  | purge (documentId : DocumentId) (reclaim : List Hash) (stage : PurgeStage)
deriving DecidableEq, Repr

inductive Phase
  | serving
  | down
  /-- The startup sweep, with the entries it has still to look at. -/
  | sweeping (left : List FileName)
deriving DecidableEq, Repr

structure AssetStore where
  phase : Phase
  db : AssetTables
  disk : Disk
  ops : List Op
  workers : List Worker
deriving DecidableEq, Repr

inductive AssetEvent
  | upload (documentId : DocumentId) (body : Bytes)
  | purge (documentId : DocumentId)
  /-- The request gets the gate of its hash. -/
  | lock (i : Nat)
  /-- The request reads the rows under its gate; the read may fail or refuse it. -/
  | check (i : Nat) (allowed : Bool)
  | transact (i : Nat) (allowed : Bool)
  | settle (i : Nat)
  /-- The request's worker takes too long. -/
  | expire (i : Nat) (aborted : Bool)
  /-- The request is dropped, or the deadline of the whole purge is over. -/
  | leave (i : Nat)
  | work (w : Nat)
  | crash
  | restart (order : List FileName)
  | sweep
deriving DecidableEq, Repr

/-- The hash whose gate the request holds. -/
def Op.guarded (digest : Bytes → Hash) : Op → Option Hash
  | .upload _ _ .waiting => none
  | .upload _ body _ => some (digest body)
  | .purge _ (hash :: _) .locked => some hash
  | .purge _ (hash :: _) (.removing _) => some hash
  | .purge .. => none

namespace AssetStore

def init : AssetStore := ⟨.down, ⟨[], []⟩, [], [], []⟩

section
variable (digest : Bytes → Hash) (config : AssetConfig) (s : AssetStore)

def setOp (i : Nat) (op : Op) : AssetStore := { s with ops := s.ops.set i op }

def finish (i : Nat) : AssetStore := { s with ops := s.ops.eraseIdx i }

def next (i : Nat) (documentId : DocumentId) (reclaim : List Hash) : AssetStore :=
  if reclaim.isEmpty then s.finish i else s.setOp i (.purge documentId reclaim .waiting)

def release (w : Nat) (aborted : Bool) : AssetStore :=
  { s with workers := s.workers.modify w (Worker.release aborted) }

def spawn (worker : Worker) : AssetStore := { s with workers := s.workers ++ [worker] }

def gateFree (hash : Hash) : Bool :=
  s.ops.all fun op => (op.guarded digest).all fun held => shard held != shard hash

def upload (documentId : DocumentId) (body : Bytes) : AssetStore :=
  if s.phase ≠ .serving ∨ body.isEmpty ∨ config.maxAssetBytes < body.length then s
  else { s with ops := s.ops ++ [.upload documentId body .waiting] }

def purge (documentId : DocumentId) : AssetStore :=
  if s.phase ≠ .serving then s else { s with ops := s.ops ++ [.purge documentId [] .admitted] }

def lock (i : Nat) : AssetStore :=
  match s.ops[i]? with
  | some (.upload documentId body .waiting) =>
    if s.gateFree digest (digest body) then s.setOp i (.upload documentId body .locked) else s
  | some (.purge documentId (hash :: reclaim) .waiting) =>
    if s.gateFree digest hash then s.setOp i (.purge documentId (hash :: reclaim) .locked) else s
  | _ => s

def check (i : Nat) (allowed : Bool) : AssetStore :=
  match s.ops[i]? with
  | some (.upload documentId body .locked) =>
    if !allowed || s.db.existing documentId (digest body) || s.db.quotaReached config documentId body.length then
      s.finish i
    else (s.setOp i (.upload documentId body (.putting s.workers.length))).spawn (.put (digest body) body .queued)
  | some (.upload documentId body .failed) =>
    if !allowed || s.db.references (digest body) then s.finish i
    else
      (s.setOp i (.upload documentId body (.removing s.workers.length))).spawn (.remove (digest body) .active .queued)
  | some (.purge documentId (hash :: reclaim) .locked) =>
    if !allowed || s.db.references hash then s.next i documentId reclaim
    else
      (s.setOp i (.purge documentId (hash :: reclaim) (.removing s.workers.length))).spawn
        (.remove hash .active .queued)
  | _ => s

def transact (i : Nat) (allowed : Bool) : AssetStore :=
  match s.ops[i]? with
  | some (.upload documentId body .stored) =>
    if allowed && !s.db.quotaReached config documentId body.length then
      { s.finish i with db := s.db.insert documentId (digest body) body.length }
    else s.setOp i (.upload documentId body .failed)
  | some (.purge documentId _ .admitted) =>
    if allowed then
      let purged := s.db.purge documentId
      { s.next i documentId purged.2 with db := purged.1 }
    else s.finish i
  | _ => s

def settle (i : Nat) : AssetStore :=
  match s.ops[i]? with
  | some (.upload documentId body (.putting w)) =>
    match s.workers[w]? with
    | some (.put _ _ (.done ok)) => if ok then s.setOp i (.upload documentId body .stored) else s.finish i
    | _ => s
  | some (.upload _ _ (.removing w)) =>
    match s.workers[w]? with
    | some (.remove _ _ (.done _)) => (s.release w false).finish i
    | _ => s
  | some (.purge documentId (_ :: reclaim) (.removing w)) =>
    match s.workers[w]? with
    | some (.remove _ _ (.done _)) => (s.release w false).next i documentId reclaim
    | _ => s
  | _ => s

def expire (i : Nat) (aborted : Bool) : AssetStore :=
  match s.ops[i]? with
  | some (.upload _ _ (.putting w)) => (s.release w aborted).finish i
  | some (.upload _ _ (.removing w)) => (s.release w aborted).finish i
  | some (.purge documentId (_ :: reclaim) (.removing w)) => (s.release w aborted).next i documentId reclaim
  | _ => s

def leave (i : Nat) : AssetStore :=
  match s.ops[i]? with
  | some (.upload _ _ (.removing w)) => (s.release w false).finish i
  | some (.purge _ _ (.removing w)) => (s.release w false).finish i
  | _ => s.finish i

def work (w : Nat) : AssetStore :=
  match s.workers[w]? with
  | some worker =>
    let next := worker.step digest w s.disk
    { s with workers := s.workers.set w next.1, disk := next.2 }
  | none => s

/-- One entry of the directory. A private link is put back under its hash where a row still refers to the hash and
its file is gone. -/
def sweepEntry (db : AssetTables) (disk : Disk) : FileName → Option Disk
  | .remove hash w =>
    if db.hasBlob hash && (disk.read (.content hash)).isNone then
      match disk.read (.remove hash w) with
      | some content =>
        if digest content = hash then
          match disk.link (.remove hash w) (.content hash) with
          | .ok disk => some (disk.unlink (.remove hash w))
          | .error .alreadyExists => some (disk.unlink (.remove hash w))
          | .error .notFound => none
        else none
      | none => none
    else some (disk.unlink (.remove hash w))
  | .upload w => some (disk.unlink (.upload w))
  | .content hash => if db.hasBlob hash then some disk else some (disk.unlink (.content hash))

def sweep : AssetStore :=
  match s.phase with
  | .sweeping [] => { s with phase := .serving }
  | .sweeping (name :: left) =>
    match sweepEntry digest s.db s.disk name with
    | some disk => { s with phase := .sweeping left, disk }
    | none => { s with phase := .down }
  | _ => s

def step : AssetEvent → AssetStore
  | .upload documentId body => s.upload config documentId body
  | .purge documentId => s.purge documentId
  | .lock i => s.lock digest i
  | .check i allowed => s.check digest config i allowed
  | .transact i allowed => s.transact digest config i allowed
  | .settle i => s.settle i
  | .expire i aborted => s.expire i aborted
  | .leave i => s.leave i
  | .work w => s.work digest w
  | .crash => { s with phase := .down, ops := [], workers := [] }
  | .restart order => if s.phase = .down ∧ order.isPerm s.disk.names then { s with phase := .sweeping order } else s
  | .sweep => s.sweep digest

end

def after (digest : Bytes → Hash) (config : AssetConfig) (events : List AssetEvent) : AssetStore :=
  Transition.run (fun s e => step digest config s e) init events

end AssetStore

end Marks.Assets
