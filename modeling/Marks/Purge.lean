import Marks.Assets
import Marks.Authority
import Marks.Transactions

/-! # Purging a document

The tables that hold a deleted document and the transaction that removes it for good once its retention window is over.
Foreign keys are checked behind every statement, and an agent run goes with its document. A blob that only the document
referred to goes too, and its hash is reported so that the file can be reclaimed. -/

namespace Marks.Purge

open Assets (Hash DocumentId)
open Transactions

abbrev CommentId := Nat
abbrev RunId := Nat

def trashRetentionMs : Nat := 30 * 24 * 60 * 60 * 1000

def u64Max : Nat := 18446744073709551615

def saturatingAdd (a b : Nat) : Nat := min (a + b) u64Max

/-! ## Rows, each with its further columns -/

section
variable (Data : Type)

structure DocumentRow where
  id : DocumentId
  record : DocumentRecord
  data : Data

structure CommentRow where
  id : CommentId
  documentId : DocumentId
  data : Data

structure ReplyRow where
  id : Nat
  commentId : CommentId
  data : Data

structure VersionRow where
  id : Nat
  documentId : DocumentId
  contentHash : Hash
  data : Data

structure VersionBlobRow where
  documentId : DocumentId
  contentHash : Hash
  data : Data

structure BlobRow extends Assets.BlobRow where
  sized : contentHash.length = 32
  data : Data

structure AssetRow extends Assets.AssetRow where
  id : Nat
  data : Data

structure RunRow where
  id : RunId
  documentId : DocumentId
  data : Data

/-- A row of `agent_events` or `agent_tool_receipts`. -/
structure RunPart where
  runId : RunId
  data : Data

structure LeafRow where
  documentId : DocumentId
  data : Data

end

inductive Leaf
  | documentCommits
  | documentUpdates
  | documentTickets
  | documentSites
  | linkGrants
  | documentAcl
  | opAuthors
  | opAuthorRanges
deriving DecidableEq, Repr

/-- `op_authors` names documents without referring to them. -/
def Leaf.refers : Leaf → Bool
  | .opAuthors => false
  | _ => true

def leaves : List Leaf := [.documentCommits, .documentUpdates, .documentTickets, .documentSites, .linkGrants,
  .documentAcl, .opAuthors, .opAuthorRanges]

structure Database (Data : Type) where
  documents : Table fun row : DocumentRow Data => row.id
  comments : Table fun row : CommentRow Data => row.id
  replies : Table fun row : ReplyRow Data => row.id
  versions : Table fun row : VersionRow Data => row.id
  versionBlobs : Table fun row : VersionBlobRow Data => (row.documentId, row.contentHash)
  leaf : Leaf → List (LeafRow Data)
  blobs : Table fun row : BlobRow Data => row.contentHash
  assets : Table fun row : AssetRow Data => (row.documentId, row.contentHash)
  runs : Table fun row : RunRow Data => row.id
  events : List (RunPart Data)
  receipts : List (RunPart Data)

/-! ## Statements -/

inductive DocumentTable
  | documentComments
  | documentVersions
  | documentVersionBlobs
  | leaf (table : Leaf)
deriving DecidableEq, Repr

def documentTables : List DocumentTable :=
  [.documentComments, .documentVersions, .documentVersionBlobs] ++ leaves.map .leaf

inductive Statement
  | begin
  | loadDocument
  | selectAssets
  | deleteReplies
  | deleteAssets
  | deleteFrom (table : DocumentTable)
  | deleteBlob (hash : Hash)
  | deleteDocument
  | commit
deriving DecidableEq, Repr

namespace Database
variable {Data : Type} (db : Database Data) (id : DocumentId)

def hasBlob (hash : Hash) : Bool := db.blobs.rows.any (·.contentHash == hash)

def references (hash : Hash) : Bool := db.assets.rows.any (·.contentHash == hash)

def deleteReplies : Database Data :=
  { db with
    replies := db.replies.delete fun row =>
      db.comments.rows.any fun comment => comment.documentId == id && comment.id == row.commentId }

def deleteAssets : Database Data := { db with assets := db.assets.delete (·.documentId == id) }

def deleteFrom : DocumentTable → Database Data
  | .documentComments => { db with comments := db.comments.delete (·.documentId == id) }
  | .documentVersions => { db with versions := db.versions.delete (·.documentId == id) }
  | .documentVersionBlobs => { db with versionBlobs := db.versionBlobs.delete (·.documentId == id) }
  | .leaf table =>
    { db with
      leaf := fun other =>
        if other = table then (db.leaf other).filter (·.documentId != id) else db.leaf other }

/-- No row still refers to one that the statement deletes. -/
def unreferred : DocumentTable → Bool
  | .documentComments => db.replies.rows.all fun row =>
    !db.comments.rows.any fun comment => comment.documentId == id && comment.id == row.commentId
  | .documentVersionBlobs => db.versions.rows.all fun row =>
    !db.versionBlobs.rows.any fun blob =>
      blob.documentId == id && blob.documentId == row.documentId && blob.contentHash == row.contentHash
  | _ => true

def deleteBlob (hash : Hash) : Nat × Database Data :=
  let picks := fun row : BlobRow Data => row.contentHash == hash && !db.references hash
  (db.blobs.rows.countP picks, { db with blobs := db.blobs.delete picks })

def childless : Bool :=
  db.comments.rows.all (·.documentId != id) && db.versionBlobs.rows.all (·.documentId != id) &&
    db.assets.rows.all (·.documentId != id) &&
    leaves.all fun table => !table.refers || (db.leaf table).all (·.documentId != id)

/-- Agent runs are deleted on cascade, and their events and receipts with them. -/
def deleteDocument : Database Data :=
  let cascades := fun row : RunPart Data => db.runs.rows.any fun run => run.documentId == id && run.id == row.runId
  { db with
    documents := db.documents.delete (·.id == id)
    runs := db.runs.delete (·.documentId == id)
    events := db.events.filter (!cascades ·)
    receipts := db.receipts.filter (!cascades ·) }

end Database

/-! ## The purge -/

structure PurgeRequest where
  caller : Option Caller
  sameOrigin : Bool
  documentId : Option DocumentId
  nowMs : Millis
deriving Repr

def PurgeRequest.requireOrigin (request : PurgeRequest) : Caller → Bool
  | .principal _ => request.sameOrigin
  | .scratch _ => true

def hash32 (hash : Bytes) : Option Hash := if hash.length = 32 then some hash else none

section
variable {Data : Type} (stored : Statement → Bool)

def query {α : Type} (s : Statement) (value : Database Data → α) : Work (Database Data) ApiError α :=
  .statement (fun _ => stored s) .internal fun db => (value db, db)

def execute (s : Statement) (allowed : Database Data → Bool) (change : Database Data → Database Data) :
    Work (Database Data) ApiError Unit :=
  .statement (fun db => stored s && allowed db) .internal fun db => ((), change db)

def loadDeletedDocument (id : DocumentId) : Work (Database Data) ApiError (DocumentRow Data) := do
  let row ← Work.found (← query stored .loadDocument fun db => db.documents.rows.find? (·.id == id)) .notFound
  Work.check row.record.deletedAtMs.isSome .notFound
  pure row

def requireRecoveryOwner (caller : Caller) (row : DocumentRow Data) : Work (Database Data) ApiError Unit :=
  Work.check (requireDeletedDocumentOwner row.record (callerOwner caller)) .notFound

def deleteTables (id : DocumentId) : List DocumentTable → Work (Database Data) ApiError Unit
  | [] => pure ()
  | table :: tables => do
    execute stored (.deleteFrom table) (·.unreferred id table) (·.deleteFrom id table)
    deleteTables id tables

def deleteBlobs : List Hash → List Hash → Work (Database Data) ApiError (List Hash)
  | reclaim, [] => pure reclaim
  | reclaim, hash :: hashes => do
    let removed ← Work.statement (fun _ => stored (.deleteBlob hash)) .internal (·.deleteBlob hash)
    if removed == 1 then
      let hash ← Work.found (hash32 hash) .internal
      deleteBlobs (reclaim ++ [hash]) hashes
    else deleteBlobs reclaim hashes

def purgeRows (caller : Caller) (id : DocumentId) (nowMs : Millis) : Work (Database Data) ApiError (List Hash) := do
  let row ← loadDeletedDocument stored id
  requireRecoveryOwner caller row
  let purgeAt := saturatingAdd (row.record.deletedAtMs.getD 0) trashRetentionMs
  Work.check (decide (purgeAt ≤ nowMs)) .conflict
  let assetHashes ← query stored .selectAssets fun db =>
    (db.assets.rows.filter (·.documentId == id)).map (·.contentHash)
  execute stored .deleteReplies (fun _ => true) (·.deleteReplies id)
  execute stored .deleteAssets (fun _ => true) (·.deleteAssets id)
  deleteTables stored id documentTables
  let reclaim ← deleteBlobs stored [] assetHashes
  execute stored .deleteDocument (·.childless id) (·.deleteDocument id)
  pure reclaim

/-- The hashes whose files are to be reclaimed. -/
def purge (request : PurgeRequest) : Work (Database Data) ApiError (List Hash) := do
  let caller ← Work.found request.caller .unauthenticated
  Work.check (request.requireOrigin caller) .forbidden
  let id ← Work.found request.documentId .notFound
  Work.tx (stored .begin) (stored .commit) .internal (purgeRows stored caller id request.nowMs)

end

/-! ## Reclaiming the files -/

/-- What the removal of one file meets: the deadline, the rows of that moment unless they cannot be read, and a
removal that succeeds or does not. -/
structure Visit (Data : Type) where
  inTime : Bool
  rows : Option (Database Data)
  removes : Bool

def reclaimPurgedAsset {Data : Type} (visit : Visit Data) (files : List Hash) (hash : Hash) : List Hash :=
  match visit.rows with
  | none => files
  | some db => if db.references hash || !visit.removes then files else files.filter (· != hash)

def completeBatchBeforeDeadline {Data : Type} (visits : Hash → Visit Data) : List Hash → List Hash → List Hash × Bool
  | [], files => (files, true)
  | hash :: items, files =>
    let files := reclaimPurgedAsset (visits hash) files hash
    if (visits hash).inTime then completeBatchBeforeDeadline visits items files else (files, false)

end Marks.Purge
