import Mathlib.Data.List.Sort
import Marks.Authority
import Marks.Protocol

/-! # The document store

The durable form of one document: its row, the journal tail, the commit receipts and the authorship
of its operations. Statements of the commit transactions are functions here; a violated key is an
error and rolls the transaction back. -/

namespace Marks

inductive ActorKind
  | principal
  | scratch
deriving DecidableEq, Repr

structure Author where
  kind : ActorKind
  id : Nat
  sessionId : Option SessionId
deriving DecidableEq, Repr

structure ActorReceipt where
  author : Author
  site : SiteId
deriving DecidableEq, Repr

def actorReceipt : RoomActor → ActorReceipt
  | .principal actor => ⟨⟨.principal, actor.principalId, some actor.sessionId⟩, actor.esbtSite⟩
  | .scratch actor => ⟨⟨.scratch, actor.scratchId, none⟩, actor.esbtSite⟩

structure UpdateRow where
  revision : Nat
  payload : Bytes
  author : Author
  receivedAt : Millis
deriving DecidableEq, Repr

structure CommitRow where
  messageId : MessageId
  payloadHash : Bytes
  kind : MutationKind
  revision : Nat
  author : Author
  committedAt : Millis
deriving DecidableEq, Repr

structure OpAuthorRow where
  site : SiteId
  seq : Nat
  author : Author
  receivedAt : Millis
deriving DecidableEq, Repr

structure OpAuthorRangeRow where
  range : AcceptedRange
  author : Author
  receivedAt : Millis
deriving DecidableEq, Repr

structure DocumentStore where
  snapshot : Option Bytes
  snapshotRevision : Nat
  chars : Nat
  updatedAt : Millis
  anonymousEditCount : Nat
  persistedAt : Option Millis
  updates : List UpdateRow
  commits : List CommitRow
  opAuthors : List OpAuthorRow
  opAuthorRanges : List OpAuthorRangeRow
deriving DecidableEq, Repr

structure Database where
  auth : AuthorityTables
  store : DocumentStore
deriving DecidableEq, Repr

/-! ## Statements -/

def idempotencyReceiptWindow : Nat := 65536

namespace DocumentStore

variable (store : DocumentStore)

def insertUpdate (row : UpdateRow) : Except ApiError DocumentStore :=
  if store.updates.any (·.revision == row.revision) then .error .internal
  else .ok { store with updates := store.updates ++ [row] }

def insertCommit (row : CommitRow) : Except ApiError DocumentStore :=
  if store.commits.any (·.messageId == row.messageId) then .error .internal
  else .ok { store with commits := store.commits ++ [row] }

/-- `INSERT OR IGNORE` into `op_authors`; the sequence must be storable exactly. -/
def insertOpAuthor (row : OpAuthorRow) : Except ApiError DocumentStore :=
  if !sequenceFitsStorage row.seq then .error .internal
  else if store.opAuthors.any fun known => known.site == row.site && known.seq == row.seq then .ok store
  else .ok { store with opAuthors := store.opAuthors ++ [row] }

/-- `INSERT OR IGNORE` into `op_author_ranges`. -/
def insertOpAuthorRange (row : OpAuthorRangeRow) : Except ApiError DocumentStore :=
  if !(sequenceFitsStorage row.range.first && sequenceFitsStorage row.range.last) then .error .internal
  else if store.opAuthorRanges.any (·.range == row.range) then .ok store
  else .ok { store with opAuthorRanges := store.opAuthorRanges ++ [row] }

/-- Move the snapshot boundary to `revision`, dropping the journal rows it covers. -/
def setSnapshot (snapshot : Bytes) (revision : Nat) : DocumentStore :=
  { store with
    snapshot := some snapshot
    snapshotRevision := revision
    updates := store.updates.filter fun row => revision < row.revision }

def pruneCommits (cutoff : Nat) : DocumentStore :=
  { store with commits := store.commits.filter fun row => cutoff ≤ row.revision }

def compactAt (snapshot : Bytes) (revision : Nat) : DocumentStore :=
  (store.setSnapshot snapshot revision).pruneCommits (revision - idempotencyReceiptWindow)

def updateDocumentMetadata (chars : Nat) (now : Millis) : DocumentStore :=
  { store with chars, updatedAt := now }

/-- Anonymous edits on a public document; the seventh persists it. -/
def addAnonymousEdits (publicEdit : Bool) (edits : Nat) (at_ : Millis) : DocumentStore :=
  if edits = 0 ∨ !publicEdit then store
  else { store with
    anonymousEditCount := store.anonymousEditCount + edits
    persistedAt :=
      if store.persistedAt = none ∧ 6 < store.anonymousEditCount + edits then some at_
      else store.persistedAt }

end DocumentStore

/-! ## Hydration -/

section
variable (E : Engine)

def applyRows (document : E.Doc) (revision : Nat) : List UpdateRow → Option (E.Doc × Nat)
  | [] => some (document, revision)
  | row :: rows =>
    match E.applyBytes document row.payload with
    | some document => applyRows document row.revision rows
    | none => none

/-- Rebuild the replica: the snapshot, then every journaled update above it in revision order. -/
def hydrateDocument (store : DocumentStore) : Option (E.Doc × Nat) :=
  let rows := (store.updates.filter fun row => store.snapshotRevision < row.revision).insertionSort
    fun a b => a.revision ≤ b.revision
  match store.snapshot with
  | none => applyRows E E.new store.snapshotRevision rows
  | some snapshot =>
    match E.applySnapshotBytes E.new snapshot with
    | some (document, _) => applyRows E document store.snapshotRevision rows
    | none => none

end

/-! ## Transactions -/

/-- What became of the storage under a database call: `lost` is a commit that is durable but was
reported as failed. -/
inductive Storage
  | ok
  | failed
  | lost
deriving DecidableEq, Repr

structure TxResult where
  db : Database
  durable : Bool
  result : Except ApiError Unit

/-- `Db::tx`: the work commits as a whole or leaves the database as it was. -/
def Database.tx (db : Database) (storage : Storage) (work : Except ApiError Database) : TxResult :=
  match storage, work with
  | .failed, _ => ⟨db, false, .error .internal⟩
  | _, .error error => ⟨db, false, .error error⟩
  | .ok, .ok db => ⟨db, true, .ok ()⟩
  | .lost, .ok db => ⟨db, true, .error .internal⟩

end Marks
