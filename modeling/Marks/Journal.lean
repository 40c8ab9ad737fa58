import Marks.Protocol

/-! # The journal of a replica

What a page keeps for a document in its own storage: a snapshot of the replica and the mutations the
server has not acknowledged. The replica itself, esbt behind its wrapper, is a parameter; its last seven
fields say what its values mean and are not part of the code. -/

namespace Marks

inductive ExportError
  | historyUnavailable
  | other
deriving DecidableEq, Repr

/-- `EsbtDocument`. An operation is thrown away with the error where the result is `none`. -/
structure Esbt where
  Doc : Type
  Edit : Type
  Op : Type
  create : SiteId → Doc
  version : Doc → Bytes
  /-- A local change and the update it emits. -/
  edit : Doc → Edit → Option (Doc × Bytes)
  /-- `import` and `applySnapshot`. -/
  load : Doc → Bytes → Option Doc
  exportUpdate : Doc → Bytes → Except ExportError Bytes
  exportCompactSnapshot : Doc → Option Bytes
  exportFullSnapshot : Doc → Option Bytes
  pruneHistoryThrough : Doc → Bytes → Option Doc
  site : Doc → SiteId
  name : Op → Operation
  held : Doc → List Op
  retained : Doc → List Op
  carried : Bytes → List Op
  covers : Bytes → Operation → Bool

/-- Sites and origins as esbt documents them: a replica writes at its own site, and an update cut at a
version carries what the replica retains and the version does not cover. -/
structure Esbt.Origins (E : Esbt) : Prop where
  site_create : ∀ site, E.site (E.create site) = site
  site_edit : ∀ {doc change doc' bytes}, E.edit doc change = some (doc', bytes) → E.site doc' = E.site doc
  site_load : ∀ {doc bytes doc'}, E.load doc bytes = some doc' → E.site doc' = E.site doc
  site_prune : ∀ {doc version doc'}, E.pruneHistoryThrough doc version = some doc' → E.site doc' = E.site doc
  edit_own : ∀ {doc change doc' bytes}, E.edit doc change = some (doc', bytes) →
    ∀ op ∈ E.carried bytes, (E.name op).origin = E.site doc
  export_carried : ∀ {doc version bytes}, E.exportUpdate doc version = .ok bytes →
    ∀ op, op ∈ E.carried bytes ↔ op ∈ E.retained doc ∧ E.covers version (E.name op) = false

/-- What a replica holds: it keeps the first operation it has for a site and a sequence number, and a full
snapshot carries all of it. -/
structure Esbt.Replicates (E : Esbt) : Prop where
  carried_nil : E.carried [] = []
  held_create : ∀ site, E.held (E.create site) = []
  load_keeps : ∀ {doc bytes doc'}, E.load doc bytes = some doc' → ∀ op ∈ E.held doc, op ∈ E.held doc'
  load_held : ∀ {doc bytes doc'}, E.load doc bytes = some doc' →
    ∀ op ∈ E.held doc', op ∈ E.held doc ∨ op ∈ E.carried bytes
  load_names : ∀ {doc bytes doc'}, E.load doc bytes = some doc' →
    ∀ op ∈ E.carried bytes, ∃ known ∈ E.held doc', E.name known = E.name op
  edit_held : ∀ {doc change doc' bytes}, E.edit doc change = some (doc', bytes) →
    ∀ op, op ∈ E.held doc' ↔ op ∈ E.held doc ∨ op ∈ E.carried bytes
  edit_fresh : ∀ {doc change doc' bytes}, E.edit doc change = some (doc', bytes) →
    ∀ op ∈ E.carried bytes, ∀ known ∈ E.held doc, E.name known ≠ E.name op
  edit_once : ∀ {doc change doc' bytes}, E.edit doc change = some (doc', bytes) →
    ∀ op ∈ E.carried bytes, ∀ op' ∈ E.carried bytes, E.name op = E.name op' → op = op'
  update_held : ∀ {doc version bytes}, E.exportUpdate doc version = .ok bytes →
    ∀ op ∈ E.carried bytes, op ∈ E.held doc
  compact_held : ∀ {doc bytes}, E.exportCompactSnapshot doc = some bytes →
    ∀ op ∈ E.carried bytes, op ∈ E.held doc
  full_held : ∀ {doc bytes}, E.exportFullSnapshot doc = some bytes →
    ∀ op, op ∈ E.carried bytes ↔ op ∈ E.held doc
  full_loads : ∀ {doc bytes}, E.exportFullSnapshot doc = some bytes →
    ∀ site, (E.load (E.create site) bytes).isSome = true
  prune_held : ∀ {doc version doc'}, E.pruneHistoryThrough doc version = some doc' → E.held doc' = E.held doc

abbrev MutationId := Nat

structure JournalMutation where
  id : MutationId
  kind : MutationKind
  bytes : Bytes
deriving DecidableEq, Repr

structure ReplicaJournalRecord where
  siteId : SiteId
  snapshot : Bytes
  pending : List JournalMutation
  ackedVersion : Option Bytes
  committedRevision : Nat
deriving DecidableEq, Repr

/-- A COMMITTED frame as the client decodes it. -/
structure CommitReceipt where
  id : MutationId
  revision : Nat
  version : Bytes
deriving DecidableEq, Repr

def appendMutation (record : ReplicaJournalRecord) (mutation : JournalMutation) :
    Option ReplicaJournalRecord :=
  if mutation.bytes = [] then some record
  else
    match record.pending.find? (·.id == mutation.id) with
    | some existing =>
      if existing.kind ≠ mutation.kind ∨ existing.bytes ≠ mutation.bytes then none else some record
    | none => some { record with pending := record.pending ++ [mutation] }

section
variable (stored : Option ReplicaJournalRecord) (fallback : ReplicaJournalRecord)

def appendPendingMutation (mutation : JournalMutation) : Option ReplicaJournalRecord :=
  appendMutation (stored.getD fallback) mutation

def checkpointReplicaJournal (snapshot : Bytes) : ReplicaJournalRecord :=
  { stored.getD fallback with snapshot }

def acknowledgePendingMutation (receipt : CommitReceipt) (snapshot : Bytes) : ReplicaJournalRecord :=
  let current := stored.getD fallback
  { current with
    snapshot
    pending := current.pending.filter fun mutation => mutation.id ≠ receipt.id
    ackedVersion := some receipt.version
    committedRevision := receipt.revision }

end

variable (E : Esbt)

/-- A reconnect delta, or a compact snapshot below the history floor. -/
def exportReconnectPayload (doc : E.Doc) (remoteVersion : Bytes) : Option (MutationKind × Bytes) :=
  match E.exportUpdate doc remoteVersion with
  | .ok bytes => some (.update, bytes)
  | .error .historyUnavailable => (E.exportCompactSnapshot doc).map fun bytes => (.snapshot, bytes)
  | .error .other => none

end Marks
