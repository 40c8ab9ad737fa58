import Marks.Runs
import Marks.Authority

/-! # Scratch workspaces and their documents

The documents of a server with who owns each. A create or duplicate admits its caller in one step and
inserts the document in a later transaction; a claim moves the documents of a workspace to a principal in a
transaction of its own. -/

namespace Marks

abbrev DocumentId := Nat

/-- A row of `documents` with its lists. The last two fields are not the server's: who created the document,
and the claims that moved it, with the epochs before and after. -/
structure CatalogDocument where
  id : DocumentId
  row : DocumentMetaRow
  acl : List DocumentAclRecord
  sites : List SiteRow
  tickets : List TicketRecord
  createRequest : Option (Bytes × Bytes)
  createdBy : DocumentOwner
  moves : List (PrincipalId × Nat × Nat)
deriving DecidableEq, Repr

/-- A create, or a duplicate of `source`, whose caller was admitted. -/
structure Creation where
  caller : Caller
  source : Option DocumentId
  request : Option (Bytes × Bytes)
deriving DecidableEq, Repr

inductive WorkspaceEvent where
  | scratchCreate (id : ScratchId) (expiresAtMs : Millis)
  | admission (creation : Creation) (now : Millis)
  | commit (creation : Nat) (id : DocumentId)
  | claim (scratchId : ScratchId) (principalId : PrincipalId) (device : DeviceId) (now : Millis)
  | principalSession (document : DocumentId) (session : AuthenticatedSession) (requested : Option SiteId)
    (ticket : TicketId) (secretHash : Bytes) (now : Millis)
  | scratchSession (document : DocumentId) (scratchId : ScratchId) (requested : Option SiteId)
    (ticket : TicketId) (secretHash : Bytes) (now : Millis)
  | delete (document : DocumentId) (caller : Caller) (now : Millis)
  | restore (document : DocumentId) (caller : Caller)
deriving DecidableEq, Repr

def scratchTables (scratches : List ScratchRecord) : AuthorityTables :=
  ⟨[], [], [], scratches, ⟨⟨.principal 0, 0, none⟩, false⟩, [], [], [], []⟩

namespace CatalogDocument

def tables (scratches : List ScratchRecord) (d : CatalogDocument) : AuthorityTables :=
  ⟨[], [], [], scratches, d.row, d.acl, [], d.sites, d.tickets⟩

def withTables (d : CatalogDocument) (db : AuthorityTables) : CatalogDocument :=
  { d with row := db.document, acl := db.acl, sites := db.sites, tickets := db.tickets }

/-- `claim_scratch_documents` on one of the documents. -/
def claimed (scratches : List ScratchRecord) (scratchId : ScratchId) (principalId : PrincipalId)
    (device : DeviceId) (now : Millis) (d : CatalogDocument) : CatalogDocument :=
  let after := d.withTables (claimScratchDocuments (d.tables scratches) scratchId principalId device now)
  if d.row.record.owner = .scratch scratchId then
    { after with moves := d.moves ++
        [(principalId, d.row.record.authorizationEpoch, after.row.record.authorizationEpoch)] }
  else after

end CatalogDocument

structure Workspace where
  scratches : List ScratchRecord
  documents : List CatalogDocument
  creations : List Creation
deriving DecidableEq, Repr

namespace Workspace

variable (ws : Workspace)

def init : Workspace := ⟨[], [], []⟩

def loadScratch (id : ScratchId) : Option ScratchRecord := (scratchTables ws.scratches).loadScratch id

def loadDocument (id : DocumentId) : Option CatalogDocument := ws.documents.find? (·.id == id)

/-- `caller`: a scratch capability must be live, a cookie session was validated before. -/
def admitCreation (creation : Creation) (now : Millis) : Workspace :=
  let admitted : Bool := match creation.caller with
    | .principal _ => true
    | .scratch scratchId => (scratchCaller (scratchTables ws.scratches) scratchId now).isSome
  if admitted then { ws with creations := ws.creations ++ [creation] } else ws

/-- `load_create_replay` finds a row of the same owner and request id. -/
def replayed (creation : Creation) : Option CatalogDocument :=
  creation.request.bind fun request => ws.documents.find? fun d =>
    d.row.record.owner == callerOwner creation.caller && d.createRequest.any (·.1 == request.1)

/-- The source of a duplicate is live, and its caller has a role on it. -/
def sourceAllows (creation : Creation) : Bool :=
  match creation.source with
  | none => true
  | some source =>
    match ws.loadDocument source with
    | none => false
    | some d => (d.tables ws.scratches).live && ((d.tables ws.scratches).resolveCallerRole creation.caller).isSome

def newDocument (creation : Creation) (id : DocumentId) : CatalogDocument where
  id := id
  row := ⟨⟨callerOwner creation.caller, 1, none⟩, match creation.caller with
    | .scratch _ => true
    | .principal _ => false⟩
  acl := match creation.caller with
    | .principal session => [⟨session.principalId, .owner, none⟩]
    | .scratch _ => []
  sites := []
  tickets := []
  createRequest := creation.request
  createdBy := callerOwner creation.caller
  moves := []

def inserts (creation : Creation) (id : DocumentId) : Bool :=
  (ws.replayed creation).isNone && ws.sourceAllows creation && (ws.loadDocument id).isNone

def commit (creation : Nat) (id : DocumentId) : Workspace :=
  match ws.creations[creation]? with
  | none => ws
  | some admitted =>
    let ws := { ws with creations := ws.creations.eraseIdx creation }
    if ws.inserts admitted id then { ws with documents := ws.documents ++ [newDocument admitted id] } else ws

/-- The documents are moved and the workspace is marked in one transaction. -/
def claim (scratchId : ScratchId) (principalId : PrincipalId) (device : DeviceId) (now : Millis) : Workspace :=
  match persistScratchClaim (scratchTables ws.scratches) scratchId principalId now with
  | .error _ => ws
  | .ok db => { ws with
      scratches := db.scratches
      documents := ws.documents.map (CatalogDocument.claimed ws.scratches scratchId principalId device now) }

/-- A route on one document. -/
def onDocument (id : DocumentId) (f : AuthorityTables → Except ApiError AuthorityTables) : Workspace :=
  { ws with documents := ws.documents.map fun d =>
      if d.id = id then
        match f (d.tables ws.scratches) with
        | .ok db => d.withTables db
        | .error _ => d
      else d }

def step : WorkspaceEvent → Workspace
  | .scratchCreate id expiresAtMs =>
    match scratchCreate (scratchTables ws.scratches) id expiresAtMs with
    | .ok db => { ws with scratches := db.scratches }
    | .error _ => ws
  | .admission creation now => ws.admitCreation creation now
  | .commit creation id => ws.commit creation id
  | .claim scratchId principalId device now => ws.claim scratchId principalId device now
  | .principalSession document session requested ticket secretHash now => ws.onDocument document fun db =>
      (principalRoomSession db session requested ticket secretHash now).map (·.1)
  | .scratchSession document scratchId requested ticket secretHash now => ws.onDocument document fun db =>
      (scratchRoomSession db scratchId requested ticket secretHash now).map (·.1)
  | .delete document caller now => ws.onDocument document fun db => deleteDocument db caller now
  | .restore document caller => ws.onDocument document fun db => restoreDocument db caller

def after (events : List WorkspaceEvent) : Workspace :=
  Transition.run (fun ws e => step ws e) init events

end Workspace

end Marks
