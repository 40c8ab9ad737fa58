import Marks.Engine
import Marks.Json

/-! # Authority

The authorization records of one document and of the identities that may reach it, the validators that
read them, and the routes that change them. A route is its transaction: it either changes the tables
or leaves them as they were. -/

namespace Marks

abbrev PrincipalId := Nat
abbrev SessionId := Nat
abbrev DeviceId := Nat
abbrev ScratchId := Nat
abbrev TicketId := Nat
abbrev Millis := Nat

inductive DocumentRole
  | owner
  | editor
  | commenter
  | viewer
deriving DecidableEq, Repr

inductive DocumentAction
  | read
  | publishPresence
  | export
  | editText
  | comment
  | manageShares
  | delete
deriving DecidableEq, Repr

inductive DocumentOwner
  | scratch (id : ScratchId)
  | principal (id : PrincipalId)
deriving DecidableEq, Repr

inductive ApiError
  | badRequest
  | unauthenticated
  | forbidden
  | notFound
  | conflict
  | internal
deriving DecidableEq, Repr

structure DocumentRecord where
  owner : DocumentOwner
  authorizationEpoch : Nat
  deletedAtMs : Option Millis
deriving DecidableEq, Repr

structure DocumentMetaRow where
  record : DocumentRecord
  publicEdit : Bool
deriving DecidableEq, Repr

structure PrincipalRecord where
  id : PrincipalId
  disabledAtMs : Option Millis
deriving DecidableEq, Repr

structure DeviceRecord where
  id : DeviceId
  principalId : PrincipalId
  revokeDevices : Bool
  revokedAtMs : Option Millis
deriving DecidableEq, Repr

structure SessionRecord where
  id : SessionId
  principalId : PrincipalId
  deviceId : DeviceId
  expiresAtMs : Millis
  revokedAtMs : Option Millis
deriving DecidableEq, Repr

structure ScratchRecord where
  id : ScratchId
  expiresAtMs : Millis
  claimedBy : Option PrincipalId
  revokedAtMs : Option Millis
deriving DecidableEq, Repr

structure DocumentAclRecord where
  principalId : PrincipalId
  role : DocumentRole
  revokedAtMs : Option Millis
deriving DecidableEq, Repr

structure LinkGrantRecord where
  tokenHash : Bytes
  role : DocumentRole
  expiresAtMs : Millis
  revokedAtMs : Option Millis
deriving DecidableEq, Repr

/-- A cookie session that passed validation. -/
structure AuthenticatedSession where
  id : SessionId
  principalId : PrincipalId
  deviceId : DeviceId
  expiresAtMs : Millis
deriving DecidableEq, Repr

inductive Caller
  | principal (session : AuthenticatedSession)
  | scratch (id : ScratchId)
deriving DecidableEq, Repr

inductive SiteAuthority
  | scratch (id : ScratchId)
  | principal (id : PrincipalId) (device : DeviceId)
deriving DecidableEq, Repr

structure SiteRow where
  siteId : SiteId
  authority : SiteAuthority
deriving DecidableEq, Repr

inductive TicketAuthority
  | principal (principalId : PrincipalId) (sessionId : SessionId) (deviceId : DeviceId)
      (role : DocumentRole)
  | scratch (id : ScratchId)
deriving DecidableEq, Repr

structure TicketRecord where
  id : TicketId
  secretHash : Bytes
  authority : TicketAuthority
  esbtSite : SiteId
  authorizationEpoch : Nat
  expiresAtMs : Millis
  consumedAtMs : Option Millis
  revokedAtMs : Option Millis
deriving DecidableEq, Repr

structure Actor where
  principalId : PrincipalId
  sessionId : SessionId
  deviceId : DeviceId
  esbtSite : SiteId
  role : DocumentRole
  authorizationEpoch : Nat
deriving DecidableEq, Repr

structure ScratchActor where
  scratchId : ScratchId
  esbtSite : SiteId
  authorizationEpoch : Nat
deriving DecidableEq, Repr

inductive RoomActor
  | principal (actor : Actor)
  | scratch (actor : ScratchActor)
deriving DecidableEq, Repr

namespace RoomActor

def authorizationEpoch : RoomActor → Nat
  | principal actor => actor.authorizationEpoch
  | scratch actor => actor.authorizationEpoch

def esbtSite : RoomActor → SiteId
  | principal actor => actor.esbtSite
  | scratch actor => actor.esbtSite

end RoomActor

/-- The tables that decide who may act on the document. -/
structure AuthorityTables where
  principals : List PrincipalRecord
  devices : List DeviceRecord
  sessions : List SessionRecord
  scratches : List ScratchRecord
  document : DocumentMetaRow
  acl : List DocumentAclRecord
  linkGrants : List LinkGrantRecord
  sites : List SiteRow
  tickets : List TicketRecord
deriving DecidableEq, Repr

/-! ## Validators -/

def authorizeDocumentAction : DocumentRole → DocumentAction → Bool
  | .owner, _ => true
  | .editor, action =>
    action ∈ [.read, .publishPresence, .export, .editText, .comment]
  | .commenter, action => action ∈ [.read, .publishPresence, .export, .comment]
  | .viewer, action => action ∈ [.read, .publishPresence, .export]

def authorizeRoomAction : RoomActor → DocumentAction → Bool
  | .principal actor, action => authorizeDocumentAction actor.role action
  | .scratch _, action => action ∈ [.read, .publishPresence, .export, .editText, .delete]

def requireLiveDocument (document : DocumentRecord) : Bool := document.deletedAtMs.isNone

def requireActivePrincipal (principal : PrincipalRecord) : Bool := principal.disabledAtMs.isNone

def requireScratchDocument (document : DocumentRecord) (scratchId : ScratchId) : Bool :=
  requireLiveDocument document && document.owner == .scratch scratchId

def requirePrincipalDocument (document : DocumentRecord) (principalId : PrincipalId) : Bool :=
  requireLiveDocument document && document.owner == .principal principalId

def requireDeletedDocumentOwner (document : DocumentRecord) (owner : DocumentOwner) : Bool :=
  document.deletedAtMs.isSome && document.owner == owner

def requireLiveScratch (scratch : ScratchRecord) (now : Millis) : Bool :=
  scratch.revokedAtMs.isNone && scratch.claimedBy.isNone && now < scratch.expiresAtMs

/-- The live ACL row wins unless the principal owns the document. -/
def resolveDocumentRole (document : DocumentRecord) (principalId : PrincipalId)
    (acl : List DocumentAclRecord) : Option DocumentRole :=
  if !requireLiveDocument document then none
  else
    match document.owner with
    | .scratch _ => none
    | .principal owner =>
      if owner = principalId then some .owner
      else (acl.find? fun row => row.principalId == principalId && row.revokedAtMs.isNone).map (·.role)

def applyPublicEditorFloor (role : DocumentRole) (publicEdit : Bool) : DocumentRole :=
  if publicEdit ∧ (role = .commenter ∨ role = .viewer) then .editor else role

namespace AuthorityTables

variable (db : AuthorityTables)

def loadPrincipal (id : PrincipalId) : Option PrincipalRecord := db.principals.find? (·.id == id)
def loadDevice (id : DeviceId) : Option DeviceRecord := db.devices.find? (·.id == id)
def loadSession (id : SessionId) : Option SessionRecord := db.sessions.find? (·.id == id)
def loadScratch (id : ScratchId) : Option ScratchRecord := db.scratches.find? (·.id == id)
def loadTicket (id : TicketId) : Option TicketRecord := db.tickets.find? (·.id == id)

def live : Bool := requireLiveDocument db.document.record
def epoch : Nat := db.document.record.authorizationEpoch

/-- The role a principal has on the document; the public floor applies to outsiders too. -/
def principalRole (principalId : PrincipalId) : Option DocumentRole :=
  match resolveDocumentRole db.document.record principalId db.acl with
  | some role => some (applyPublicEditorFloor role db.document.publicEdit)
  | none => if db.document.publicEdit then some .editor else none

/-- `resolve_caller_role`; `some none` is a scratch workspace on its own document. -/
def resolveCallerRole : Caller → Option (Option DocumentRole)
  | .principal session => (db.principalRole session.principalId).map some
  | .scratch scratchId =>
    if requireScratchDocument db.document.record scratchId then some none
    else if db.document.publicEdit then some (some .editor)
    else none

def requireOwner : Caller → Except ApiError Unit
  | .principal session =>
    match db.resolveCallerRole (.principal session) with
    | some (some role) =>
      if role ≠ .owner then .error .forbidden
      else if requirePrincipalDocument db.document.record session.principalId then .ok ()
      else .error .notFound
    | _ => .error .notFound
  | .scratch scratchId =>
    if requireScratchDocument db.document.record scratchId then .ok () else .error .notFound

end AuthorityTables

/-! ## Sessions and devices -/

section
variable (db : AuthorityTables)

/-- `cookie_session`, the cookie's secret having matched. -/
def cookieSession (sessionId : SessionId) (now : Millis) : Option AuthenticatedSession :=
  match db.loadSession sessionId with
  | none => none
  | some session =>
    match db.loadDevice session.deviceId, db.loadPrincipal session.principalId with
    | some device, some principal =>
      if requireActivePrincipal principal ∧ session.revokedAtMs = none ∧ now < session.expiresAtMs ∧
          session.principalId = device.principalId ∧ device.revokedAtMs = none then
        some ⟨session.id, session.principalId, session.deviceId, session.expiresAtMs⟩
      else none
    | _, _ => none

/-- `scratch_caller`, the capability having matched. -/
def scratchCaller (scratchId : ScratchId) (now : Millis) : Option ScratchId :=
  match db.loadScratch scratchId with
  | some scratch => if requireLiveScratch scratch now then some scratch.id else none
  | none => none

def insertPrincipal (id : PrincipalId) : Except ApiError AuthorityTables :=
  if (db.loadPrincipal id).isSome then .error .internal
  else .ok { db with principals := db.principals ++ [⟨id, none⟩] }

def insertDevice (id : DeviceId) (principalId : PrincipalId) (revokeDevices : Bool) :
    Except ApiError AuthorityTables :=
  if (db.loadDevice id).isSome ∨ (db.loadPrincipal principalId).isNone then .error .internal
  else .ok { db with devices := db.devices ++ [⟨id, principalId, revokeDevices, none⟩] }

def insertSession (id : SessionId) (principalId : PrincipalId) (deviceId : DeviceId)
    (expiresAtMs : Millis) : Except ApiError AuthorityTables :=
  if (db.loadSession id).isSome ∨ (db.loadPrincipal principalId).isNone ∨
      (db.loadDevice deviceId).isNone then .error .internal
  else .ok { db with sessions := db.sessions ++ [⟨id, principalId, deviceId, expiresAtMs, none⟩] }

def scratchCreate (id : ScratchId) (expiresAtMs : Millis) : Except ApiError AuthorityTables :=
  if (db.loadScratch id).isSome then .error .internal
  else .ok { db with scratches := db.scratches ++ [⟨id, expiresAtMs, none, none⟩] }

/-- The rotation of `session_get`: a new expiry for an unrevoked row. -/
def rotateSession (id : SessionId) (expiresAtMs : Millis) : AuthorityTables :=
  { db with sessions := db.sessions.map fun session =>
      if session.id = id ∧ session.revokedAtMs = none then { session with expiresAtMs } else session }

def sessionDelete (id : SessionId) (now : Millis) : AuthorityTables :=
  { db with sessions := db.sessions.map fun session =>
      if session.id = id ∧ session.revokedAtMs = none then { session with revokedAtMs := some now }
      else session }

def deviceRevoke (caller : AuthenticatedSession) (target : DeviceId) (now : Millis) :
    Except ApiError AuthorityTables :=
  match db.loadDevice caller.deviceId, db.loadDevice target with
  | none, _ => .error .forbidden
  | some _, none => .error .notFound
  | some actor, some device =>
    if actor.revokedAtMs ≠ none ∨ actor.principalId ≠ device.principalId ∨ !actor.revokeDevices then
      .error .forbidden
    else .ok { db with
      devices := db.devices.map fun row =>
        if row.id = device.id ∧ row.revokedAtMs = none then { row with revokedAtMs := some now } else row
      sessions := db.sessions.map fun row =>
        if row.deviceId = device.id ∧ row.revokedAtMs = none then { row with revokedAtMs := some now }
        else row }

end

/-! ## Sites and tickets -/

def parseUnsigned (bound : Nat) (digits : List Char) : Option Nat :=
  let value := digits.foldl (fun n c => 10 * n + (c.toNat - 48)) 0
  if digits ≠ [] ∧ digits.all Char.isDigit ∧ value < bound then some value else none

/-- The hint in a session body: a number or the text of one. -/
def requestedSite (siteId : Option Json) : Option SiteId :=
  match siteId with
  | some (.number digits) => (parseUnsigned (2 ^ 64) digits).filter (· < 2 ^ 32)
  | some (.string ('+' :: digits)) => parseUnsigned (2 ^ 32) digits
  | some (.string digits) => parseUnsigned (2 ^ 32) digits
  | _ => none

section
variable (db : AuthorityTables)

/-- The lowest client site no row holds; one of the first `length + 1` candidates is free. -/
def allocateEsbtSite (occupied : List SiteId) : Option SiteId :=
  ((List.range' 2 (occupied.length + 1)).find? fun site => !occupied.contains site).filter
    fun site => site < 2 ^ 32

def allocateSite (requested : Option SiteId) (authority : SiteAuthority) :
    Except ApiError (AuthorityTables × SiteId) :=
  match requested.bind fun site => db.sites.find? (·.siteId == site) with
  | some row =>
    if row.authority = authority then .ok (db, row.siteId)
    else .error .forbidden
  | none =>
    match allocateEsbtSite (db.sites.map (·.siteId)) with
    | some site => .ok ({ db with sites := db.sites ++ [⟨site, authority⟩] }, site)
    | none => .error .internal

def documentTicketTtlMs : Millis := 30000

def insertTicket (ticket : TicketRecord) : Except ApiError AuthorityTables :=
  if (db.loadTicket ticket.id).isSome then .error .internal
  else .ok { db with tickets := db.tickets ++ [ticket] }

/-- `issue_document_ticket` and `issue_public_document_ticket`; the second grants the editor role. -/
def issuePrincipalTicket (id : TicketId) (secretHash : Bytes) (session : AuthenticatedSession)
    (role : DocumentRole) (site : SiteId) (now : Millis) : Except ApiError TicketRecord :=
  let ticket (role : DocumentRole) : TicketRecord :=
    ⟨id, secretHash, .principal session.principalId session.id session.deviceId role, site, db.epoch,
      now + documentTicketTtlMs, none, none⟩
  if !db.live ∨ session.expiresAtMs ≤ now then .error .unauthenticated
  else
    match db.document.record.owner with
    | .scratch _ => if db.document.publicEdit then .ok (ticket .editor) else .error .unauthenticated
    | .principal _ => .ok (ticket role)

def principalRoomSession (session : AuthenticatedSession) (requested : Option SiteId) (id : TicketId)
    (secretHash : Bytes) (now : Millis) : Except ApiError (AuthorityTables × SiteId) :=
  if !db.live then .error .notFound
  else
    match db.resolveCallerRole (.principal session) with
    | some (some role) =>
      match allocateSite db requested (.principal session.principalId session.deviceId) with
      | .error error => .error error
      | .ok (db, site) =>
        match issuePrincipalTicket db id secretHash session role site now with
        | .error error => .error error
        | .ok ticket =>
          match insertTicket db ticket with
          | .error error => .error error
          | .ok db => .ok (db, site)
    | _ => .error .notFound

/-- `issue_scratch_document_ticket` and its public counterpart, chosen by the resolved role. -/
def issueScratchTicket (id : TicketId) (secretHash : Bytes) (scratch : ScratchRecord)
    (role : Option DocumentRole) (site : SiteId) (now : Millis) : Except ApiError TicketRecord :=
  let allowed := if role = some .editor then db.live && db.document.publicEdit
    else requireScratchDocument db.document.record scratch.id
  if allowed ∧ requireLiveScratch scratch now then
    .ok ⟨id, secretHash, .scratch scratch.id, site, db.epoch, now + documentTicketTtlMs, none, none⟩
  else .error .notFound

def scratchRoomSession (scratchId : ScratchId) (requested : Option SiteId) (id : TicketId)
    (secretHash : Bytes) (now : Millis) : Except ApiError (AuthorityTables × SiteId) :=
  if !db.live then .error .notFound
  else
    match db.loadScratch scratchId with
    | none => .error .unauthenticated
    | some scratch =>
      match db.resolveCallerRole (.scratch scratchId) with
      | none => .error .notFound
      | some role =>
        match allocateSite db requested (.scratch scratchId) with
        | .error error => .error error
        | .ok (db, site) =>
          match issueScratchTicket db id secretHash scratch role site now with
          | .error error => .error error
          | .ok ticket =>
            match insertTicket db ticket with
            | .error error => .error error
            | .ok db => .ok (db, site)

def requireLivePresentedTicket (secretMatches : Bool) (ticket : TicketRecord) (now : Millis) : Bool :=
  secretMatches && ticket.consumedAtMs.isNone && ticket.revokedAtMs.isNone && now < ticket.expiresAtMs

/-- `redeem_document_ticket`, and `redeem_public_document_ticket` on a scratch-owned document. -/
def redeemPrincipalTicket (ticket : TicketRecord) (session : AuthenticatedSession) (now : Millis) :
    Option RoomActor :=
  match ticket.authority with
  | .scratch _ => none
  | .principal principalId sessionId deviceId role =>
    let ownerAllows : Bool := match db.document.record.owner with
      | .scratch _ => db.document.publicEdit && role == .editor
      | .principal _ => true
    if db.live ∧ ownerAllows ∧ now < session.expiresAtMs ∧ sessionId = session.id ∧
        principalId = session.principalId ∧ deviceId = session.deviceId ∧
        ticket.authorizationEpoch = db.epoch then
      some (.principal
        ⟨principalId, sessionId, deviceId, ticket.esbtSite, role, ticket.authorizationEpoch⟩)
    else none

/-- `redeem_scratch_document_ticket`, or the public counterpart off the workspace's own documents. -/
def redeemScratchTicket (ticket : TicketRecord) (now : Millis) : Option RoomActor :=
  match ticket.authority with
  | .principal .. => none
  | .scratch scratchId =>
    match db.loadScratch scratchId with
    | none => none
    | some scratch =>
      if requireLiveScratch scratch now ∧ db.live ∧
          (requireScratchDocument db.document.record scratchId ∨ db.document.publicEdit) ∧
          ticket.authorizationEpoch = db.epoch then
        some (.scratch ⟨scratchId, ticket.esbtSite, ticket.authorizationEpoch⟩)
      else none

/-- The upgrade transaction: validate the ticket and consume it. -/
def admitTicket (ticketId : TicketId) (secretMatches : Bool) (cookie : Option AuthenticatedSession)
    (now : Millis) : Except ApiError (AuthorityTables × RoomActor) :=
  match db.loadTicket ticketId with
  | none => .error .unauthenticated
  | some ticket =>
    if !db.live then .error .notFound
    else if !requireLivePresentedTicket secretMatches ticket now then .error .unauthenticated
    else
      let redeemed := match ticket.authority with
        | .principal .. => cookie.bind fun session => redeemPrincipalTicket db ticket session now
        | .scratch _ => redeemScratchTicket db ticket now
      match redeemed with
      | none => .error .unauthenticated
      | some actor => .ok ({ db with tickets := db.tickets.map fun row =>
          if row.id = ticketId then { row with consumedAtMs := some now } else row }, actor)

end

/-! ## Document routes -/

section
variable (db : AuthorityTables)

/-- Outstanding tickets fail closed. -/
def revokeTickets (now : Millis) : AuthorityTables :=
  { db with tickets := db.tickets.map fun ticket =>
      if ticket.consumedAtMs = none ∧ ticket.revokedAtMs = none then
        { ticket with revokedAtMs := some now }
      else ticket }

def setRecord (record : DocumentRecord) : AuthorityTables :=
  { db with document := { db.document with record } }

def bumpEpoch (now : Millis) : AuthorityTables :=
  revokeTickets (setRecord db
    { db.document.record with authorizationEpoch := db.epoch + 1 }) now

/-- `INSERT … ON CONFLICT(document_id, principal_id) DO UPDATE`. -/
def upsertAcl (principalId : PrincipalId) (role : DocumentRole) : AuthorityTables :=
  if db.acl.any (·.principalId == principalId) then
    { db with acl := db.acl.map fun row =>
        if row.principalId = principalId then { row with role, revokedAtMs := none } else row }
  else { db with acl := db.acl ++ [⟨principalId, role, none⟩] }

def ownerGuard (caller : Caller) : Except ApiError Unit :=
  if !db.live then .error .notFound else db.requireOwner caller

def sharePut (caller : AuthenticatedSession) (grantee : PrincipalId) (role : DocumentRole)
    (now : Millis) : Except ApiError AuthorityTables :=
  if role = .owner then .error .badRequest
  else
    match ownerGuard db (.principal caller) with
    | .error error => .error error
    | .ok () =>
      if (db.loadPrincipal grantee).isNone then .error .notFound
      else if db.document.record.owner = .principal grantee then .error .conflict
      else .ok (bumpEpoch (upsertAcl db grantee role) now)

def shareDelete (caller : AuthenticatedSession) (grantee : PrincipalId) (now : Millis) :
    Except ApiError AuthorityTables :=
  match ownerGuard db (.principal caller) with
  | .error error => .error error
  | .ok () =>
    .ok (bumpEpoch { db with acl := db.acl.map fun row =>
      if row.principalId = grantee ∧ row.revokedAtMs = none then { row with revokedAtMs := some now }
      else row } now)

def revokeLinks (now : Millis) : AuthorityTables :=
  { db with linkGrants := db.linkGrants.map fun grant =>
      if grant.revokedAtMs = none then { grant with revokedAtMs := some now } else grant }

def linkCreate (caller : AuthenticatedSession) (role : DocumentRole) (tokenHash : Bytes)
    (ttl now : Millis) : Except ApiError AuthorityTables :=
  if role = .owner then .error .badRequest
  else
    match ownerGuard db (.principal caller) with
    | .error error => .error error
    | .ok () =>
      let db := revokeLinks db now
      .ok (bumpEpoch { db with linkGrants := db.linkGrants ++ [⟨tokenHash, role, now + ttl, none⟩] } now)

def linkRevoke (caller : AuthenticatedSession) (now : Millis) : Except ApiError AuthorityTables :=
  match ownerGuard db (.principal caller) with
  | .error error => .error error
  | .ok () => .ok (bumpEpoch (revokeLinks db now) now)

def redeemLinkGrant (grant : LinkGrantRecord) (tokenHash : Bytes) (now : Millis) :
    Option DocumentRole :=
  if grant.role ≠ .owner ∧ grant.tokenHash = tokenHash ∧ grant.revokedAtMs = none ∧
      now < grant.expiresAtMs then some grant.role
  else none

/-- A live link turns into an ACL row; it neither replaces a live row nor bumps the epoch. -/
def linkRedeem (caller : AuthenticatedSession) (tokenHash : Bytes) (now : Millis) :
    Except ApiError AuthorityTables :=
  if !db.live then .error .notFound
  else
    match db.linkGrants.findSome? fun grant => redeemLinkGrant grant tokenHash now with
    | none => .error .unauthenticated
    | some role =>
      if db.document.record.owner = .principal caller.principalId then .ok db
      else if db.acl.any fun row => row.principalId == caller.principalId && row.revokedAtMs.isNone then
        .ok db
      else .ok (upsertAcl db caller.principalId role)

def deleteDocument (caller : Caller) (now : Millis) : Except ApiError AuthorityTables :=
  match ownerGuard db caller with
  | .error error => .error error
  | .ok () =>
    .ok (revokeTickets (setRecord db
      { db.document.record with deletedAtMs := some now, authorizationEpoch := db.epoch + 1 }) now)

def callerOwner : Caller → DocumentOwner
  | .principal session => .principal session.principalId
  | .scratch scratchId => .scratch scratchId

def restoreDocument (caller : Caller) : Except ApiError AuthorityTables :=
  if db.live then .error .notFound
  else if requireDeletedDocumentOwner db.document.record (callerOwner caller) then
    .ok (setRecord db
      { db.document.record with deletedAtMs := none, authorizationEpoch := db.epoch + 1 })
  else .error .notFound

/-- `claim_scratch_documents` on this document: untouched unless the workspace owns it. -/
def claimScratchDocuments (scratchId : ScratchId) (principalId : PrincipalId)
    (browserDeviceId : DeviceId) (now : Millis) : AuthorityTables :=
  if db.document.record.owner = .scratch scratchId then
    let db := setRecord db
      { db.document.record with owner := .principal principalId, authorizationEpoch := db.epoch + 1 }
    let db := if db.acl.any (·.principalId == principalId) then db
      else { db with acl := db.acl ++ [⟨principalId, .owner, none⟩] }
    let db := revokeTickets db now
    { db with sites := db.sites.map fun row =>
        if row.authority = .scratch scratchId then
          { row with authority := .principal principalId browserDeviceId }
        else row }
  else db

/-- `persist_scratch_claim`: the first claim wins, a repeat by the same principal changes nothing. -/
def persistScratchClaim (scratchId : ScratchId) (principalId : PrincipalId) (now : Millis) :
    Except ApiError AuthorityTables :=
  match db.loadScratch scratchId with
  | none => .error .unauthenticated
  | some scratch =>
    if scratch.revokedAtMs ≠ none ∨ scratch.expiresAtMs ≤ now then .error .conflict
    else
      match scratch.claimedBy with
      | some claimed => if claimed = principalId then .ok db else .error .conflict
      | none => .ok { db with scratches := db.scratches.map fun row =>
          if row.id = scratchId ∧ row.claimedBy = none then { row with claimedBy := some principalId }
          else row }

def claim (scratchId : ScratchId) (principalId : PrincipalId) (browserDeviceId : DeviceId)
    (now : Millis) : Except ApiError AuthorityTables :=
  persistScratchClaim (claimScratchDocuments db scratchId principalId browserDeviceId now)
    scratchId principalId now

end

end Marks
