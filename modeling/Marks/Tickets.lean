import Marks.Workspace

/-! # One-use room tickets

The tickets of all documents, the routes that mint them and the upgrade that redeems one. An upgrade reads the
clock and its session when it arrives, and its transaction runs later: whatever happens between the two is a
step of its own. The site a ticket is for is the one allocated to it. -/

namespace Marks.Tickets

/-! ## Records -/

structure RoomDocument where
  id : DocumentId
  row : DocumentMetaRow
  acl : List DocumentAclRecord
deriving DecidableEq, Repr

structure DocumentTicketRecord extends TicketRecord where
  documentId : DocumentId
deriving DecidableEq, Repr

structure DocumentActor where
  documentId : DocumentId
  actor : RoomActor
deriving DecidableEq, Repr

inductive DocumentTicketError where
  | invalidSecret
  | consumed
  | revoked
  | expired
  | sessionInactive
  | sessionMismatch
  | documentMismatch
  | siteMismatch
  | documentInactive
  | authorizationStale
  | scratchMismatch
  | scratchInactive
  | publicAccessInactive
deriving DecidableEq, Repr

/-- An upgrade that has arrived: what it presents, and the clock it read. -/
structure UpgradeAttempt where
  ticketId : TicketId
  secret : Bytes
  documentId : DocumentId
  cookie : Option AuthenticatedSession
  now : Millis
deriving DecidableEq, Repr

/-- A transaction that admitted an attempt, with the rows and the clock it ran at. -/
structure Admission where
  attempt : UpgradeAttempt
  ticket : DocumentTicketRecord
  document : RoomDocument
  scratch : Option ScratchRecord
  clock : Millis
  actor : DocumentActor
deriving DecidableEq, Repr

inductive TicketLog where
  | minted (caller : Caller) (documentId : DocumentId) (site : SiteId) (role : Option DocumentRole)
    (ticket : DocumentTicketRecord)
  | admitted (admission : Admission)
deriving DecidableEq, Repr

structure TicketOffice where
  documents : List RoomDocument
  scratches : List ScratchRecord
  tickets : List DocumentTicketRecord
  drawn : TicketId
  clock : Millis
  attempts : List UpgradeAttempt
  log : List TicketLog
deriving DecidableEq, Repr

/-- A share or link route leaves an ACL behind and bumps the epoch; a redeemed link bumps nothing. -/
inductive TicketEvent where
  | createDocument (id : DocumentId) (owner : DocumentOwner) (publicEdit : Bool)
  | scratchCreate (id : ScratchId) (expiresAtMs : Millis)
  | principalRoomSession (session : AuthenticatedSession) (document : DocumentId) (site : SiteId) (secret : Bytes)
    (now : Millis)
  | scratchRoomSession (scratchId : ScratchId) (document : DocumentId) (site : SiteId) (secret : Bytes) (now : Millis)
  | arrive (ticketId : TicketId) (secret : Bytes) (document : DocumentId) (cookie : Option AuthenticatedSession)
  | admitUpgrade (attempt : Nat)
  | shareChange (document : DocumentId) (acl : List DocumentAclRecord)
  | linkRedeem (document : DocumentId) (acl : List DocumentAclRecord)
  | delete (document : DocumentId)
  | restore (document : DocumentId)
  | purge (document : DocumentId)
  | claim (scratchId : ScratchId) (principalId : PrincipalId)
  | tick (clock : Millis)
deriving DecidableEq, Repr

def ticketSecretBytes : Nat := 32
def serverSite : SiteId := 1

section
variable (hash : Bytes → Bytes)

def bearerMatches (presented : Bytes) (expectedLen : Nat) (storedHash : Bytes) : Bool :=
  presented.length == expectedLen && hash presented == storedHash

/-! ## Validators -/

def requireLivePresentedTicket (ticket : DocumentTicketRecord) (presentedSecret : Bytes) (now : Millis) :
    Except DocumentTicketError Unit :=
  if !bearerMatches hash presentedSecret ticketSecretBytes ticket.secretHash then .error .invalidSecret
  else if ticket.consumedAtMs.isSome then .error .consumed
  else if ticket.revokedAtMs.isSome then .error .revoked
  else if ticket.expiresAtMs ≤ now then .error .expired
  else .ok ()

def requireLiveScratch (scratch : ScratchRecord) (now : Millis) : Except DocumentTicketError Unit :=
  if scratch.revokedAtMs.isSome ∨ scratch.claimedBy.isSome ∨ scratch.expiresAtMs ≤ now then .error .scratchInactive
  else .ok ()

def requireClientSite (site : SiteId) : Except DocumentTicketError SiteId :=
  if site = serverSite then .error .siteMismatch else .ok site

def requireTicketSecret (secret : Bytes) : Except DocumentTicketError Bytes :=
  if secret.length ≠ ticketSecretBytes then .error .invalidSecret else .ok (hash secret)

/-- What the four redeem functions ask last. -/
def requireBinding (ticket : DocumentTicketRecord) (document : RoomDocument) (expectedSite : SiteId) :
    Except DocumentTicketError Unit :=
  if ticket.documentId ≠ document.id then .error .documentMismatch
  else if ticket.esbtSite ≠ expectedSite then .error .siteMismatch
  else if ticket.authorizationEpoch ≠ document.row.record.authorizationEpoch then .error .authorizationStale
  else .ok ()

/-- A ticket's row with the terms of its document. -/
def issue (id : TicketId) (secret : Bytes) (authority : TicketAuthority) (document : RoomDocument) (site : SiteId)
    (now : Millis) : Except DocumentTicketError DocumentTicketRecord := do
  let secretHash ← requireTicketSecret hash secret
  let esbtSite ← requireClientSite site
  return ⟨⟨id, secretHash, authority, esbtSite, document.row.record.authorizationEpoch, now + documentTicketTtlMs, none,
    none⟩, document.id⟩

def issueDocumentTicket (id : TicketId) (secret : Bytes) (session : AuthenticatedSession) (document : RoomDocument)
    (role : DocumentRole) (site : SiteId) (now : Millis) : Except DocumentTicketError DocumentTicketRecord :=
  if !requireLiveDocument document.row.record then .error .documentInactive
  else
    match document.row.record.owner with
    | .scratch _ => .error .documentInactive
    | .principal _ =>
      if session.expiresAtMs ≤ now then .error .sessionInactive
      else issue hash id secret (.principal session.principalId session.id session.deviceId role) document site now

def issuePublicDocumentTicket (id : TicketId) (secret : Bytes) (session : AuthenticatedSession)
    (document : RoomDocument) (site : SiteId) (now : Millis) : Except DocumentTicketError DocumentTicketRecord :=
  if !requireLiveDocument document.row.record then .error .documentInactive
  else if !document.row.publicEdit then .error .publicAccessInactive
  else if session.expiresAtMs ≤ now then .error .sessionInactive
  else issue hash id secret (.principal session.principalId session.id session.deviceId .editor) document site now

def issueScratchDocumentTicket (id : TicketId) (secret : Bytes) (scratch : ScratchRecord) (document : RoomDocument)
    (site : SiteId) (now : Millis) : Except DocumentTicketError DocumentTicketRecord :=
  if !requireScratchDocument document.row.record scratch.id then .error .documentInactive
  else do
    requireLiveScratch scratch now
    issue hash id secret (.scratch scratch.id) document site now

def issuePublicScratchDocumentTicket (id : TicketId) (secret : Bytes) (scratch : ScratchRecord)
    (document : RoomDocument) (site : SiteId) (now : Millis) : Except DocumentTicketError DocumentTicketRecord :=
  if !requireLiveDocument document.row.record then .error .documentInactive
  else do
    requireLiveScratch scratch now
    if !document.row.publicEdit then .error .publicAccessInactive
    else issue hash id secret (.scratch scratch.id) document site now

/-- The ticket's principal, session and device are those of the session. -/
def requireSession (principalId : PrincipalId) (sessionId : SessionId) (deviceId : DeviceId)
    (session : AuthenticatedSession) (now : Millis) : Except DocumentTicketError Unit :=
  if session.expiresAtMs ≤ now then .error .sessionInactive
  else if sessionId ≠ session.id ∨ principalId ≠ session.principalId ∨ deviceId ≠ session.deviceId then
    .error .sessionMismatch
  else .ok ()

def redeemDocumentTicket (ticket : DocumentTicketRecord) (principalId : PrincipalId) (sessionId : SessionId)
    (deviceId : DeviceId) (role : DocumentRole) (presentedSecret : Bytes) (session : AuthenticatedSession)
    (document : RoomDocument) (expectedSite : SiteId) (now : Millis) : Except DocumentTicketError DocumentActor := do
  requireLivePresentedTicket hash ticket presentedSecret now
  if !requireLiveDocument document.row.record then .error .documentInactive
  else
    match document.row.record.owner with
    | .scratch _ => .error .documentInactive
    | .principal _ =>
      requireSession principalId sessionId deviceId session now
      requireBinding ticket document expectedSite
      .ok ⟨ticket.documentId,
        .principal ⟨principalId, sessionId, deviceId, ticket.esbtSite, role, ticket.authorizationEpoch⟩⟩

def redeemPublicDocumentTicket (ticket : DocumentTicketRecord) (principalId : PrincipalId) (sessionId : SessionId)
    (deviceId : DeviceId) (role : DocumentRole) (presentedSecret : Bytes) (session : AuthenticatedSession)
    (document : RoomDocument) (expectedSite : SiteId) (now : Millis) : Except DocumentTicketError DocumentActor := do
  requireLivePresentedTicket hash ticket presentedSecret now
  if !requireLiveDocument document.row.record then .error .documentInactive
  else if !document.row.publicEdit || role != .editor then .error .publicAccessInactive
  else
    requireSession principalId sessionId deviceId session now
    requireBinding ticket document expectedSite
    .ok ⟨ticket.documentId,
      .principal ⟨principalId, sessionId, deviceId, ticket.esbtSite, role, ticket.authorizationEpoch⟩⟩

def redeemScratchDocumentTicket (ticket : DocumentTicketRecord) (scratchId : ScratchId) (presentedSecret : Bytes)
    (scratch : ScratchRecord) (document : RoomDocument) (expectedSite : SiteId) (now : Millis) :
    Except DocumentTicketError DocumentActor := do
  requireLivePresentedTicket hash ticket presentedSecret now
  if scratchId ≠ scratch.id then .error .scratchMismatch
  else
    requireLiveScratch scratch now
    if !requireScratchDocument document.row.record scratch.id then .error .documentInactive
    else
      requireBinding ticket document expectedSite
      .ok ⟨ticket.documentId, .scratch ⟨scratchId, ticket.esbtSite, ticket.authorizationEpoch⟩⟩

def redeemPublicScratchDocumentTicket (ticket : DocumentTicketRecord) (scratchId : ScratchId)
    (presentedSecret : Bytes) (scratch : ScratchRecord) (document : RoomDocument) (expectedSite : SiteId)
    (now : Millis) : Except DocumentTicketError DocumentActor := do
  requireLivePresentedTicket hash ticket presentedSecret now
  if scratchId ≠ scratch.id then .error .scratchMismatch
  else
    requireLiveScratch scratch now
    if !requireLiveDocument document.row.record then .error .documentInactive
    else if !document.row.publicEdit then .error .publicAccessInactive
    else
      requireBinding ticket document expectedSite
      .ok ⟨ticket.documentId, .scratch ⟨scratchId, ticket.esbtSite, ticket.authorizationEpoch⟩⟩

end

namespace TicketOffice

/-! ## The store -/

section
variable (office : TicketOffice)

def loadDocument (id : DocumentId) : Option RoomDocument := office.documents.find? (·.id == id)
def loadScratch (id : ScratchId) : Option ScratchRecord := office.scratches.find? (·.id == id)
def loadTicket (id : TicketId) : Option DocumentTicketRecord := office.tickets.find? (·.id == id)

def updateDocument (id : DocumentId) (f : RoomDocument → RoomDocument) : TicketOffice :=
  { office with documents := office.documents.map fun document => if document.id = id then f document else document }

/-- Outstanding tickets of these documents fail closed. -/
def revokeTickets (affected : DocumentId → Bool) : TicketOffice :=
  { office with tickets := office.tickets.map fun ticket =>
      if affected ticket.documentId ∧ ticket.consumedAtMs = none ∧ ticket.revokedAtMs = none then
        { ticket with revokedAtMs := some office.clock }
      else ticket }

end

def bumped (document : RoomDocument) (record : DocumentRecord) : RoomDocument :=
  { document with row := { document.row with record :=
    { record with authorizationEpoch := record.authorizationEpoch + 1 } } }

section
variable (hash : Bytes → Bytes) (office : TicketOffice)

/-! ## Minting -/

/-- The insert of a ticket under a random id, which is never drawn twice. -/
def insertTicket (caller : Caller) (site : SiteId) (role : Option DocumentRole)
    (issued : Except DocumentTicketError DocumentTicketRecord) : TicketOffice :=
  match issued with
  | .error _ => office
  | .ok ticket =>
    { office with
      tickets := office.tickets ++ [ticket]
      drawn := office.drawn + 1
      log := .minted caller ticket.documentId site role ticket :: office.log }

/-- The role of `resolve_caller_role`. -/
def callerRole (document : RoomDocument) (principalId : PrincipalId) : Option DocumentRole :=
  match resolveDocumentRole document.row.record principalId document.acl with
  | some role => some (applyPublicEditorFloor role document.row.publicEdit)
  | none => if document.row.publicEdit then some .editor else none

def principalRoomSession (session : AuthenticatedSession) (documentId : DocumentId) (site : SiteId) (secret : Bytes)
    (now : Millis) : TicketOffice :=
  match office.loadDocument documentId with
  | none => office
  | some document =>
    if !requireLiveDocument document.row.record then office
    else
      match callerRole document session.principalId with
      | none => office
      | some role =>
        match document.row.record.owner with
        | .scratch _ => office.insertTicket (.principal session) site (some .editor)
            (issuePublicDocumentTicket hash office.drawn secret session document site now)
        | .principal _ => office.insertTicket (.principal session) site (some role)
            (issueDocumentTicket hash office.drawn secret session document role site now)

def scratchRoomSession (scratchId : ScratchId) (documentId : DocumentId) (site : SiteId) (secret : Bytes)
    (now : Millis) : TicketOffice :=
  match office.loadDocument documentId with
  | none => office
  | some document =>
    if !requireLiveDocument document.row.record then office
    else
      match office.loadScratch scratchId with
      | none => office
      | some scratch =>
        if requireScratchDocument document.row.record scratchId then
          office.insertTicket (.scratch scratchId) site none
            (issueScratchDocumentTicket hash office.drawn secret scratch document site now)
        else if document.row.publicEdit then
          office.insertTicket (.scratch scratchId) site none
            (issuePublicScratchDocumentTicket hash office.drawn secret scratch document site now)
        else office

/-! ## The upgrade -/

/-- The redeem function for the kind of the ticket and of the document's owner. -/
def redeem (attempt : UpgradeAttempt) (ticket : DocumentTicketRecord) (document : RoomDocument) :
    Option (DocumentActor × Option ScratchRecord) :=
  match ticket.authority with
  | .principal principalId sessionId deviceId role =>
    attempt.cookie.bind fun session =>
      let redeemed := match document.row.record.owner with
        | .scratch _ => redeemPublicDocumentTicket hash ticket principalId sessionId deviceId role attempt.secret session
            document ticket.esbtSite attempt.now
        | .principal _ => redeemDocumentTicket hash ticket principalId sessionId deviceId role attempt.secret session
            document ticket.esbtSite attempt.now
      redeemed.toOption.map fun actor => (actor, none)
  | .scratch scratchId =>
    (office.loadScratch scratchId).bind fun scratch =>
      let redeemed := if requireScratchDocument document.row.record scratchId then
          redeemScratchDocumentTicket hash ticket scratchId attempt.secret scratch document ticket.esbtSite attempt.now
        else redeemPublicScratchDocumentTicket hash ticket scratchId attempt.secret scratch document ticket.esbtSite
          attempt.now
      redeemed.toOption.map fun actor => (actor, some scratch)

/-- The transaction of `admit`: the ticket is consumed where it is validated. -/
def admitAttempt (attempt : UpgradeAttempt) : TicketOffice :=
  match office.loadTicket attempt.ticketId, office.loadDocument attempt.documentId with
  | some ticket, some document =>
    if !requireLiveDocument document.row.record then office
    else
      match office.redeem hash attempt ticket document with
      | none => office
      | some (actor, scratch) =>
        if office.tickets.any fun row =>
            row.id == attempt.ticketId && row.consumedAtMs.isNone && row.revokedAtMs.isNone then
          { office with
            tickets := office.tickets.map fun row =>
              if row.id = attempt.ticketId ∧ row.consumedAtMs = none ∧ row.revokedAtMs = none then
                { row with consumedAtMs := some attempt.now }
              else row
            log := .admitted ⟨attempt, ticket, document, scratch, office.clock, actor⟩ :: office.log }
        else office
  | _, _ => office

def admitUpgrade (i : Nat) : TicketOffice :=
  match office.attempts[i]? with
  | none => office
  | some attempt => { office.admitAttempt hash attempt with attempts := office.attempts.eraseIdx i }

/-! ## The other routes -/

def shareChange (documentId : DocumentId) (acl : List DocumentAclRecord) : TicketOffice :=
  match office.loadDocument documentId with
  | none => office
  | some document =>
    if requireLiveDocument document.row.record then
      (office.updateDocument documentId fun document => bumped { document with acl } document.row.record).revokeTickets
        (· == documentId)
    else office

def delete (documentId : DocumentId) : TicketOffice :=
  match office.loadDocument documentId with
  | none => office
  | some document =>
    if requireLiveDocument document.row.record then
      (office.updateDocument documentId fun document =>
        bumped document { document.row.record with deletedAtMs := some office.clock }).revokeTickets (· == documentId)
    else office

def restore (documentId : DocumentId) : TicketOffice :=
  match office.loadDocument documentId with
  | none => office
  | some document =>
    if requireLiveDocument document.row.record then office
    else office.updateDocument documentId fun document => bumped document { document.row.record with deletedAtMs := none }

def purge (documentId : DocumentId) : TicketOffice :=
  match office.loadDocument documentId with
  | none => office
  | some document =>
    if requireLiveDocument document.row.record then office
    else
      { office with
        documents := office.documents.filter (·.id != documentId)
        tickets := office.tickets.filter (·.documentId != documentId) }

/-- `claim_scratch_documents` and `persist_scratch_claim` in one transaction. -/
def claim (scratchId : ScratchId) (principalId : PrincipalId) : TicketOffice :=
  match office.loadScratch scratchId with
  | none => office
  | some scratch =>
    if scratch.revokedAtMs.isSome ∨ scratch.expiresAtMs ≤ office.clock ∨
        scratch.claimedBy.any (· != principalId) then office
    else
      let owned (document : RoomDocument) : Bool := document.row.record.owner == .scratch scratchId
      let claimed : TicketOffice := { office with
        scratches := office.scratches.map fun row =>
          if row.id = scratchId ∧ row.claimedBy = none then { row with claimedBy := some principalId } else row
        documents := office.documents.map fun document =>
          if owned document then
            bumped { document with acl := document.acl ++ [⟨principalId, .owner, none⟩] }
              { document.row.record with owner := .principal principalId }
          else document }
      claimed.revokeTickets fun id => office.documents.any fun document => document.id == id && owned document

def createDocument (id : DocumentId) (owner : DocumentOwner) (publicEdit : Bool) : TicketOffice :=
  if (office.loadDocument id).isSome then office
  else { office with documents := office.documents ++ [⟨id, ⟨⟨owner, 1, none⟩, publicEdit⟩, []⟩] }

def scratchCreate (id : ScratchId) (expiresAtMs : Millis) : TicketOffice :=
  if (office.loadScratch id).isSome then office
  else { office with scratches := office.scratches ++ [⟨id, expiresAtMs, none, none⟩] }

def step : TicketEvent → TicketOffice
  | .createDocument id owner publicEdit => office.createDocument id owner publicEdit
  | .scratchCreate id expiresAtMs => office.scratchCreate id expiresAtMs
  | .principalRoomSession session document site secret now =>
    office.principalRoomSession hash session document site secret now
  | .scratchRoomSession scratchId document site secret now =>
    office.scratchRoomSession hash scratchId document site secret now
  | .arrive ticketId secret document cookie =>
    { office with attempts := office.attempts ++ [⟨ticketId, secret, document, cookie, office.clock⟩] }
  | .admitUpgrade attempt => office.admitUpgrade hash attempt
  | .shareChange document acl => office.shareChange document acl
  | .linkRedeem document acl => office.updateDocument document fun document => { document with acl }
  | .delete document => office.delete document
  | .restore document => office.restore document
  | .purge document => office.purge document
  | .claim scratchId principalId => office.claim scratchId principalId
  | .tick clock => { office with clock := max office.clock clock }

end

def init : TicketOffice := ⟨[], [], [], 0, 0, [], []⟩

def after (hash : Bytes → Bytes) (events : List TicketEvent) : TicketOffice := Transition.run (step hash) init events

end TicketOffice

end Marks.Tickets
