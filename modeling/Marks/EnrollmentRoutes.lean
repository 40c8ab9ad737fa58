import Marks.Runs
import Marks.Results
import Marks.Enrollment

/-! # The routes of enrollment

A browser binds a key to its scratch workspace and shows a pairing; a phone bootstraps a principal from it, or
approves the browser's device into the principal it controls. Devices sign in with challenges. A route checks its
credential against the tables and decodes its body first, and works in a transaction of its own later, so requests
stand between the two while others run. -/

namespace Marks.Enrollment

section
variable (crypto : Crypto)

/-! ## Bodies -/

structure BindDeviceBody where
  deviceId : Text
  publicKey : Text

structure PairingSecretBody where
  secret : Option Text
  words : Option Text

structure BootstrapStatement where
  version : UInt8
  controllerId : Text
  controllerDeviceId : Text
  controllerPublicKeyHash : Text
  pairingId : Text
  scratchId : Text
  pendingDeviceId : Text
  pendingDevicePublicKeyHash : Text
  issuedAtMs : UInt64
  expiresAtMs : UInt64

structure BootstrapBody extends PairingSecretBody where
  bootstrap : BootstrapStatement
  controllerPublicKey : Text
  signature : Text

structure GrantStatement where
  version : UInt8
  principalId : Text
  controllerId : Text
  controllerEpoch : UInt64
  pairingId : Text
  scratchId : Text
  pendingDeviceId : Text
  pendingDevicePublicKeyHash : Text
  capabilities : UInt32
  issuedAtMs : UInt64
  expiresAtMs : UInt64

structure ApproveBody extends PairingSecretBody where
  grant : GrantStatement
  signature : Text

structure SelfBootstrapStatement where
  version : UInt8
  controllerId : Text
  scratchId : Text
  deviceId : Text
  devicePublicKeyHash : Text
  issuedAtMs : UInt64
  expiresAtMs : UInt64

structure SelfBootstrapBody where
  bootstrap : SelfBootstrapStatement
  signature : Text

structure ProofStatement where
  version : UInt8
  challengeId : Text
  deviceId : Text
  deviceKeyEpoch : UInt64
  audience : Text
  challenge : Text
  issuedAtMs : UInt64
  expiresAtMs : UInt64

structure DeviceRedeemBody where
  proof : ProofStatement
  signature : Text

def b64Any (text : Text) : Except ApiError Bytes := found (crypto.decodeVec text) .badRequest

def b64_32 (text : Text) : Except ApiError Hash := do
  let bytes ← b64Any crypto text
  if h : bytes.length = 32 then .ok ⟨bytes.toArray, h⟩ else .error .badRequest

def decodeId (text : Text) : Except ApiError OpaqueId := found (OpaqueId.new text) .badRequest

def presentedPairing (body : PairingSecretBody) : Except ApiError PairingPresented :=
  match body.secret, body.words with
  | some secret, none => do
    let secret ← b64_32 crypto secret
    .ok (.secret secret)
  | none, some words => .ok (.words words)
  | _, _ => .error .badRequest

def BootstrapStatement.decode (body : BootstrapStatement) : Except ApiError ControllerBootstrap := do
  let controllerId ← decodeId body.controllerId
  let controllerDeviceId ← decodeId body.controllerDeviceId
  let controllerPublicKeyHash ← b64_32 crypto body.controllerPublicKeyHash
  let pairingId ← decodeId body.pairingId
  let scratchId ← decodeId body.scratchId
  let pendingDeviceId ← decodeId body.pendingDeviceId
  let pendingDevicePublicKeyHash ← b64_32 crypto body.pendingDevicePublicKeyHash
  .ok ⟨body.version, controllerId, controllerDeviceId, controllerPublicKeyHash, pairingId, scratchId, pendingDeviceId,
    pendingDevicePublicKeyHash, body.issuedAtMs, body.expiresAtMs⟩

def GrantStatement.decode (body : GrantStatement) : Except ApiError DeviceGrant := do
  let principalId ← decodeId body.principalId
  let controllerId ← decodeId body.controllerId
  let pairingId ← decodeId body.pairingId
  let scratchId ← decodeId body.scratchId
  let pendingDeviceId ← decodeId body.pendingDeviceId
  let pendingDevicePublicKeyHash ← b64_32 crypto body.pendingDevicePublicKeyHash
  let capabilities ← found (DeviceCapabilities.fromBits body.capabilities) .badRequest
  .ok ⟨body.version, principalId, controllerId, body.controllerEpoch, pairingId, scratchId, pendingDeviceId,
    pendingDevicePublicKeyHash, capabilities, body.issuedAtMs, body.expiresAtMs⟩

def SelfBootstrapStatement.decode (body : SelfBootstrapStatement) : Except ApiError SelfBootstrap := do
  let controllerId ← decodeId body.controllerId
  let scratchId ← decodeId body.scratchId
  let deviceId ← decodeId body.deviceId
  let devicePublicKeyHash ← b64_32 crypto body.devicePublicKeyHash
  .ok ⟨body.version, controllerId, scratchId, deviceId, devicePublicKeyHash, body.issuedAtMs, body.expiresAtMs⟩

def ProofStatement.decode (body : ProofStatement) : Except ApiError DeviceSessionProof := do
  let challengeId ← found (OpaqueId.new body.challengeId) .unauthenticated
  let deviceId ← found (OpaqueId.new body.deviceId) .unauthenticated
  let challenge ← found (b64_32 crypto body.challenge).toOption .unauthenticated
  .ok ⟨body.version, challengeId, deviceId, body.deviceKeyEpoch, body.audience, challenge, body.issuedAtMs,
    body.expiresAtMs⟩

/-! ## Guards -/

/-- The headers the guards read, the bearer credentials already split into identifier and secret. -/
structure Headers where
  cookie : Option (SessionId × Hash)
  authorization : Option (ScratchId × Hash)
  origin : Option Text
  csrf : Option Text

def cookieSession (db : Tables) (headers : Headers) (now : Millis) : Except ApiError CookieSession := do
  let (sessionId, secret) ← found headers.cookie .unauthenticated
  let stored ← found (db.loadSession sessionId) .unauthenticated
  let device ← found (db.loadDevice stored.deviceId) .unauthenticated
  let principal ← found (db.loadPrincipal stored.principalId) .unauthenticated
  require principal.disabledAtMs.isNone .unauthenticated
  match validateSession crypto stored stored.secretHash secret device now with
  | .ok session => .ok ⟨session, secret⟩
  | .error .invalidSecret => do
    -- the previous secret stays valid briefly after a rotation
    let previousHash ← found stored.prevSecretHash .unauthenticated
    let rotatedAt ← found stored.rotatedAtMs .unauthenticated
    require (decide (now < rotatedAt + rotationOverlapMs) && bearerMatches crypto secret previousHash) .unauthenticated
    let session ← found (validateSession crypto stored previousHash secret device now).toOption .unauthenticated
    .ok ⟨session, secret⟩
  | .error _ => .error .unauthenticated

def scratchCredentials (headers : Headers) : Except ApiError (ScratchId × Hash) :=
  found headers.authorization .unauthenticated

def scratchCaller (db : Tables) (headers : Headers) (now : Millis) : Except ApiError ScratchId := do
  let (scratchId, capability) ← scratchCredentials headers
  let record ← found (db.loadScratch scratchId) .unauthenticated
  found (validateScratchCapability crypto record capability now) .unauthenticated

def requireSameOrigin (config : Config) (headers : Headers) : Except ApiError Unit :=
  require (headers.origin == some config.origin) .forbidden

def requireCsrf (headers : Headers) (secret : Hash) : Except ApiError Unit := do
  let presented ← found headers.csrf .forbidden
  let decoded ← found (crypto.decodeVec presented) .forbidden
  require (decoded == (crypto.sessionCsrfToken secret).toList) .forbidden

/-! ## Requests -/

inductive Request
  | scratchCreate
  | scratchBindDevice (id : Text) (body : BindDeviceBody)
  | scratchSelfBootstrap (id : Text) (body : SelfBootstrapBody)
  | pairingCreate
  | pairingBootstrap (id : Text) (body : BootstrapBody)
  | pairingApprove (id : Text) (body : ApproveBody)
  | pairingFinalize (id : Text)
  | deviceChallenge (deviceId : Text)
  | deviceRedeem (body : DeviceRedeemBody)
  | sessionGet
  | sessionDelete
  | deviceRevoke (id : Text)

/-- A request past its guard, with what its transaction works on and the time it read. -/
inductive Work
  | scratchCreate (now : Millis)
  | scratchBindDevice (pending : PendingDeviceRecord)
  | scratchSelfBootstrap (scratchId : ScratchId) (statement : SelfBootstrap) (signature : Bytes) (now : Millis)
  | pairingCreate (scratchId : ScratchId) (now : Millis)
  | pairingBootstrap (pairingId : PairingId) (presented : PairingPresented) (bootstrap : ControllerBootstrap)
      (controllerPublicKey signature : Bytes) (now : Millis)
  | pairingApprove (session : AuthenticatedSession) (pairingId : PairingId) (presented : PairingPresented)
      (grant : DeviceGrant) (signature : Bytes) (now : Millis)
  | pairingFinalize (pairingId : PairingId) (scratchId : ScratchId) (capability : Hash) (now : Millis)
  | deviceChallenge (deviceId : DeviceId) (now : Millis)
  | deviceRedeem (proof : DeviceSessionProof) (signature : Bytes) (now : Millis)
  | sessionRotate (session : AuthenticatedSession) (now : Millis)
  | sessionDelete (session : AuthenticatedSession)
  | deviceRevoke (session : AuthenticatedSession) (target : DeviceId)

inductive InFlight
  /-- `session_get` before it reads whether the secret is due for rotation. -/
  | rotationDue (session : AuthenticatedSession) (now : Millis)
  | work (work : Work)

def bindPendingDevice (scratchId : ScratchId) (deviceId : DeviceId) (publicKey : Bytes) (now : Millis) :
    Option PendingDeviceRecord :=
  if crypto.fromSec1Bytes publicKey then
    some ⟨deviceId, scratchId, publicKey, crypto.publicKeyHash publicKey, now + pendingDeviceTtlMs⟩
  else none

def receive (config : Config) (db : Tables) (headers : Headers) (now : Millis) :
    Request → Except ApiError InFlight
  | .scratchCreate => .ok (.work (.scratchCreate now))
  | .scratchBindDevice id body => do
    let scratchId ← scratchCaller crypto db headers now
    require (scratchId.asStr == id) .unauthenticated
    let deviceId ← decodeId body.deviceId
    let publicKey ← b64Any crypto body.publicKey
    let pending ← found (bindPendingDevice crypto scratchId deviceId publicKey now) .badRequest
    .ok (.work (.scratchBindDevice pending))
  | .scratchSelfBootstrap id body => do
    let scratchId ← scratchCaller crypto db headers now
    require (scratchId.asStr == id) .unauthenticated
    let signature ← b64Any crypto body.signature
    let statement ← body.bootstrap.decode crypto
    require (statement.scratchId == scratchId) .unauthenticated
    .ok (.work (.scratchSelfBootstrap scratchId statement signature now))
  | .pairingCreate => do
    let scratchId ← scratchCaller crypto db headers now
    .ok (.work (.pairingCreate scratchId now))
  | .pairingBootstrap id body => do
    let pairingId ← found (OpaqueId.new id) .unauthenticated
    let presented ← presentedPairing crypto body.toPairingSecretBody
    let controllerPublicKey ← b64Any crypto body.controllerPublicKey
    let signature ← b64Any crypto body.signature
    let bootstrap ← body.bootstrap.decode crypto
    require (bootstrap.pairingId == pairingId) .unauthenticated
    .ok (.work (.pairingBootstrap pairingId presented bootstrap controllerPublicKey signature now))
  | .pairingApprove id body => do
    let cookie ← cookieSession crypto db headers now
    requireSameOrigin config headers
    let pairingId ← found (OpaqueId.new id) .unauthenticated
    let presented ← presentedPairing crypto body.toPairingSecretBody
    let signature ← b64Any crypto body.signature
    let grant ← body.grant.decode crypto
    require (grant.pairingId == pairingId) .unauthenticated
    .ok (.work (.pairingApprove cookie.session pairingId presented grant signature now))
  | .pairingFinalize id => do
    let pairingId ← found (OpaqueId.new id) .unauthenticated
    let (scratchId, capability) ← scratchCredentials headers
    .ok (.work (.pairingFinalize pairingId scratchId capability now))
  | .deviceChallenge deviceId => do
    -- a name that is no identifier is answered like any other, without a transaction
    let deviceId ← found (OpaqueId.new deviceId) .notFound
    .ok (.work (.deviceChallenge deviceId now))
  | .deviceRedeem body => do
    let signature ← b64Any crypto body.signature
    let proof ← body.proof.decode crypto
    .ok (.work (.deviceRedeem proof signature now))
  | .sessionGet => do
    let cookie ← cookieSession crypto db headers now
    .ok (.rotationDue cookie.session now)
  | .sessionDelete => do
    let cookie ← cookieSession crypto db headers now
    requireSameOrigin config headers
    requireCsrf crypto headers cookie.secret
    .ok (.work (.sessionDelete cookie.session))
  | .deviceRevoke id => do
    let cookie ← cookieSession crypto db headers now
    requireSameOrigin config headers
    requireCsrf crypto headers cookie.secret
    let target ← found (OpaqueId.new id) .notFound
    .ok (.work (.deviceRevoke cookie.session target))

/-- `session_get` past its read. -/
def rotationDue (config : Config) (db : Tables) (session : AuthenticatedSession) (now : Millis) : Option Work :=
  match db.loadSession session.id with
  | some stored =>
    let last := stored.rotatedAtMs.getD (stored.expiresAtMs - config.sessionTtlMs)
    if config.sessionRotateAfterMs ≤ now - last then some (.sessionRotate session now) else none
  | none => none

/-! ## Transactions -/

/-- What a transaction draws at random, and what other tables and the clock answer it. -/
structure Supply where
  id : OpaqueId
  sessionId : SessionId
  secret : Hash
  entropy : Vector UInt8 6
  /-- Whether every document of the scratch workspace is free to be claimed. -/
  documents : Bool
  now : Millis

def insertRow {α : Type} (key : α → OpaqueId) (rows : List α) (row : α) : Except ApiError (List α) :=
  found (Rows.insert key rows row) .internal

def insertPrincipal (db : Tables) (id : PrincipalId) : Except ApiError Tables := do
  let principals ← insertRow PrincipalRecord.id db.principals ⟨id, none⟩
  .ok { db with principals }

def insertDevice (db : Tables) (id : DeviceId) (principalId : PrincipalId) (publicKey : Bytes)
    (capabilities : DeviceCapabilities) : Except ApiError Tables := do
  let devices ← insertRow DeviceRecord.id db.devices ⟨id, principalId, publicKey, 1, capabilities, none⟩
  .ok { db with devices }

def insertController (db : Tables) (id : ControllerId) (principalId : PrincipalId) (deviceId : DeviceId) :
    Except ApiError Tables := do
  require (!db.controllers.any fun row => row.principalId == principalId && row.deviceId == deviceId) .internal
  let controllers ← insertRow ControllerRow.id db.controllers ⟨id, principalId, deviceId, 1, none⟩
  .ok { db with controllers }

def insertSession (config : Config) (db : Tables) (supply : Supply) (principalId : PrincipalId) (deviceId : DeviceId)
    (now : Millis) : Except ApiError Tables := do
  let sessions ← insertRow StoredSession.id db.sessions ⟨supply.sessionId, principalId, deviceId,
    crypto.bearerSecretHash supply.secret.toList, none, none, now + config.sessionTtlMs, none⟩
  .ok { db with sessions }

def persistScratchClaim (db : Tables) (scratchId : ScratchId) (principalId : PrincipalId) (now : Millis) :
    Except ApiError Tables := do
  let scratch ← found (db.loadScratch scratchId) .unauthenticated
  let claim ← found (selectScratchClaim scratch principalId now) .conflict
  match claim with
  | .alreadyClaimedByCaller => .ok db
  | .claimNow => do
    let claimed ← found (markScratchClaimed scratch principalId now) .conflict
    let free (row : ScratchRecord) : Bool := row.id == scratchId && row.claimedBy.isNone
    require (db.scratches.countP free == 1) .conflict
    .ok { db with
      scratches := Rows.update free
        (fun row => { row with
          claimedBy := some principalId
          claimedAtMs := claimed.claimedAtMs
          finalizeExpiresAtMs := claimed.finalizeExpiresAtMs })
        db.scratches }

def consumePairing (db : Tables) (pairing : PairingRecord) (principalId : PrincipalId) (now : Millis) :
    Except ApiError Tables := do
  let consumed ← found (markPairingConsumed pairing principalId now) .conflict
  let unconsumed (row : PairingRecord) : Bool := row.id == consumed.id && row.consumedAtMs.isNone
  require (db.pairings.countP unconsumed == 1) .conflict
  .ok { db with
    pairings := Rows.update unconsumed
      (fun row => { row with
        consumedAtMs := consumed.consumedAtMs
        approvedPrincipalId := consumed.approvedPrincipalId })
      db.pairings }

section
variable (config : Config) (supply : Supply) (db : Tables)

def scratchCreate (now : Millis) : Except ApiError Tables := do
  let scratches ← insertRow ScratchRecord.id db.scratches ⟨supply.id, crypto.bearerSecretHash supply.secret.toList,
    now + config.scratchTtlMs, none, none, none, none⟩
  .ok { db with scratches }

/-- One pending device a workspace: the row there is replaced, where its new identifier is not another's row's and
no pairing refers to the old one. -/
def scratchBindDevice (pending : PendingDeviceRecord) : Except ApiError Tables := do
  require (db.pendingDevices.all fun row => row.scratchId == pending.scratchId || row.id != pending.id) .internal
  match db.loadPendingDevice pending.scratchId with
  | some old => do
    require (old.id == pending.id || db.pairings.all fun pairing => pairing.pendingDeviceId != old.id) .internal
    .ok { db with pendingDevices := Rows.update (·.scratchId == pending.scratchId) (fun _ => pending) db.pendingDevices }
  | none => .ok { db with pendingDevices := db.pendingDevices ++ [pending] }

def scratchSelfBootstrap (scratchId : ScratchId) (statement : SelfBootstrap) (signature : Bytes) (now : Millis) :
    Except ApiError Tables := do
  let pending ← found (db.loadPendingDevice scratchId) .unauthenticated
  require (authorizeSelfBootstrap crypto scratchId pending statement signature now) .unauthenticated
  let db ← insertPrincipal db supply.id
  let db ← insertDevice db statement.deviceId supply.id pending.publicKeySec1 .controller
  let db ← insertController db statement.controllerId supply.id statement.deviceId
  require supply.documents .conflict
  let db ← persistScratchClaim db statement.scratchId supply.id now
  insertSession crypto config db supply supply.id statement.deviceId now

def pairingCreate (scratchId : ScratchId) (now : Millis) : Except ApiError Tables := do
  let pending ← found (db.loadPendingDevice scratchId) .badRequest
  require (requireLivePendingDevice crypto pending scratchId now) .badRequest
  let wordCodeHash := crypto.pairingWordCodeHash (generatePairingWords crypto supply.entropy)
  require (db.pairings.all fun pairing => pairing.wordCodeHash != some wordCodeHash) .internal
  let pairings ← insertRow PairingRecord.id db.pairings ⟨supply.id, scratchId, pending.id, pending.publicKeyHash,
    crypto.bearerSecretHash supply.secret.toList, some wordCodeHash, now + config.pairingTtlMs, none, none⟩
  .ok { db with pairings }

def pairingBootstrap (pairingId : PairingId) (presented : PairingPresented) (bootstrap : ControllerBootstrap)
    (controllerPublicKey signature : Bytes) (now : Millis) : Except ApiError Tables := do
  let pairing ← found (db.loadPairing pairingId) .unauthenticated
  let pending ← found (db.loadPendingDevice pairing.scratchId) .unauthenticated
  require (pairingMatchesPending pairing pending) .unauthenticated
  require (requireLivePendingDevice crypto pending pairing.scratchId now) .unauthenticated
  require (authorizeControllerBootstrap crypto pairing presented bootstrap controllerPublicKey signature now)
    .unauthenticated
  let db ← insertPrincipal db supply.id
  let db ← insertDevice db bootstrap.controllerDeviceId supply.id controllerPublicKey .controller
  let db ← insertController db bootstrap.controllerId supply.id bootstrap.controllerDeviceId
  let db ← insertDevice db bootstrap.pendingDeviceId supply.id pending.publicKeySec1 .member
  require supply.documents .conflict
  let db ← persistScratchClaim db bootstrap.scratchId supply.id now
  let db ← consumePairing db pairing supply.id now
  insertSession crypto config db supply supply.id bootstrap.controllerDeviceId now

def pairingApprove (session : AuthenticatedSession) (pairingId : PairingId) (presented : PairingPresented)
    (grant : DeviceGrant) (signature : Bytes) (now : Millis) : Except ApiError Tables := do
  let pairing ← found (db.loadPairing pairingId) .unauthenticated
  let pending ← found (db.loadPendingDevice pairing.scratchId) .unauthenticated
  require (pairingMatchesPending pairing pending) .unauthenticated
  require (requireLivePendingDevice crypto pending pairing.scratchId now) .unauthenticated
  let controller ← found (db.loadControllerForDevice session.principalId session.deviceId) .forbidden
  require controller.revokedAtMs.isNone .forbidden
  require (authorizePairing crypto pairing presented controller grant signature now) .unauthenticated
  let db ← insertDevice db grant.pendingDeviceId grant.principalId pending.publicKeySec1 grant.capabilities
  require supply.documents .conflict
  let db ← persistScratchClaim db grant.scratchId grant.principalId now
  consumePairing db pairing grant.principalId now

def pairingFinalize (pairingId : PairingId) (scratchId : ScratchId) (capability : Hash) (now : Millis) :
    Except ApiError Tables := do
  let scratch ← found (db.loadScratch scratchId) .unauthenticated
  let claimed ← found (validateClaimedScratchCapability crypto scratch capability now) .unauthenticated
  let pairing ← found (db.loadPairing pairingId) .unauthenticated
  let pending ← found (db.loadPendingDevice scratchId) .unauthenticated
  require (authorizePairingFinalize pairing pending claimed) .unauthenticated
  let device ← found (db.loadDevice pairing.pendingDeviceId) .unauthenticated
  require (device.principalId == claimed.principalId && device.revokedAtMs.isNone) .unauthenticated
  insertSession crypto config db supply claimed.principalId device.id now

def deviceChallenge (deviceId : DeviceId) (now : Millis) : Except ApiError Tables :=
  match db.loadDevice deviceId with
  | none => .ok db
  | some device =>
    if device.revokedAtMs.isSome then .ok db
    else do
      let challenges ← insertRow DeviceChallengeRecord.id db.challenges ⟨supply.id, deviceId, device.keyEpoch,
        crypto.bearerSecretHash supply.secret.toList, config.origin, now + config.challengeTtlMs, none⟩
      .ok { db with challenges }

def deviceRedeem (proof : DeviceSessionProof) (signature : Bytes) (now : Millis) : Except ApiError Tables := do
  let record ← found (db.loadDeviceChallenge proof.challengeId) .unauthenticated
  let device ← found (db.loadDevice record.deviceId) .unauthenticated
  let principal ← found (db.loadPrincipal device.principalId) .unauthenticated
  require principal.disabledAtMs.isNone .unauthenticated
  require (authorizeDeviceSession crypto record device proof signature now) .unauthenticated
  let unconsumed (row : DeviceChallengeRecord) : Bool := row.id == record.id && row.consumedAtMs.isNone
  require (db.challenges.countP unconsumed == 1) .unauthenticated
  let db := { db with
    challenges := Rows.update unconsumed (fun row => { row with consumedAtMs := some now }) db.challenges }
  insertSession crypto config db supply device.principalId device.id now

def sessionRotate (session : AuthenticatedSession) (now : Millis) : Tables :=
  { db with
    sessions := Rows.update (fun row => row.id == session.id && row.revokedAtMs.isNone)
      (fun row => { row with
        prevSecretHash := some row.secretHash
        secretHash := crypto.bearerSecretHash supply.secret.toList
        rotatedAtMs := some now
        expiresAtMs := now + config.sessionTtlMs })
      db.sessions }

def sessionDelete (session : AuthenticatedSession) : Tables :=
  { db with
    sessions := Rows.update (fun row => row.id == session.id && row.revokedAtMs.isNone)
      (fun row => { row with revokedAtMs := some supply.now }) db.sessions }

def deviceRevoke (session : AuthenticatedSession) (targetId : DeviceId) : Except ApiError Tables := do
  let actor ← found (db.loadDevice session.deviceId) .forbidden
  let target ← found (db.loadDevice targetId) .notFound
  require (authorizeRevokeDevice actor target) .forbidden
  .ok { db with
    devices := Rows.update (fun row => row.id == target.id && row.revokedAtMs.isNone)
      (fun row => { row with revokedAtMs := some supply.now }) db.devices
    controllers := Rows.update (fun row => row.deviceId == target.id && row.revokedAtMs.isNone)
      (fun row => { row with revokedAtMs := some supply.now }) db.controllers
    sessions := Rows.update (fun row => row.deviceId == target.id && row.revokedAtMs.isNone)
      (fun row => { row with revokedAtMs := some supply.now }) db.sessions }

def transact : Work → Except ApiError Tables
  | .scratchCreate now => scratchCreate crypto config supply db now
  | .scratchBindDevice pending => scratchBindDevice db pending
  | .scratchSelfBootstrap scratchId statement signature now =>
    scratchSelfBootstrap crypto config supply db scratchId statement signature now
  | .pairingCreate scratchId now => pairingCreate crypto config supply db scratchId now
  | .pairingBootstrap pairingId presented bootstrap controllerPublicKey signature now =>
    pairingBootstrap crypto config supply db pairingId presented bootstrap controllerPublicKey signature now
  | .pairingApprove session pairingId presented grant signature now =>
    pairingApprove crypto supply db session pairingId presented grant signature now
  | .pairingFinalize pairingId scratchId capability now =>
    pairingFinalize crypto config supply db pairingId scratchId capability now
  | .deviceChallenge deviceId now => deviceChallenge crypto config supply db deviceId now
  | .deviceRedeem proof signature now => deviceRedeem crypto config supply db proof signature now
  | .sessionRotate session now => .ok (sessionRotate crypto config supply db session now)
  | .sessionDelete session => .ok (sessionDelete supply db session)
  | .deviceRevoke session target => deviceRevoke supply db session target

end

/-! ## The server -/

structure Commit where
  work : Work
  before : Tables
  after : Tables

structure Server where
  db : Tables
  requests : List InFlight
  log : List Commit

inductive Event
  | receive (request : Request) (headers : Headers) (now : Millis)
  | advance (i : Nat) (supply : Supply)

def Server.init : Server := ⟨.empty, [], []⟩

def Server.step (config : Config) (server : Server) : Event → Server
  | .receive request headers now =>
    match Enrollment.receive crypto config server.db headers now request with
    | .ok inFlight => { server with requests := server.requests ++ [inFlight] }
    | .error _ => server
  | .advance i supply =>
    match server.requests[i]? with
    | none => server
    | some (.rotationDue session now) =>
      match rotationDue config server.db session now with
      | some work => { server with requests := server.requests.set i (.work work) }
      | none => { server with requests := server.requests.eraseIdx i }
    | some (.work work) =>
      match transact crypto config supply server.db work with
      | .ok db => ⟨db, server.requests.eraseIdx i, server.log ++ [⟨work, server.db, db⟩]⟩
      | .error _ => { server with requests := server.requests.eraseIdx i }

def Server.after (config : Config) (events : List Event) : Server :=
  Transition.run (fun server event => server.step crypto config event) .init events

end

end Marks.Enrollment
