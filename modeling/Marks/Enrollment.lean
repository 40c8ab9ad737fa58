import Marks.Rows
import Marks.Authority
import Marks.Encodings

/-! # What enrollment checks

The tables of principals, scratch workspaces, devices, controllers, sessions, pairings and challenges, the statements
that controllers and devices sign, and the checks of a row against the statement and the secret presented for it. -/

namespace Marks.Enrollment

/-! ## Identifiers -/

abbrev Text := List Char

def validate (value : Text) : Bool :=
  decide (8 ≤ value.length ∧ value.length ≤ 128) && value.all fun c => c.isAlphanum || c == '-' || c == '_'

structure OpaqueId where
  asStr : Text
  valid : validate asStr = true
deriving DecidableEq, Repr

def OpaqueId.new (value : Text) : Option OpaqueId := if h : validate value = true then some ⟨value, h⟩ else none

abbrev PrincipalId := OpaqueId
abbrev ControllerId := OpaqueId
abbrev DeviceId := OpaqueId
abbrev SessionId := OpaqueId
abbrev ScratchId := OpaqueId
abbrev PairingId := OpaqueId
abbrev ChallengeId := OpaqueId

abbrev Hash := Vector UInt8 32

/-! ## Signed bytes -/

def bigEndian (width value : Nat) : Bytes := (List.range width).reverse.map fun i => UInt8.ofNat (value / 256 ^ i)

def putU8 (value : UInt8) : Bytes := [value]
def putU32 (value : UInt32) : Bytes := bigEndian 4 value.toNat
def putU64 (value : UInt64) : Bytes := bigEndian 8 value.toNat

/-- It panics on a length that is no `u32`. -/
def putBytes (value : Bytes) : Option Bytes :=
  if value.length < UInt32.size then some (putU32 (UInt32.ofNat value.length) ++ value) else none

def putText (value : Text) : Option Bytes := putBytes (value.flatMap String.utf8EncodeChar)

def signingDomain (name : String) : Bytes := name.toList.flatMap String.utf8EncodeChar ++ [0]

/-! ## Capabilities -/

structure DeviceCapabilities where
  bits : UInt32
  known : bits &&& 7 = bits
deriving DecidableEq, Repr

namespace DeviceCapabilities

def documents : UInt32 := 1
def authorizeDevices : UInt32 := 2
def revokeDevices : UInt32 := 4

def member : DeviceCapabilities := ⟨documents, by decide⟩
def controller : DeviceCapabilities := ⟨documents ||| authorizeDevices ||| revokeDevices, by decide⟩

def fromBits (bits : UInt32) : Option DeviceCapabilities := if h : bits &&& 7 = bits then some ⟨bits, h⟩ else none

def contains (capabilities : DeviceCapabilities) (capability : UInt32) : Bool :=
  capabilities.bits &&& capability == capability

end DeviceCapabilities

/-! ## Rows -/

structure PrincipalRecord where
  id : PrincipalId
  disabledAtMs : Option Millis
deriving DecidableEq, Repr

structure ScratchRecord where
  id : ScratchId
  capabilityHash : Hash
  expiresAtMs : Millis
  claimedBy : Option PrincipalId
  claimedAtMs : Option Millis
  finalizeExpiresAtMs : Option Millis
  revokedAtMs : Option Millis
deriving DecidableEq

structure PendingDeviceRecord where
  id : DeviceId
  scratchId : ScratchId
  publicKeySec1 : Bytes
  publicKeyHash : Hash
  expiresAtMs : Millis
deriving DecidableEq

structure DeviceRecord where
  id : DeviceId
  principalId : PrincipalId
  publicKeySec1 : Bytes
  keyEpoch : UInt64
  capabilities : DeviceCapabilities
  revokedAtMs : Option Millis
deriving DecidableEq, Repr

structure ControllerRow where
  id : ControllerId
  principalId : PrincipalId
  deviceId : DeviceId
  keyEpoch : UInt64
  revokedAtMs : Option Millis
deriving DecidableEq, Repr

/-- A controller with the key and the capabilities of its device. -/
structure ControllerRecord where
  id : ControllerId
  principalId : PrincipalId
  publicKeySec1 : Bytes
  epoch : UInt64
  capabilities : DeviceCapabilities
  revokedAtMs : Option Millis
deriving DecidableEq, Repr

structure StoredSession where
  id : SessionId
  principalId : PrincipalId
  deviceId : DeviceId
  secretHash : Hash
  prevSecretHash : Option Hash
  rotatedAtMs : Option Millis
  expiresAtMs : Millis
  revokedAtMs : Option Millis
deriving DecidableEq

structure PairingRecord where
  id : PairingId
  scratchId : ScratchId
  pendingDeviceId : DeviceId
  pendingDevicePublicKeyHash : Hash
  secretHash : Hash
  wordCodeHash : Option Hash
  expiresAtMs : Millis
  consumedAtMs : Option Millis
  approvedPrincipalId : Option PrincipalId
deriving DecidableEq

structure DeviceChallengeRecord where
  id : ChallengeId
  deviceId : DeviceId
  keyEpoch : UInt64
  challengeHash : Hash
  audience : Text
  expiresAtMs : Millis
  consumedAtMs : Option Millis
deriving DecidableEq

structure Tables where
  principals : List PrincipalRecord
  scratches : List ScratchRecord
  pendingDevices : List PendingDeviceRecord
  devices : List DeviceRecord
  controllers : List ControllerRow
  sessions : List StoredSession
  pairings : List PairingRecord
  challenges : List DeviceChallengeRecord

namespace Tables

def empty : Tables := ⟨[], [], [], [], [], [], [], []⟩

variable (db : Tables)

def loadPrincipal (id : PrincipalId) : Option PrincipalRecord := Rows.load PrincipalRecord.id db.principals id
def loadScratch (id : ScratchId) : Option ScratchRecord := Rows.load ScratchRecord.id db.scratches id
def loadPendingDevice (scratchId : ScratchId) : Option PendingDeviceRecord :=
  Rows.load PendingDeviceRecord.scratchId db.pendingDevices scratchId
def loadDevice (id : DeviceId) : Option DeviceRecord := Rows.load DeviceRecord.id db.devices id
def loadSession (id : SessionId) : Option StoredSession := Rows.load StoredSession.id db.sessions id
def loadPairing (id : PairingId) : Option PairingRecord := Rows.load PairingRecord.id db.pairings id
def loadDeviceChallenge (id : ChallengeId) : Option DeviceChallengeRecord :=
  Rows.load DeviceChallengeRecord.id db.challenges id

def loadControllerForDevice (principalId : PrincipalId) (deviceId : DeviceId) : Option ControllerRecord :=
  match db.controllers.find? fun row => row.principalId == principalId && row.deviceId == deviceId with
  | some row => (db.loadDevice row.deviceId).map fun device =>
      ⟨row.id, row.principalId, device.publicKeySec1, row.keyEpoch, device.capabilities, row.revokedAtMs⟩
  | none => none

end Tables

/-! ## Credentials and statements -/

/-- What the routes call of the cryptography, the encodings and the word list. -/
structure Crypto where
  bearerSecretHash : Bytes → Hash
  publicKeyHash : Bytes → Hash
  pairingWordCodeHash : Text → Hash
  sessionCsrfToken : Hash → Hash
  wordlist : List Text
  /-- Base64url without padding. -/
  decodeVec : Text → Option Bytes
  /-- Whether the bytes are a P-256 point. -/
  fromSec1Bytes : Bytes → Bool
  /-- Whether the signature of the message verifies under the key. -/
  verify : Bytes → Bytes → Bytes → Bool

structure Config where
  origin : Text
  scratchTtlMs : Millis
  pairingTtlMs : Millis
  challengeTtlMs : Millis
  sessionTtlMs : Millis
  sessionRotateAfterMs : Millis

def pendingDeviceTtlMs : Millis := 24 * 60 * 60 * 1000
def maxClockSkewMs : Millis := 60000
def selfBootstrapWindowMs : Millis := 2 * 60 * 1000
def scratchFinalizeWindowMs : Millis := 5 * 60 * 1000
def rotationOverlapMs : Millis := 60000

structure AuthenticatedSession where
  id : SessionId
  principalId : PrincipalId
  deviceId : DeviceId
  expiresAtMs : Millis
deriving DecidableEq, Repr

structure CookieSession where
  session : AuthenticatedSession
  secret : Hash

structure ClaimedScratchAuthority where
  scratchId : ScratchId
  principalId : PrincipalId

structure DeviceGrant where
  version : UInt8
  principalId : PrincipalId
  controllerId : ControllerId
  controllerEpoch : UInt64
  pairingId : PairingId
  scratchId : ScratchId
  pendingDeviceId : DeviceId
  pendingDevicePublicKeyHash : Hash
  capabilities : DeviceCapabilities
  issuedAtMs : UInt64
  expiresAtMs : UInt64
deriving DecidableEq

def DeviceGrant.signingBytes (grant : DeviceGrant) : Option Bytes :=
  Encoding.message
    [signingDomain "marks-device-grant-v1", putU8 grant.version, putText grant.principalId.asStr,
      putText grant.controllerId.asStr, putU64 grant.controllerEpoch, putText grant.pairingId.asStr,
      putText grant.scratchId.asStr, putText grant.pendingDeviceId.asStr,
      putBytes grant.pendingDevicePublicKeyHash.toList, putU32 grant.capabilities.bits,
      putU64 grant.issuedAtMs, putU64 grant.expiresAtMs]

structure ControllerBootstrap where
  version : UInt8
  controllerId : ControllerId
  controllerDeviceId : DeviceId
  controllerPublicKeyHash : Hash
  pairingId : PairingId
  scratchId : ScratchId
  pendingDeviceId : DeviceId
  pendingDevicePublicKeyHash : Hash
  issuedAtMs : UInt64
  expiresAtMs : UInt64
deriving DecidableEq

def ControllerBootstrap.signingBytes (bootstrap : ControllerBootstrap) : Option Bytes :=
  Encoding.message
    [signingDomain "marks-controller-bootstrap-v1", putU8 bootstrap.version,
      putText bootstrap.controllerId.asStr, putText bootstrap.controllerDeviceId.asStr,
      putBytes bootstrap.controllerPublicKeyHash.toList, putText bootstrap.pairingId.asStr,
      putText bootstrap.scratchId.asStr, putText bootstrap.pendingDeviceId.asStr,
      putBytes bootstrap.pendingDevicePublicKeyHash.toList, putU64 bootstrap.issuedAtMs,
      putU64 bootstrap.expiresAtMs]

structure SelfBootstrap where
  version : UInt8
  controllerId : ControllerId
  scratchId : ScratchId
  deviceId : DeviceId
  devicePublicKeyHash : Hash
  issuedAtMs : UInt64
  expiresAtMs : UInt64
deriving DecidableEq

def SelfBootstrap.signingBytes (statement : SelfBootstrap) : Option Bytes :=
  Encoding.message
    [signingDomain "marks-self-bootstrap-v1", putU8 statement.version, putText statement.controllerId.asStr,
      putText statement.scratchId.asStr, putText statement.deviceId.asStr,
      putBytes statement.devicePublicKeyHash.toList, putU64 statement.issuedAtMs,
      putU64 statement.expiresAtMs]

structure DeviceSessionProof where
  version : UInt8
  challengeId : ChallengeId
  deviceId : DeviceId
  deviceKeyEpoch : UInt64
  audience : Text
  challenge : Hash
  issuedAtMs : UInt64
  expiresAtMs : UInt64
deriving DecidableEq

def DeviceSessionProof.signingBytes (proof : DeviceSessionProof) : Option Bytes :=
  Encoding.message
    [signingDomain "marks-device-session-v1", putU8 proof.version, putText proof.challengeId.asStr,
      putText proof.deviceId.asStr, putU64 proof.deviceKeyEpoch, putText proof.audience,
      putBytes proof.challenge.toList, putU64 proof.issuedAtMs, putU64 proof.expiresAtMs]

inductive PairingPresented
  | secret (secret : Hash)
  | words (words : Text)
deriving DecidableEq

section
variable (crypto : Crypto)

def bearerMatches (presented : Hash) (storedHash : Hash) : Bool := storedHash == crypto.bearerSecretHash presented.toList

/-! ## Words -/

def normalizePairingWords (input : Text) : Option Text :=
  let words := ((input.splitOnP fun c => !c.isAlpha).filter fun part => !part.isEmpty).map (·.map Char.toLower)
  if words.length = 4 ∧ words.all (crypto.wordlist.contains ·) then some ([' '].intercalate words) else none

def generatePairingWords (entropy : Vector UInt8 6) : Text :=
  let value := entropy.toList.foldl (fun value byte => value * 256 + byte.toNat) 0
  [' '].intercalate ([3, 2, 1, 0].map fun index => crypto.wordlist.getD (value / 2048 ^ index % 2048) [])

/-! ## Pairings -/

def requirePairingWords (pairing : PairingRecord) (presentedWords : Text) : Bool :=
  match pairing.wordCodeHash, normalizePairingWords crypto presentedWords with
  | some stored, some canonical => stored == crypto.pairingWordCodeHash canonical
  | _, _ => false

/-- `require_fresh_pairing_secret`, and with words `require_fresh_pairing_words`. -/
def requireFreshPairing (pairing : PairingRecord) (presented : PairingPresented)
    (proofIssuedAtMs proofExpiresAtMs : UInt64) (now : Millis) : Bool :=
  pairing.consumedAtMs.isNone && decide (now < pairing.expiresAtMs) && decide (now < proofExpiresAtMs.toNat) &&
    decide (proofIssuedAtMs.toNat ≤ now + maxClockSkewMs) && decide (proofExpiresAtMs.toNat ≤ pairing.expiresAtMs) &&
    match presented with
    | .secret secret => bearerMatches crypto secret pairing.secretHash
    | .words words => requirePairingWords crypto pairing words

def requireLivePendingDevice (pending : PendingDeviceRecord) (scratchId : ScratchId) (now : Millis) : Bool :=
  pending.publicKeyHash == crypto.publicKeyHash pending.publicKeySec1 && crypto.fromSec1Bytes pending.publicKeySec1 &&
    pending.scratchId == scratchId && decide (now < pending.expiresAtMs)

def pairingMatchesPending (pairing : PairingRecord) (pending : PendingDeviceRecord) : Bool :=
  pairing.scratchId == pending.scratchId && pairing.pendingDeviceId == pending.id &&
    pairing.pendingDevicePublicKeyHash == pending.publicKeyHash

def finishAuthorizePairing (pairing : PairingRecord) (controller : ControllerRecord) (grant : DeviceGrant)
    (signature : Bytes) : Bool :=
  controller.revokedAtMs.isNone && controller.capabilities.contains DeviceCapabilities.authorizeDevices &&
    (grant.principalId == controller.principalId && grant.controllerId == controller.id &&
      grant.controllerEpoch == controller.epoch && grant.pairingId == pairing.id &&
      grant.scratchId == pairing.scratchId && grant.pendingDeviceId == pairing.pendingDeviceId &&
      grant.pendingDevicePublicKeyHash == pairing.pendingDevicePublicKeyHash) &&
    crypto.fromSec1Bytes controller.publicKeySec1 &&
    grant.signingBytes.any (crypto.verify controller.publicKeySec1 · signature)

/-- `authorize_pairing`, and with words `authorize_pairing_words`. -/
def authorizePairing (pairing : PairingRecord) (presented : PairingPresented) (controller : ControllerRecord)
    (grant : DeviceGrant) (signature : Bytes) (now : Millis) : Bool :=
  grant.version == 1 && requireFreshPairing crypto pairing presented grant.issuedAtMs grant.expiresAtMs now &&
    finishAuthorizePairing crypto pairing controller grant signature

def finishControllerBootstrap (pairing : PairingRecord) (bootstrap : ControllerBootstrap)
    (controllerPublicKey signature : Bytes) : Bool :=
  (bootstrap.pairingId == pairing.id && bootstrap.scratchId == pairing.scratchId &&
      bootstrap.pendingDeviceId == pairing.pendingDeviceId &&
      bootstrap.pendingDevicePublicKeyHash == pairing.pendingDevicePublicKeyHash &&
      bootstrap.controllerDeviceId != pairing.pendingDeviceId &&
      bootstrap.controllerPublicKeyHash == crypto.publicKeyHash controllerPublicKey) &&
    crypto.fromSec1Bytes controllerPublicKey &&
    bootstrap.signingBytes.any (crypto.verify controllerPublicKey · signature)

/-- `authorize_controller_bootstrap`, and with words `authorize_controller_bootstrap_words`. -/
def authorizeControllerBootstrap (pairing : PairingRecord) (presented : PairingPresented)
    (bootstrap : ControllerBootstrap) (controllerPublicKey signature : Bytes) (now : Millis) : Bool :=
  bootstrap.version == 1 &&
    requireFreshPairing crypto pairing presented bootstrap.issuedAtMs bootstrap.expiresAtMs now &&
    finishControllerBootstrap crypto pairing bootstrap controllerPublicKey signature

def authorizeSelfBootstrap (scratchId : ScratchId) (pending : PendingDeviceRecord) (statement : SelfBootstrap)
    (signature : Bytes) (now : Millis) : Bool :=
  statement.version == 1 && decide (now < statement.expiresAtMs.toNat) &&
    decide (statement.issuedAtMs.toNat ≤ now + maxClockSkewMs) &&
    decide (statement.expiresAtMs.toNat ≤ statement.issuedAtMs.toNat + selfBootstrapWindowMs) &&
    requireLivePendingDevice crypto pending scratchId now &&
    (statement.scratchId == scratchId && statement.deviceId == pending.id &&
      statement.devicePublicKeyHash == pending.publicKeyHash) &&
    crypto.fromSec1Bytes pending.publicKeySec1 &&
    statement.signingBytes.any (crypto.verify pending.publicKeySec1 · signature)

def markPairingConsumed (pairing : PairingRecord) (principalId : PrincipalId) (now : Millis) : Option PairingRecord :=
  if pairing.consumedAtMs.isSome ∨ pairing.expiresAtMs ≤ now then none
  else some { pairing with consumedAtMs := some now, approvedPrincipalId := some principalId }

/-- The device of the pairing, for the claimed scratch it was approved for. -/
def authorizePairingFinalize (pairing : PairingRecord) (pending : PendingDeviceRecord)
    (claimed : ClaimedScratchAuthority) : Bool :=
  pairingMatchesPending pairing pending && pairing.consumedAtMs.isSome &&
    pairing.approvedPrincipalId == some claimed.principalId && claimed.scratchId == pairing.scratchId

/-! ## Devices and scratch workspaces -/

def authorizeDeviceSession (challenge : DeviceChallengeRecord) (device : DeviceRecord) (proof : DeviceSessionProof)
    (signature : Bytes) (now : Millis) : Bool :=
  proof.version == 1 && challenge.consumedAtMs.isNone && decide (now < challenge.expiresAtMs) &&
    decide (now < proof.expiresAtMs.toNat) && decide (proof.issuedAtMs.toNat ≤ now + maxClockSkewMs) &&
    decide (proof.expiresAtMs.toNat ≤ challenge.expiresAtMs) &&
    bearerMatches crypto proof.challenge challenge.challengeHash &&
    (proof.challengeId == challenge.id && proof.deviceId == challenge.deviceId && proof.deviceId == device.id &&
      proof.deviceKeyEpoch == device.keyEpoch && proof.deviceKeyEpoch == challenge.keyEpoch &&
      proof.audience == challenge.audience) &&
    device.revokedAtMs.isNone && crypto.fromSec1Bytes device.publicKeySec1 &&
    proof.signingBytes.any (crypto.verify device.publicKeySec1 · signature)

def authorizeRevokeDevice (actor target : DeviceRecord) : Bool :=
  actor.revokedAtMs.isNone && actor.principalId == target.principalId &&
    actor.capabilities.contains DeviceCapabilities.revokeDevices

def validateLive (scratch : ScratchRecord) (now : Millis) : Bool :=
  scratch.revokedAtMs.isNone && decide (now < scratch.expiresAtMs)

def validateScratchCapability (scratch : ScratchRecord) (capability : Hash) (now : Millis) : Option ScratchId :=
  if bearerMatches crypto capability scratch.capabilityHash && validateLive scratch now && scratch.claimedBy.isNone then
    some scratch.id
  else none

def validateClaimedScratchCapability (scratch : ScratchRecord) (capability : Hash) (now : Millis) :
    Option ClaimedScratchAuthority :=
  if bearerMatches crypto capability scratch.capabilityHash && validateLive scratch now then
    match scratch.claimedBy, scratch.finalizeExpiresAtMs with
    | some principalId, some deadline => if now < deadline then some ⟨scratch.id, principalId⟩ else none
    | _, _ => none
  else none

inductive ScratchClaim
  | claimNow
  | alreadyClaimedByCaller
deriving DecidableEq, Repr

def selectScratchClaim (scratch : ScratchRecord) (principalId : PrincipalId) (now : Millis) : Option ScratchClaim :=
  if scratch.revokedAtMs.isSome ∨ scratch.expiresAtMs ≤ now then none
  else
    match scratch.claimedBy with
    | none => some .claimNow
    | some claimed => if claimed = principalId then some .alreadyClaimedByCaller else none

def markScratchClaimed (scratch : ScratchRecord) (principalId : PrincipalId) (now : Millis) : Option ScratchRecord :=
  if validateLive scratch now && scratch.claimedBy.isNone then
    some { scratch with
      claimedBy := some principalId
      claimedAtMs := some now
      finalizeExpiresAtMs := some (now + scratchFinalizeWindowMs) }
  else none

inductive SessionError
  | invalidSecret
  | refused
deriving DecidableEq, Repr

def validateSession (session : StoredSession) (secretHash : Hash) (presented : Hash) (device : DeviceRecord)
    (now : Millis) : Except SessionError AuthenticatedSession :=
  if !bearerMatches crypto presented secretHash then .error .invalidSecret
  else if session.revokedAtMs.isSome ∨ session.expiresAtMs ≤ now ∨ session.deviceId ≠ device.id ∨
      session.principalId ≠ device.principalId ∨ device.revokedAtMs.isSome then
    .error .refused
  else .ok ⟨session.id, session.principalId, session.deviceId, session.expiresAtMs⟩

end

end Marks.Enrollment
