import Marks.Envelope
import Marks.Strings

/-! # The statements a client signs

The client checks the fields of a statement and writes them part after part. A number is modelled by its value, and
one that is not finite is refused like a fraction. -/

namespace Marks.SigningClient

/-- `TextEncoder.encode`. -/
def encodeText (value : JsString) : Bytes := value.codePoints.flatMap String.utf8EncodeChar

def deviceGrantDomain : Bytes := encodeText (.ofString "marks-device-grant-v1\x00")
def controllerBootstrapDomain : Bytes := encodeText (.ofString "marks-controller-bootstrap-v1\x00")
def selfBootstrapDomain : Bytes := encodeText (.ofString "marks-self-bootstrap-v1\x00")
def deviceSessionDomain : Bytes := encodeText (.ofString "marks-device-session-v1\x00")

def deviceCapabilityDocuments : UInt32 := 1
def deviceCapabilityAuthorizeDevices : UInt32 := 2
def deviceCapabilityRevokeDevices : UInt32 := 4
def deviceCapabilitiesController : UInt32 :=
  deviceCapabilityDocuments ||| deviceCapabilityAuthorizeDevices ||| deviceCapabilityRevokeDevices

/-! ## Statements -/

structure DeviceGrant where
  version : Rat
  principalId : JsString
  controllerId : JsString
  controllerEpoch : Int
  pairingId : JsString
  scratchId : JsString
  pendingDeviceId : JsString
  pendingDevicePublicKeyHash : Bytes
  capabilities : Rat
  issuedAtMs : Int
  expiresAtMs : Int
deriving DecidableEq

structure ControllerBootstrap where
  version : Rat
  controllerId : JsString
  controllerDeviceId : JsString
  controllerPublicKeyHash : Bytes
  pairingId : JsString
  scratchId : JsString
  pendingDeviceId : JsString
  pendingDevicePublicKeyHash : Bytes
  issuedAtMs : Int
  expiresAtMs : Int
deriving DecidableEq

structure SelfBootstrap where
  version : Rat
  controllerId : JsString
  scratchId : JsString
  deviceId : JsString
  devicePublicKeyHash : Bytes
  issuedAtMs : Int
  expiresAtMs : Int
deriving DecidableEq

structure DeviceSessionProof where
  version : Rat
  challengeId : JsString
  deviceId : JsString
  deviceKeyEpoch : Int
  audience : JsString
  challenge : Bytes
  issuedAtMs : Int
  expiresAtMs : Int
deriving DecidableEq

/-! ## Writing -/

structure CanonicalWriter where
  parts : List Bytes

namespace CanonicalWriter

variable (writer : CanonicalWriter)

def empty : CanonicalWriter := ⟨[]⟩

def bytesWithoutLength (value : Bytes) : CanonicalWriter := ⟨writer.parts ++ [value]⟩

def u8 (value : Rat) : Except String CanonicalWriter :=
  if !value.isInt ∨ value < 0 ∨ 0xff < value then .error "value is not an unsigned byte"
  else .ok (writer.bytesWithoutLength [UInt8.ofNat value.num.toNat])

/-- `setUint32` of a big-endian view. -/
def setUint32 (value : Nat) : Bytes := [24, 16, 8, 0].map fun shift => UInt8.ofNat (value >>> shift)

def u32 (value : Rat) : Except String CanonicalWriter :=
  if !value.isInt ∨ value < 0 ∨ 0xffffffff < value then .error "value is not an unsigned 32-bit integer"
  else .ok (writer.bytesWithoutLength (setUint32 value.num.toNat))

/-- `setBigUint64` of a big-endian view. -/
def setBigUint64 (value : Nat) : Bytes :=
  [56, 48, 40, 32, 24, 16, 8, 0].map fun shift => UInt8.ofNat (value >>> shift)

def u64 (value : Int) : Except String CanonicalWriter :=
  if value < 0 ∨ 0xffffffffffffffff < value then .error "value is not an unsigned 64-bit integer"
  else .ok (writer.bytesWithoutLength (setBigUint64 value.toNat))

def bytes (value : Bytes) : Except String CanonicalWriter := do
  let writer ← writer.u32 value.length
  .ok (writer.bytesWithoutLength value)

def text (value : JsString) : Except String CanonicalWriter := writer.bytes (encodeText value)

def finish : Bytes := writer.parts.flatten

end CanonicalWriter

/-! ## Checks -/

/-- `OPAQUE_ID_PATTERN`. -/
def opaqueIdPattern (value : JsString) : Bool :=
  decide (8 ≤ value.length ∧ value.length ≤ 128) &&
    value.all fun c => JsString.isLetter c || JsString.isDigit c || c == 95 || c == 45

def assertId (value : JsString) (name : String) : Except String Unit :=
  if opaqueIdPattern value then .ok () else .error (name ++ " is not a bounded base64url identifier")

def assertBytes (value : Bytes) (length : Nat) (name : String) : Except String Unit :=
  if value.length ≠ length then .error (name ++ " must contain exactly " ++ toString length ++ " bytes") else .ok ()

/-- The bits are those of the number modulo `2 ^ 32`. -/
def assertCapabilities (value : Rat) : Except String Unit :=
  if !value.isInt ∨ value < 0 ∨ UInt32.ofNat value.num.toNat &&& ~~~deviceCapabilitiesController ≠ 0 then
    .error "device capabilities contain unknown bits"
  else .ok ()

/-- `/^https?:\/\//u`. -/
def isWebOrigin (audience : JsString) : Bool :=
  (JsString.afterPrefix (.ofString "http://") audience).isSome ||
    (JsString.afterPrefix (.ofString "https://") audience).isSome

/-! ## Encoders -/

def encodeDeviceGrant (grant : DeviceGrant) : Except String Bytes := do
  assertId grant.principalId "principalId"
  assertId grant.controllerId "controllerId"
  assertId grant.pairingId "pairingId"
  assertId grant.scratchId "scratchId"
  assertId grant.pendingDeviceId "pendingDeviceId"
  assertBytes grant.pendingDevicePublicKeyHash 32 "pendingDevicePublicKeyHash"
  assertCapabilities grant.capabilities
  let writer ← (CanonicalWriter.empty.bytesWithoutLength deviceGrantDomain).u8 grant.version
  let writer ← writer.text grant.principalId
  let writer ← writer.text grant.controllerId
  let writer ← writer.u64 grant.controllerEpoch
  let writer ← writer.text grant.pairingId
  let writer ← writer.text grant.scratchId
  let writer ← writer.text grant.pendingDeviceId
  let writer ← writer.bytes grant.pendingDevicePublicKeyHash
  let writer ← writer.u32 grant.capabilities
  let writer ← writer.u64 grant.issuedAtMs
  let writer ← writer.u64 grant.expiresAtMs
  .ok writer.finish

def encodeControllerBootstrap (bootstrap : ControllerBootstrap) : Except String Bytes := do
  assertId bootstrap.controllerId "controllerId"
  assertId bootstrap.controllerDeviceId "controllerDeviceId"
  assertId bootstrap.pairingId "pairingId"
  assertId bootstrap.scratchId "scratchId"
  assertId bootstrap.pendingDeviceId "pendingDeviceId"
  assertBytes bootstrap.controllerPublicKeyHash 32 "controllerPublicKeyHash"
  assertBytes bootstrap.pendingDevicePublicKeyHash 32 "pendingDevicePublicKeyHash"
  let writer ← (CanonicalWriter.empty.bytesWithoutLength controllerBootstrapDomain).u8 bootstrap.version
  let writer ← writer.text bootstrap.controllerId
  let writer ← writer.text bootstrap.controllerDeviceId
  let writer ← writer.bytes bootstrap.controllerPublicKeyHash
  let writer ← writer.text bootstrap.pairingId
  let writer ← writer.text bootstrap.scratchId
  let writer ← writer.text bootstrap.pendingDeviceId
  let writer ← writer.bytes bootstrap.pendingDevicePublicKeyHash
  let writer ← writer.u64 bootstrap.issuedAtMs
  let writer ← writer.u64 bootstrap.expiresAtMs
  .ok writer.finish

def encodeSelfBootstrap (bootstrap : SelfBootstrap) : Except String Bytes := do
  assertId bootstrap.controllerId "controllerId"
  assertId bootstrap.scratchId "scratchId"
  assertId bootstrap.deviceId "deviceId"
  assertBytes bootstrap.devicePublicKeyHash 32 "devicePublicKeyHash"
  let writer ← (CanonicalWriter.empty.bytesWithoutLength selfBootstrapDomain).u8 bootstrap.version
  let writer ← writer.text bootstrap.controllerId
  let writer ← writer.text bootstrap.scratchId
  let writer ← writer.text bootstrap.deviceId
  let writer ← writer.bytes bootstrap.devicePublicKeyHash
  let writer ← writer.u64 bootstrap.issuedAtMs
  let writer ← writer.u64 bootstrap.expiresAtMs
  .ok writer.finish

def encodeDeviceSessionProof (proof : DeviceSessionProof) : Except String Bytes := do
  assertId proof.challengeId "challengeId"
  assertId proof.deviceId "deviceId"
  assertBytes proof.challenge 32 "challenge"
  (if !isWebOrigin proof.audience then .error "audience must be an HTTP or HTTPS origin" else .ok () : Except _ Unit)
  let writer ← (CanonicalWriter.empty.bytesWithoutLength deviceSessionDomain).u8 proof.version
  let writer ← writer.text proof.challengeId
  let writer ← writer.text proof.deviceId
  let writer ← writer.u64 proof.deviceKeyEpoch
  let writer ← writer.text proof.audience
  let writer ← writer.bytes proof.challenge
  let writer ← writer.u64 proof.issuedAtMs
  let writer ← writer.u64 proof.expiresAtMs
  .ok writer.finish

end Marks.SigningClient
