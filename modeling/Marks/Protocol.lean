import Marks.Engine

/-! # The room protocol

Frame tags, close codes and the mutation envelope. Outbound frames are kept as their tag and fields;
inbound mutation envelopes are decoded from their bytes. -/

namespace Marks

def msgUpdate : UInt8 := 0x01
def msgEphemeral : UInt8 := 0x02
def msgServerVv : UInt8 := 0x03
def msgSnapshot : UInt8 := 0x04
def msgSynced : UInt8 := 0x05
def msgMutation : UInt8 := 0x06
def msgCommitted : UInt8 := 0x07
def msgPresenceDelta : UInt8 := 0x08

abbrev CloseCode := Nat

def closeInvalidPayload : CloseCode := 4400
def closeUnauthorized : CloseCode := 4401
def closeForbiddenWrite : CloseCode := 4403
def closeDocumentDeleted : CloseCode := 4404
def closeCapacity : CloseCode := 4429
def closeInternal : CloseCode := 1011

def mutationMagic : Bytes := [0x4d, 0x4b, 0x4d, 0x54]
def protocolVersion : UInt8 := 1
def mutationHeaderBytes : Nat := 4 + 1 + 1 + 16 + 4

inductive MutationKind
  | update
  | snapshot
deriving DecidableEq, Repr

namespace MutationKind

def toByte : MutationKind → UInt8
  | update => 1
  | snapshot => 2

def fromByte (value : UInt8) : Option MutationKind :=
  if value = 1 then some update
  else if value = 2 then some snapshot
  else none

end MutationKind

abbrev MessageId := Bytes

structure Mutation where
  id : MessageId
  kind : MutationKind
  payload : Bytes
deriving DecidableEq, Repr

def fromLeBytes : Bytes → Nat
  | [] => 0
  | b :: bs => b.toNat + 256 * fromLeBytes bs

def toLeBytes : Nat → Nat → Bytes
  | 0, _ => []
  | n + 1, value => UInt8.ofNat (value % 256) :: toLeBytes n (value / 256)

def decodeMutation (bytes : Bytes) : Option Mutation :=
  if bytes.length < mutationHeaderBytes ∨ bytes.take 4 ≠ mutationMagic then none
  else if (bytes.drop 4).head? ≠ some protocolVersion then none
  else
    match (bytes.drop 5).head?.bind MutationKind.fromByte with
    | none => none
    | some kind =>
      let payloadLen := fromLeBytes ((bytes.drop 22).take 4)
      if payloadLen = 0 ∨ bytes.length ≠ mutationHeaderBytes + payloadLen then none
      else some ⟨(bytes.drop 6).take 16, kind, bytes.drop mutationHeaderBytes⟩

def encodeMutation (id : MessageId) (kind : MutationKind) (payload : Bytes) : Option Bytes :=
  if payload.length = 0 ∨ 2 ^ 32 ≤ payload.length then none
  else some (mutationMagic ++ [protocolVersion, kind.toByte] ++ id ++ toLeBytes 4 payload.length ++
    payload)

/-- The durable commit receipt of one mutation. -/
structure Committed where
  id : MessageId
  revision : Nat
  version : Bytes
deriving DecidableEq, Repr

/-- `encode_committed` fails only when the version's length does not fit its `u32` field. -/
def encodeCommitted (id : MessageId) (revision : Nat) (version : Bytes) : Option Committed :=
  if version.length < 2 ^ 32 then some ⟨id, revision, version⟩ else none

/-- What a room puts on a socket's outbound queue. -/
inductive OutMsg where
  | serverVv (version : Bytes)
  | update (bytes : Bytes)
  | snapshot (bytes : Bytes)
  | synced
  | committed (receipt : Committed)
  | ephemeral
  | close (code : CloseCode)
deriving DecidableEq, Repr

end Marks
