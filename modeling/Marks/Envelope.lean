import Marks.Protocol
import Marks.Strings

/-! # Envelopes in two languages

The mutation envelope is written by the client and read by the room, the commit receipt the other way round. The
client has the id as text, the room as its sixteen bytes. -/

namespace Marks

def committedMagic : Bytes := [0x4d, 0x4b, 0x43, 0x4d]
def committedHeaderBytes : Nat := 4 + 1 + 16 + 8 + 4

/-- The bytes that `encode_committed` writes. -/
def Committed.bytes (receipt : Committed) : Bytes :=
  committedMagic ++ [protocolVersion] ++ receipt.id ++ toLeBytes 8 receipt.revision ++
    toLeBytes 4 receipt.version.length ++ receipt.version

def encodeCommittedBytes (id : MessageId) (revision : Nat) (version : Bytes) : Option Bytes :=
  (encodeCommitted id revision version).map Committed.bytes

/-! ## The client's side -/

namespace Wire

def isHexDigit (c : UInt16) : Bool := (48 ≤ c && c ≤ 57) || (97 ≤ c && c ≤ 102)

/-- `parseInt` of one digit. -/
def digitValue (c : UInt16) : Nat := if c ≤ 57 then c.toNat - 48 else c.toNat - 87

def hexDigit (n : Nat) : UInt16 := if n < 10 then UInt16.ofNat (48 + n) else UInt16.ofNat (87 + n)

def hexPairs : JsString → Bytes
  | high :: low :: rest => UInt8.ofNat (digitValue high * 16 + digitValue low) :: hexPairs rest
  | _ => []

def hexToBytes (hex : JsString) : Option Bytes :=
  if ¬ (hex.length = 32 ∧ hex.all isHexDigit = true) ∨ hex.all (· == 48) = true then none else some (hexPairs hex)

def bytesToHex (bytes : Bytes) : JsString :=
  bytes.flatMap fun byte => [hexDigit (byte.toNat / 16), hexDigit (byte.toNat % 16)]

def encodeMutation (id : JsString) (kind : MutationKind) (payload : Bytes) : Option Bytes :=
  match hexToBytes id with
  | none => none
  | some idBytes =>
    if payload.length = 0 ∨ 0xffffffff < payload.length then none
    else some (mutationMagic ++ [protocolVersion, if kind = .update then 1 else 2] ++ idBytes ++
      toLeBytes 4 payload.length ++ payload)

structure CommittedReceipt where
  id : JsString
  revision : Nat
  version : Bytes
deriving DecidableEq, Repr

def decodeCommitted (payload : Bytes) : Option CommittedReceipt :=
  if payload.length < committedHeaderBytes ∨ payload.take 4 ≠ committedMagic ∨ payload[4]? ≠ some protocolVersion then
    none
  else
    let versionLength := fromLeBytes ((payload.drop 29).take 4)
    if payload.length ≠ committedHeaderBytes + versionLength then none
    else some ⟨bytesToHex ((payload.drop 5).take 16), fromLeBytes ((payload.drop 21).take 8),
      payload.drop committedHeaderBytes⟩

end Wire

end Marks
