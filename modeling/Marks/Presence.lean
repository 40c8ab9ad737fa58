import Marks.Runs
import Marks.Room

/-! # Presence

Cursors and names, relayed and never stored. A room decodes a frame, puts its sender's site and identity
into it and relays it; a connection that takes up presence under a site retires what another one published
there with a tombstone. The room and the client have a decoder each. -/

namespace Marks

/-- JSON as the two sides treat it: `serde_json` in the room, `JSON.parse` behind `TextDecoder` in the
client, and the identity a room writes. -/
structure PresenceJson where
  Value : Type
  serdeAccepts : Bytes → Bool
  parse : Bytes → Option Value
  userValue : RoomActor → ConnId → Nat → Bytes

abbrev PresenceKey := List Char

structure PresenceEntry where
  key : PresenceKey
  deleted : Bool
  age : Nat
  value : Bytes
deriving DecidableEq, Repr

structure PresenceFrame where
  instanceId : Bytes
  sequence : Nat
  entries : List PresenceEntry
deriving DecidableEq, Repr

def presenceTag : UInt8 := 5
def presenceVersion : UInt8 := 2
def maxPresenceSequence : Nat := 2 ^ 53 - 1
def maxEphemeralBytes : Nat := 1536

/-! ## Bytes -/

def keyBytes (key : PresenceKey) : Bytes := key.flatMap String.utf8EncodeChar

def fromUtf8 (bytes : Bytes) : Option (List Char) := bytes.toByteArray.utf8Decode?.map Array.toList

def takeBytes (n : Nat) (input : Bytes) : Option (Bytes × Bytes) :=
  if n ≤ input.length then some (input.take n, input.drop n) else none

def takeByte : Bytes → Option (UInt8 × Bytes)
  | [] => none
  | byte :: rest => some (byte, rest)

/-! ## The room's codec -/

def presenceUintFrom (value shift : Nat) (first : Bool) : Bytes → Option (Nat × Bytes)
  | [] => none
  | byte :: rest =>
    if 63 ≤ shift ∧ byte &&& 0x7f ≠ 0 then none
    else
      let value := value ||| (byte &&& 0x7f).toNat <<< shift
      if byte &&& 0x80 = 0 then
        if !first ∧ byte = 0 then none else some (value, rest)
      else presenceUintFrom value (shift + 7) false rest

def presenceUint (input : Bytes) : Option (Nat × Bytes) := presenceUintFrom 0 0 true input

/-- A `u64` takes ten groups of seven bits at most. -/
def presencePutUintFrom : Nat → Nat → Bytes
  | 0, _ => []
  | groups + 1, value =>
    if value / 128 = 0 then [UInt8.ofNat (value % 128)]
    else UInt8.ofNat (value % 128 + 128) :: presencePutUintFrom groups (value / 128)

def presencePutUint (value : Nat) : Bytes := presencePutUintFrom 10 value

section
variable (J : PresenceJson)

def decodePresenceEntry (input : Bytes) : Option (PresenceEntry × Bytes) := do
  let (keyLen, input) ← presenceUint input
  guard (keyLen ≠ 0 ∧ keyLen ≤ 256)
  let (bytes, input) ← takeBytes keyLen input
  let key ← fromUtf8 bytes
  let (flags, input) ← takeByte input
  if flags = 1 then some (⟨key, true, 0, []⟩, input)
  else
    guard (flags = 0)
    let (age, input) ← presenceUint input
    let (valueLen, input) ← presenceUint input
    guard (valueLen ≤ 16 * 1024)
    let (value, input) ← takeBytes valueLen input
    guard (J.serdeAccepts value = true)
    some (⟨key, false, age, value⟩, input)

def decodePresenceEntries : Nat → Bytes → Option (List PresenceEntry × Bytes)
  | 0, input => some ([], input)
  | count + 1, input => do
    let (entry, input) ← decodePresenceEntry J input
    let (entries, input) ← decodePresenceEntries count input
    some (entry :: entries, input)

def decodePresence (input : Bytes) : Option PresenceFrame := do
  let (header, input) ← takeBytes 2 input
  guard (header = [presenceTag, presenceVersion])
  let (instanceId, input) ← takeBytes 16 input
  let (sequence, input) ← presenceUint input
  guard (sequence ≠ 0 ∧ sequence ≤ maxPresenceSequence)
  let (count, input) ← presenceUint input
  guard (count ≤ 256)
  let (entries, input) ← decodePresenceEntries J count input
  guard (input = [])
  some ⟨instanceId, sequence, entries⟩

end

def encodePresenceEntry (entry : PresenceEntry) : Bytes :=
  presencePutUint (keyBytes entry.key).length ++ keyBytes entry.key ++
    if entry.deleted then [1]
    else 0 :: (presencePutUint (min entry.age 30000) ++ (presencePutUint entry.value.length ++ entry.value))

def encodePresence (frame : PresenceFrame) : Bytes :=
  [presenceTag, presenceVersion] ++ (frame.instanceId ++ (presencePutUint frame.sequence ++
    (presencePutUint frame.entries.length ++ frame.entries.flatMap encodePresenceEntry)))

/-! ## The client's decoder -/

structure DecodedEntry (V : Type) where
  key : PresenceKey
  deleted : Bool
  age : Nat
  value : Option V

structure DecodedFrame (V : Type) where
  instanceId : Bytes
  sequence : Nat
  entries : List (DecodedEntry V)

def maxPresenceBytes : Nat := 64 * 1024
def maxSafeInteger : Nat := 2 ^ 53 - 1

namespace Reader

def uintFrom (value factor : Nat) (first : Bool) : Bytes → Option (Nat × Bytes)
  | [] => none
  | byte :: rest =>
    let value := value + (byte &&& 0x7f).toNat * factor
    if maxSafeInteger < value then none
    else if byte &&& 0x80 = 0 then
      if !first ∧ byte = 0 then none else some (value, rest)
    else if maxSafeInteger < factor * 128 then none
    else uintFrom value (factor * 128) false rest

def uint (input : Bytes) : Option (Nat × Bytes) := uintFrom 0 1 true input

def bytes (maximum : Nat) (input : Bytes) : Option (Bytes × Bytes) := do
  let (length, input) ← uint input
  guard (length ≤ maximum)
  takeBytes length input

/-- `TextDecoder` drops a byte order mark. -/
def text (bytes : Bytes) : Option (List Char) :=
  fromUtf8 (if bytes.take 3 = [0xef, 0xbb, 0xbf] then bytes.drop 3 else bytes)

end Reader

section
variable (J : PresenceJson)

def decodeEntry (input : Bytes) : Option (DecodedEntry J.Value × Bytes) := do
  let (bytes, input) ← Reader.bytes 256 input
  let key ← Reader.text bytes
  guard (key ≠ [])
  let (flags, input) ← takeByte input
  if flags = 1 then some (⟨key, true, 0, none⟩, input)
  else
    guard (flags = 0)
    let (age, input) ← Reader.uint input
    let (json, input) ← Reader.bytes (16 * 1024) input
    let value ← J.parse json
    some (⟨key, false, age, some value⟩, input)

def decodeEntries : Nat → Bytes → Option (List (DecodedEntry J.Value) × Bytes)
  | 0, input => some ([], input)
  | count + 1, input => do
    let (entry, input) ← decodeEntry J input
    let (entries, input) ← decodeEntries count input
    some (entry :: entries, input)

def decodeFrame (input : Bytes) : Option (DecodedFrame J.Value) := do
  guard (input ≠ [] ∧ input.length ≤ maxPresenceBytes)
  let (tag, input) ← takeByte input
  guard (tag = presenceTag)
  let (version, input) ← takeByte input
  guard (version = presenceVersion)
  let (instanceId, input) ← takeBytes 16 input
  let (sequence, input) ← Reader.uint input
  guard (sequence ≠ 0 ∧ sequence ≤ maxSafeInteger)
  let (count, input) ← Reader.uint input
  guard (count ≤ 256)
  let (entries, input) ← decodeEntries J count input
  guard (input = [])
  some ⟨instanceId, sequence, entries⟩

end

/-! ## The room's presence -/

/-- `split_once("-cm-")`. -/
def splitOnceCm : PresenceKey → Option (PresenceKey × PresenceKey)
  | [] => none
  | c :: rest =>
    if ['-', 'c', 'm', '-'] <+: c :: rest then some ([], rest.drop 3)
    else (splitOnceCm rest).map fun halves => (c :: halves.1, halves.2)

structure PresenceSocket where
  actor : RoomActor
  color : Nat
  presenceInstance : Option Bytes
  presenceSequence : Nat
  presenceKeys : List PresenceKey

structure PresenceLease where
  conn : ConnId
  instanceId : Bytes
  sequence : Nat
  keys : List PresenceKey

structure Relay where
  source : Option (ConnId × RoomActor × Nat × Bytes)
  frame : PresenceFrame
deriving DecidableEq, Repr

/-- `site.to_string()`. -/
def presenceOwner (actor : RoomActor) : PresenceKey := Nat.toDigits 10 actor.esbtSite

structure PresenceRoom where
  sockets : List (ConnId × PresenceSocket)
  nextConn : ConnId
  retiredPresence : List Bytes
  activePresence : List (PresenceKey × PresenceLease)
  out : List Relay

/-- `allowed` is the rate limiter's decision, `stalled` whose outbound queues take no frame. -/
inductive PresenceEvent where
  | join (actor : RoomActor) (color : Nat)
  | leave (conn : ConnId)
  | resolved (conn : ConnId) (actor : RoomActor)
  | frame (conn : ConnId) (payload : Bytes) (allowed : Bool) (stalled : List ConnId)

namespace PresenceRoom

def init : PresenceRoom := ⟨[], 0, [], [], []⟩

variable (J : PresenceJson) (room : PresenceRoom)

def socket (conn : ConnId) : Option PresenceSocket := room.sockets.lookup conn

def setSocket (conn : ConnId) (socket : PresenceSocket) : PresenceRoom :=
  { room with sockets := room.sockets.map fun entry => if entry.1 = conn then (conn, socket) else entry }

def closeOne (conn : ConnId) : PresenceRoom :=
  { room with sockets := room.sockets.filter fun entry => entry.1 ≠ conn }

def record (relay : Relay) : PresenceRoom := { room with out := room.out ++ [relay] }

/-- An entry under the sender's own site, with the room's identity of the sender. -/
def rewriteEntry (actor : RoomActor) (conn : ConnId) (color : Nat) (entry : PresenceEntry) :
    Option PresenceEntry := do
  let (_, suffix) ← splitOnceCm entry.key
  guard (suffix ≠ [])
  let key := presenceOwner actor ++ ['-', 'c', 'm', '-'] ++ suffix
  if suffix = ['u', 's', 'e', 'r'] ∧ entry.deleted = false then
    some { entry with key, value := J.userValue actor conn color }
  else some { entry with key }

def tombstone (lease : PresenceLease) : PresenceFrame :=
  ⟨lease.instanceId, lease.sequence + 1, lease.keys.map fun key => ⟨key, true, 0, []⟩⟩

def broadcastTombstone (lease : PresenceLease) (stalled : List ConnId) : PresenceRoom :=
  let room := room.record ⟨none, tombstone lease⟩
  { room with sockets := room.sockets.filter fun entry => entry.1 = lease.conn ∨ entry.1 ∉ stalled }

def retire (lease : PresenceLease) (stalled : List ConnId) : PresenceRoom :=
  let room := { room with retiredPresence := room.retiredPresence ++ [lease.instanceId] }
  let room := room.broadcastTombstone lease stalled
  match room.socket lease.conn with
  | some other => room.setSocket lease.conn { other with presenceInstance := none, presenceKeys := [] }
  | none => room

/-- The lease of another instance under the owner, when the connection publishes for the first time. -/
def superseded (owner : PresenceKey) (socket : PresenceSocket) (instanceId : Bytes) : Option PresenceLease :=
  if socket.presenceInstance.isNone then
    (room.activePresence.lookup owner).filter fun lease => lease.instanceId ≠ instanceId
  else none

def updatedKeys (keys : List PresenceKey) (entry : PresenceEntry) : List PresenceKey :=
  if entry.deleted then keys.filter (· ≠ entry.key)
  else if entry.key ∈ keys then keys else keys ++ [entry.key]

def setLease (owner : PresenceKey) (lease : PresenceLease) : PresenceRoom :=
  { room with activePresence :=
      (owner, lease) :: room.activePresence.filter fun entry => entry.1 ≠ owner }

def publish (owner : PresenceKey) (conn : ConnId) (frame : PresenceFrame) : PresenceRoom :=
  match room.socket conn with
  | none => room
  | some socket =>
    let keys := frame.entries.foldl updatedKeys socket.presenceKeys
    (room.setSocket conn { socket with
      presenceInstance := some frame.instanceId
      presenceSequence := frame.sequence
      presenceKeys := keys }).setLease owner ⟨conn, frame.instanceId, frame.sequence, keys⟩

/-- The frame as the room takes it from a socket: what it decodes to, and what it is rewritten to. -/
def accepts (conn : ConnId) (socket : PresenceSocket) (payload : Bytes) (allowed : Bool) :
    Option PresenceFrame := do
  guard (payload.length ≤ maxEphemeralBytes ∧ allowed = true)
  guard (authorizeRoomAction socket.actor .publishPresence = true)
  let frame ← decodePresence J payload
  guard (frame.sequence ≠ maxPresenceSequence ∧ frame.instanceId ∉ room.retiredPresence)
  guard (¬(socket.presenceInstance.any (· ≠ frame.instanceId) ∨ frame.sequence ≤ socket.presenceSequence))
  let entries ← frame.entries.mapM (rewriteEntry J socket.actor conn socket.color)
  some { frame with entries }

def clientPresence (conn : ConnId) (payload : Bytes) (allowed : Bool) (stalled : List ConnId) :
    PresenceRoom :=
  match room.socket conn with
  | none => room
  | some socket =>
    match room.accepts J conn socket payload allowed with
    | none => room
    | some frame =>
      let owner := presenceOwner socket.actor
      let room := match room.superseded owner socket frame.instanceId with
        | some lease => room.retire lease stalled
        | none => room
      if maxEphemeralBytes < (encodePresence frame).length then room
      else (room.publish owner conn frame).record ⟨some (conn, socket.actor, socket.color, payload), frame⟩

def step : PresenceEvent → PresenceRoom
  | .join actor color =>
    { room with
      sockets := room.sockets ++ [(room.nextConn, ⟨actor, color, none, 0, []⟩)]
      nextConn := room.nextConn + 1 }
  | .leave conn => room.closeOne conn
  | .resolved conn actor =>
    match room.socket conn with
    | some socket =>
      if actor.esbtSite = socket.actor.esbtSite then room.setSocket conn { socket with actor } else room
    | none => room
  | .frame conn payload allowed stalled => room.clientPresence J conn payload allowed stalled

def after (events : List PresenceEvent) : PresenceRoom :=
  Transition.run (fun room e => step J room e) init events

end PresenceRoom

end Marks
