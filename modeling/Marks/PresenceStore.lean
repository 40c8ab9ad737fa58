import Marks.OrderedMap
import Marks.Strings
import Marks.PresenceWire

/-! # The client's presence store

What a client says of itself and what it has heard of the others, under one key each. Its own entries go out
together in every frame, the deleted ones as tombstones; of a frame that comes in only a sequence past the greatest
of its instance counts. -/

namespace Marks

/-- `JSON` as the store uses it: on what `set` is given, and on what it made of that. -/
structure StoreJson extends PresenceJson where
  Source : Type
  /-- `JSON.stringify(value ?? null)`; `none` where it throws or there is no text. -/
  stringify : Source → Option Bytes
  text : Value → Bytes

abbrev InstanceId := { bytes : Bytes // bytes.length = 16 }

def maxPresenceEntries : Nat := 256
def maxKeyBytes : Nat := 256
def maxValueBytes : Nat := 16 * 1024
def maxBootstrapAgeMs : Nat := 30000

structure StoredEntry (V : Type) where
  value : Option V
  receivedAt : Rat
  instanceId : Bytes
  deleted : Bool
  isLocal : Bool
deriving DecidableEq

/-- `published` are the frames it has handed out since its connection lifecycle began. -/
structure PresenceStore (V : Type) where
  entries : List (JsString × StoredEntry V)
  greatestSequence : List (Bytes × Nat)
  listening : Bool
  instanceId : InstanceId
  sequence : Nat
  destroyed : Bool
  ttlMs : Rat
  published : List Bytes
deriving DecidableEq

/-- The times are what the store's clock says when the call reads it: for a change, and for the frame that follows. -/
inductive StoreEvent (Source : Type) where
  | set (key : JsString) (value : Source) (now sent : Rat)
  | delete (key : JsString) (now sent : Rat)
  | encodeAll (now : Rat)
  | apply (bytes : Bytes) (now : Rat)
  | sweep (now : Rat)
  | beginConnectionLifecycle (instanceId : InstanceId)
  | subscribeLocalUpdates (listening : Bool)
  | destroy

def utf8 (s : JsString) : Bytes := keyBytes s.codePoints

namespace PresenceStore

def create (V : Type) (ttlMs : Rat) (instanceId : InstanceId) : PresenceStore V :=
  ⟨[], [], false, instanceId, 0, false, ttlMs, []⟩

section
variable {V : Type} (s : PresenceStore V)

def entry (key : JsString) : Option (StoredEntry V) := OrderedMap.get s.entries key

def greatest (instanceId : Bytes) : Nat := (OrderedMap.get s.greatestSequence instanceId).getD 0

def live (entry : StoredEntry V) (now : Rat) : Bool := !entry.deleted && now - entry.receivedAt ≤ s.ttlMs

def get (key : JsString) (now : Rat) : Option V :=
  match s.entry key with
  | some entry => if s.live entry now then entry.value else none
  | none => none

def localKeys : List JsString := OrderedMap.picked (·.isLocal) s.entries

def sweep (now : Rat) : PresenceStore V :=
  { s with entries := s.entries.filter fun entry => now - entry.2.receivedAt ≤ s.ttlMs }

def beginConnectionLifecycle (instanceId : InstanceId) : PresenceStore V :=
  { s with
    instanceId
    sequence := 0
    published := []
    entries := s.entries.map fun entry =>
      (entry.1, if entry.2.isLocal then { entry.2 with instanceId := instanceId.1 } else entry.2) }

def destroy : PresenceStore V :=
  { s with destroyed := true, entries := [], greatestSequence := [], listening := false }

end

section
variable (J : StoreJson) (s : PresenceStore J.Value)

/-! ## What goes out -/

def age (now receivedAt : Rat) : Nat := (min (maxBootstrapAgeMs : Int) (max 0 (now - receivedAt).floor)).toNat

def outgoing (now : Rat) (key : JsString) : PresenceEntry :=
  match s.entry key with
  | none => ⟨key.codePoints, true, 0, []⟩
  | some entry =>
    if entry.deleted then ⟨key.codePoints, true, 0, []⟩
    else ⟨key.codePoints, false, age now entry.receivedAt, (entry.value.map J.text).getD []⟩

/-- `Writer` refuses a field past its limit, and a frame past 64 KiB. -/
def writable (frame : PresenceFrame) : Bool :=
  frame.entries.all (fun entry => decide ((keyBytes entry.key).length ≤ maxKeyBytes) &&
    decide (entry.value.length ≤ maxValueBytes)) && decide ((encodePresence frame).length ≤ maxPresenceBytes)

/-- The terminal value is left to the room's retirement. A frame that cannot be written has its sequence all the
same. -/
def publication (keys : List JsString) (now : Rat) : PresenceStore J.Value :=
  if maxSafeInteger - 1 ≤ s.sequence then s
  else
    let frame := ⟨s.instanceId.1, s.sequence + 1, keys.map (outgoing J s now)⟩
    if writable frame then { s with sequence := s.sequence + 1, published := s.published ++ [encodePresence frame] }
    else { s with sequence := s.sequence + 1 }

def encodeAll (now : Rat) : PresenceStore J.Value := publication J s s.localKeys now

def emitLocal (now : Rat) : PresenceStore J.Value := if s.listening then publication J s s.localKeys now else s

def serializableValue (value : J.Source) : Option J.Value := do
  let json ← J.stringify value
  guard (json.length ≤ maxValueBytes)
  J.parse json

/-- What it is when `set` returns or throws: `emitLocal` comes after the entry is in its place. -/
def set (key : JsString) (value : J.Source) (now sent : Rat) : PresenceStore J.Value :=
  if s.destroyed then s
  else if (s.entry key).isNone ∧ maxPresenceEntries ≤ s.entries.length then s
  else
    match serializableValue J value with
    | none => s
    | some stored =>
      if utf8 key = [] ∨ maxKeyBytes < (utf8 key).length then s
      else
        emitLocal J { s with
          entries := OrderedMap.set s.entries key ⟨some stored, now, s.instanceId.1, false, true⟩ } sent

def delete (key : JsString) (now sent : Rat) : PresenceStore J.Value :=
  if s.destroyed then s
  else
    match s.entry key with
    | none => s
    | some entry =>
      if entry.deleted then s
      else
        emitLocal J { s with
          entries := OrderedMap.set s.entries key ⟨none, now, s.instanceId.1, true, true⟩ } sent

/-! ## What comes in -/

/-- The entry that takes the place of what is there; `none` where the loop goes on to the next. -/
def incomingEntry {V : Type} (instanceId : Bytes) (now : Rat) (existing : Option (StoredEntry V))
    (incoming : DecodedEntry V) : Option (StoredEntry V) :=
  if existing.any (fun entry => !entry.deleted && entry.instanceId != instanceId) && !incoming.deleted then none
  else if incoming.deleted then some ⟨none, now, instanceId, true, false⟩
  else if maxBootstrapAgeMs < incoming.age then none
  else some ⟨incoming.value, now, instanceId, false, false⟩

def applyEntry {V : Type} (instanceId : Bytes) (now : Rat) (entries : List (JsString × StoredEntry V))
    (incoming : DecodedEntry V) : List (JsString × StoredEntry V) :=
  let key := JsString.ofCodePoints incoming.key
  match incomingEntry instanceId now (OrderedMap.get entries key) incoming with
  | none => entries
  | some entry => OrderedMap.set entries key entry

def applyFrame {V : Type} (s : PresenceStore V) (frame : DecodedFrame V) (now : Rat) : PresenceStore V :=
  if frame.sequence ≤ s.greatest frame.instanceId then s
  else
    { s with
      entries := frame.entries.foldl (applyEntry frame.instanceId now) s.entries
      greatestSequence := OrderedMap.set s.greatestSequence frame.instanceId frame.sequence }

/-- A frame that does not decode throws before anything is changed. -/
def apply (bytes : Bytes) (now : Rat) : PresenceStore J.Value :=
  if s.destroyed then s
  else
    match decodeFrame J.toPresenceJson bytes with
    | none => s
    | some frame => s.applyFrame frame now

def step : StoreEvent J.Source → PresenceStore J.Value
  | .set key value now sent => set J s key value now sent
  | .delete key now sent => delete J s key now sent
  | .encodeAll now => encodeAll J s now
  | .apply bytes now => apply J s bytes now
  | .sweep now => s.sweep now
  | .beginConnectionLifecycle instanceId => s.beginConnectionLifecycle instanceId
  | .subscribeLocalUpdates listening => { s with listening }
  | .destroy => s.destroy

end

end PresenceStore

end Marks
