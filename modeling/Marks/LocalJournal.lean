import Marks.Protocol
import Marks.Strings

/-! # The journal in the browser's storage

A journal is read as whatever value is found under its key and normalised before it is used, when a page opens as well
as in each read and write under the persist lock. A write is one step: it stores a record, or throws and leaves the
value that was there. -/

namespace Marks

namespace LocalJournal

/-! ## Values in storage -/

/-- A value as storage returns it. A number is its 64 bits, and a value of another kind has none of the fields that are
read. -/
inductive JsValue
  | undefined
  | null
  | bool (b : Bool)
  | number (bits : UInt64)
  | string (text : JsString)
  | bytes (content : Bytes)
  | array (items : List JsValue)
  | object (fields : List (String × JsValue))

namespace JsValue

def get (value : JsValue) (name : String) : JsValue :=
  match value with
  | object fields => (fields.lookup name).getD undefined
  | _ => undefined

def isNaN (bits : UInt64) : Bool := bits &&& 0x7FF0000000000000 == 0x7FF0000000000000 && bits &&& 0xFFFFFFFFFFFFF != 0

def truthy : JsValue → Bool
  | undefined | null => false
  | bool b => b
  | number bits => bits != 0 && bits != 0x8000000000000000 && !isNaN bits
  | string text => text ≠ []
  | bytes _ | array _ | object _ => true

/-- `typeof value === 'object'`. -/
def isObject : JsValue → Bool
  | null | bytes _ | array _ | object _ => true
  | undefined | bool _ | number _ | string _ => false

def one : JsValue := number 0x3FF0000000000000
def two : JsValue := number 0x4000000000000000
def three : JsValue := number 0x4008000000000000

/-- `value === other` for a number. -/
def isNumber (value other : JsValue) : Bool :=
  match value, other with
  | number bits, number expected => bits == expected
  | _, _ => false

def text? : JsValue → Option JsString
  | string text => some text
  | _ => none

def bytes? : JsValue → Option Bytes
  | bytes content => some content
  | _ => none

def number? : JsValue → Option UInt64
  | number bits => some bits
  | _ => none

def items? : JsValue → Option (List JsValue)
  | array items => some items
  | _ => none

end JsValue

/-! ## Records -/

inductive PermissionRole
  | local_
  | scratch
  | owner
  | editor
  | commenter
  | viewer
deriving DecidableEq, Repr

namespace PermissionRole

def text : PermissionRole → JsString
  | local_ => JsString.ofString "local"
  | scratch => JsString.ofString "scratch"
  | owner => JsString.ofString "owner"
  | editor => JsString.ofString "editor"
  | commenter => JsString.ofString "commenter"
  | viewer => JsString.ofString "viewer"

def all : List PermissionRole := [local_, scratch, owner, editor, commenter, viewer]

end PermissionRole

def isHexDigit (c : UInt16) : Bool := (48 ≤ c && c ≤ 57) || (97 ≤ c && c ≤ 102)

/-- `/^[0-9a-f]{32}$/`. -/
def isMutationId (text : JsString) : Bool := text.length == 32 && text.all isHexDigit

structure MutationId where
  text : JsString
  hex : isMutationId text = true
deriving DecidableEq, Repr

structure JournalMutation where
  id : MutationId
  kind : MutationKind
  bytes : Bytes
  createdAt : UInt64
deriving DecidableEq, Repr

structure ReplicaJournalRecord where
  siteId : JsString
  role : Option PermissionRole
  snapshot : Bytes
  pending : List JournalMutation
  ackedVersion : Option Bytes
  committedRevision : Option JsString
  lastPruneAt : UInt64
deriving DecidableEq, Repr

def updateText : JsString := JsString.ofString "update"
def snapshotText : JsString := JsString.ofString "snapshot"

/-! ## Normalising -/

/-- An entry of the pending list, where it is well formed. -/
def normalizeMutation (item : JsValue) : Option JournalMutation :=
  if !item.truthy then none
  else
    match (item.get "id").text?, (item.get "kind").text?, (item.get "bytes").bytes? with
    | some id, some kind, some bytes =>
      if hex : isMutationId id = true then
        let createdAt := (item.get "createdAt").number?.getD 0
        if kind = updateText then some ⟨⟨id, hex⟩, .update, bytes, createdAt⟩
        else if kind = snapshotText then some ⟨⟨id, hex⟩, .snapshot, bytes, createdAt⟩
        else none
      else none
    | _, _, _ => none

def persistedRole (value : JsValue) : Option PermissionRole :=
  value.text?.bind fun text => PermissionRole.all.find? (·.text == text)

def hexDigit (n : Nat) : UInt16 := if n < 10 then UInt16.ofNat (48 + n) else UInt16.ofNat (87 + n)

/-- `toString(16).padStart(16, '0')` of a number of 64 bits. -/
def hex64 (n : Nat) : JsString := (List.range 16).reverse.map fun i => hexDigit (n / 16 ^ i % 16)

theorem isHexDigit_hexDigit {n : Nat} (h : n < 16) : isHexDigit (hexDigit n) = true := by
  have hall : ∀ n < 16, isHexDigit (hexDigit n) = true := by decide
  exact hall n h

theorem isMutationId_hex64 (first second : Nat) : isMutationId (hex64 first ++ hex64 second) = true := by
  have hhalf : ∀ n, (hex64 n).length = 16 ∧ (hex64 n).all isHexDigit = true := by
    intro n
    refine ⟨by simp [hex64], List.all_eq_true.mpr fun c hc => ?_⟩
    obtain ⟨i, _, rfl⟩ := List.mem_map.mp hc
    exact isHexDigit_hexDigit (Nat.mod_lt _ (by decide))
  unfold isMutationId
  rw [List.length_append, List.all_append, (hhalf first).1, (hhalf second).1, (hhalf first).2, (hhalf second).2]
  rfl

/-- Multiplies the bytes in, each shifted by `offset`. -/
def mixBytes (offset start : Nat) (bytes : Bytes) : Nat :=
  bytes.foldl (fun h byte => ((h ^^^ (byte.toNat + offset)) * 0x100000001b3) % 2 ^ 64) start

/-- The migrated id of an update of the first version. -/
def legacyMutationId (bytes : Bytes) (index : Nat) : MutationId :=
  let first := mixBytes 0 (0xcbf29ce484222325 ^^^ index) bytes
  let second := mixBytes 1 (0x84222325cbf29ce4 ^^^ bytes.length) bytes
  let first := if first = 0 ∧ second = 0 then 1 else first
  ⟨hex64 first ++ hex64 second, isMutationId_hex64 first second⟩

def legacyMutations (updates : List Bytes) : List JournalMutation :=
  updates.mapIdx fun index bytes => ⟨legacyMutationId bytes index, .update, bytes, 0⟩

def normalizeRecord (value : JsValue) : Option ReplicaJournalRecord :=
  if !value.truthy || !value.isObject then none
  else
    match (value.get "siteId").text?, (value.get "snapshot").bytes? with
    | some siteId, some snapshot =>
      let ackedVersion := (value.get "ackedVersion").bytes?
      let lastPruneAt := (value.get "lastPruneAt").number?.getD 0
      if (value.get "version").isNumber .three || (value.get "version").isNumber .two then
        some {
          siteId
          role := if (value.get "version").isNumber .three then persistedRole (value.get "role") else none
          snapshot
          pending := ((value.get "pending").items?.getD []).filterMap normalizeMutation
          ackedVersion
          committedRevision := (value.get "committedRevision").text?
          lastPruneAt }
      else if (value.get "version").isNumber .one then
        some {
          siteId
          role := none
          snapshot
          pending := legacyMutations (((value.get "updates").items?.getD []).filterMap JsValue.bytes?)
          ackedVersion
          committedRevision := none
          lastPruneAt }
      else none
    | _, _ => none

/-! ## Records as values -/

def JournalMutation.toValue (mutation : JournalMutation) : JsValue :=
  .object [("id", .string mutation.id.text),
    ("kind", .string (match mutation.kind with
      | .update => updateText
      | .snapshot => snapshotText)),
    ("bytes", .bytes mutation.bytes), ("createdAt", .number mutation.createdAt)]

def ReplicaJournalRecord.toValue (record : ReplicaJournalRecord) : JsValue :=
  .object [("version", .three), ("siteId", .string record.siteId),
    ("role", record.role.elim .null fun role => .string role.text), ("snapshot", .bytes record.snapshot),
    ("pending", .array (record.pending.map JournalMutation.toValue)),
    ("ackedVersion", record.ackedVersion.elim .null .bytes),
    ("committedRevision", record.committedRevision.elim .null .string), ("lastPruneAt", .number record.lastPruneAt)]

/-! ## Opening -/

inductive OpenError
  | replicaJournalUnavailable
deriving DecidableEq, Repr

/-- `read` is what storage returned; it may throw, or not answer in time. -/
def readReplicaJournalForOpen (read : Option JsValue) : Except OpenError (Option ReplicaJournalRecord) :=
  match read with
  | some value => .ok (normalizeRecord value)
  | none => .error .replicaJournalUnavailable

def openWithReplicaJournal {α : Type} (read : Option JsValue) (continueOpening : Option ReplicaJournalRecord → α) :
    Except OpenError α :=
  (readReplicaJournalForOpen read).map continueOpening

/-! ## Writing

A write that throws is `none`. -/

/-- One id is not used for different bytes. -/
def appendMutation (record : ReplicaJournalRecord) (mutation : JournalMutation) : Option ReplicaJournalRecord :=
  if mutation.bytes = [] then some record
  else
    match record.pending.find? (·.id == mutation.id) with
    | some existing =>
      if existing.kind ≠ mutation.kind ∨ existing.bytes ≠ mutation.bytes then none else some record
    | none => some { record with pending := record.pending ++ [mutation] }

section
variable (stored : JsValue) (fallback : ReplicaJournalRecord)

def current : ReplicaJournalRecord := (normalizeRecord stored).getD fallback

def appendPendingMutation (mutation : JournalMutation) : Option ReplicaJournalRecord :=
  appendMutation (current stored fallback) mutation

/-- `exported` is the replica's full snapshot, `none` if the export throws. -/
def checkpointReplicaJournal (exported : Option Bytes) : Option ReplicaJournalRecord :=
  exported.map fun snapshot => { current stored fallback with snapshot }

def acknowledgePendingMutation (mutationId : MutationId) (acknowledgedVersion : Bytes) (committedRevision : Nat)
    (exported : Option Bytes) : Option ReplicaJournalRecord :=
  exported.map fun snapshot =>
    { current stored fallback with
      snapshot
      pending := (current stored fallback).pending.filter fun mutation => mutation.id ≠ mutationId
      ackedVersion := some acknowledgedVersion
      committedRevision := some (JsString.ofString (toString committedRevision)) }

end

/-- A write of any tab, with the fallback that tab brings. -/
inductive JournalWrite
  | append (fallback : ReplicaJournalRecord) (mutation : JournalMutation)
  | checkpoint (fallback : ReplicaJournalRecord) (exported : Option Bytes)
  | acknowledge (fallback : ReplicaJournalRecord) (mutationId : MutationId) (acknowledgedVersion : Bytes)
      (committedRevision : Nat) (exported : Option Bytes)

def JournalWrite.fallback : JournalWrite → ReplicaJournalRecord
  | append fallback _ => fallback
  | checkpoint fallback _ => fallback
  | acknowledge fallback _ _ _ _ => fallback

def written (stored : JsValue) : JournalWrite → Option ReplicaJournalRecord
  | .append fallback mutation => appendPendingMutation stored fallback mutation
  | .checkpoint fallback exported => checkpointReplicaJournal stored fallback exported
  | .acknowledge fallback mutationId acknowledgedVersion committedRevision exported =>
    acknowledgePendingMutation stored fallback mutationId acknowledgedVersion committedRevision exported

def perform (stored : JsValue) (write : JournalWrite) : JsValue :=
  ((written stored write).map ReplicaJournalRecord.toValue).getD stored

/-! ## The session's part -/

/-- What a page brings to its journal besides the replica. -/
structure JournalSession where
  marksSiteId : JsString
  permissionRole : Option PermissionRole
  pendingMutations : List JournalMutation
  lastAckedVersion : Option Bytes
  committedRevision : Nat
  lastPruneAt : UInt64
deriving DecidableEq, Repr

namespace JournalSession

def emptyRecord (session : JournalSession) : ReplicaJournalRecord where
  siteId := session.marksSiteId
  role := session.permissionRole
  snapshot := []
  pending := session.pendingMutations
  ackedVersion := session.lastAckedVersion
  committedRevision := some (JsString.ofString (toString session.committedRevision))
  lastPruneAt := session.lastPruneAt

def checkpointJournal (session : JournalSession) (stored : JsValue) (exported : Option Bytes) : JsValue :=
  perform stored (.checkpoint session.emptyRecord exported)

/-! What a page does before it takes a checkpoint of its authority. -/

def applyPermissionRole (session : JournalSession) (next : Option PermissionRole) : JournalSession :=
  { session with permissionRole := next }

def enterTerminalRecovery (session : JournalSession) : JournalSession := { session with permissionRole := none }

/-- `maybePrune`. -/
def pruned (session : JournalSession) (ackedVersion : Bytes) (now : UInt64) : JournalSession :=
  { session with lastPruneAt := now, lastAckedVersion := some ackedVersion }

end JournalSession

def startRole (access : Bool) (stored : ReplicaJournalRecord) : Option PermissionRole :=
  if access then if stored.role = some .local_ then none else stored.role else some .local_

/-- `capabilities().edit`. -/
def mayEdit : Option PermissionRole → Bool
  | some .local_ | some .scratch | some .owner | some .editor => true
  | some .commenter | some .viewer | none => false

end LocalJournal

end Marks
