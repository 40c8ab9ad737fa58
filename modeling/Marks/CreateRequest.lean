import Mathlib.Logic.Function.Basic
import Marks.Json
import Marks.LocalJournal
import Marks.LocalWorkspace

/-! # Requests to create a document

A create action is named by its scope. Its request id lives in a map of the page and, under a digest of the scope, in
session storage, until the server's answer confirms it. Each access to the storage may throw. -/

namespace Marks.CreateRequest

open JsString LocalWorkspace LocalJournal

def maxDocumentUnits : Nat := 1000000
def maxRequestScopeUnits : Nat := maxDocumentUnits + 8192

structure PendingDocumentCreateRequest where
  requestId : JsString
  draft : MaterializedDocumentDraft
deriving DecidableEq, Repr

structure StoredDocumentCreateRequest extends PendingDocumentCreateRequest where
  scope : JsString
deriving DecidableEq, Repr

/-! ## Scopes -/

def decimal (n : Nat) : JsString := ofString (String.ofList (Nat.toDigits 10 n))

def named : JsString := ofString "named" ++ [0]
def template : JsString := ofString "template" ++ [0]
def content : JsString := ofString "content" ++ [0]
def duplicate : JsString := ofString "duplicate" ++ [0]

/-- The scope of a draft that has nothing but its title and its text. -/
def contentScope (draft : MaterializedDocumentDraft) : JsString :=
  let titleIdentity := match draft.title with
    | none => ofString "none"
    | some title => ofString "some:" ++ decimal title.length ++ 58 :: title
  content ++ titleIdentity ++ 0 :: (decimal draft.content.length ++ 58 :: draft.content)

def documentCreateRequestScope (templates : List DocumentTemplate) (draft : LocalDocumentDraft) : JsString :=
  match draft.requestScope.filter (· ≠ []), draft.templateId with
  | some requestScope, _ => named ++ requestScope
  | none, some templateId => template ++ templateId.text
  | none, none =>
    let materialized := materializeDocumentDraft templates draft
    if materialized.title = none ∧ materialized.content = [] then ofString "blank" else contentScope materialized

def documentDuplicateRequestScope (documentId : JsString) : JsString := duplicate ++ documentId

def isContent (scope : JsString) : Bool := (afterPrefix content scope).isSome

def storedScope (scope : JsString) : JsString := if isContent scope then ofString "content" else scope

/-- A scope and the draft it was computed from. -/
structure CreateAction where
  scope : JsString
  draft : MaterializedDocumentDraft
  computed :
    (∃ templates local_, scope = documentCreateRequestScope templates local_ ∧
      draft = materializeDocumentDraft templates local_) ∨
    ∃ documentId, scope = documentDuplicateRequestScope documentId ∧ draft = ⟨none, []⟩

/-! ## Keys -/

def hexPadded (n : UInt32) : List Char :=
  let digits := Nat.toDigits 16 n.toNat
  List.replicate (8 - digits.length) '0' ++ digits

/-- One round of the loop, on both accumulators and the index. -/
def digestUnit (state : UInt32 × UInt32 × Nat) (unit : UInt16) : UInt32 × UInt32 × Nat :=
  ((state.1 ^^^ UInt32.ofNat unit.toNat) * 0x01000193,
    (state.2.1 ^^^ UInt32.ofNat (unit.toNat + state.2.2)) * 0x85ebca6b, state.2.2 + 1)

def requestStorageKey (scope : JsString) : JsString :=
  let digest := scope.foldl digestUnit (0x811c9dc5, 0x9e3779b9, 0)
  ofString "marks:document-create-request:v1:" ++ decimal scope.length ++ 58 ::
    ofString (String.ofList (hexPadded digest.1 ++ hexPadded digest.2.1))

/-! ## Records -/

def isHex (c : UInt16) : Bool := isDigit c || (65 ≤ c && c ≤ 70) || (97 ≤ c && c ≤ 102)

/-- `[89ab]`, in either case. -/
def isVariant (c : UInt16) : Bool := c == 56 || c == 57 || c == 65 || c == 66 || c == 97 || c == 98

/-- `/^[0-9a-f]{8}-[0-9a-f]{4}-4[0-9a-f]{3}-[89ab][0-9a-f]{3}-[0-9a-f]{12}$/iu`. -/
def isUuid (text : JsString) : Bool :=
  text.length == 36 && text.zipIdx.all fun (c, i) =>
    if i == 8 || i == 13 || i == 18 || i == 23 then c == 45
    else if i == 14 then c == 52
    else if i == 19 then isVariant c
    else isHex c

/-- Whether `validateScopeAndDraft` returns. -/
def validScopeAndDraft (scope : JsString) (draft : MaterializedDocumentDraft) : Bool :=
  scope ≠ [] && scope.length ≤ maxRequestScopeUnits && draft.content.length ≤ maxDocumentUnits &&
    draft.title.all fun title => Json.utf8Bytes (codePoints title) ≤ 512

/-- What `JSON.parse` reads in the text of a record: an undefined title is not written. -/
def StoredDocumentCreateRequest.value (stored : StoredDocumentCreateRequest) : JsValue :=
  .object [("scope", .string stored.scope), ("requestId", .string stored.requestId), ("draft",
    .object ((stored.draft.title.map fun title => ("title", JsValue.string title)).toList ++
      [("content", .string stored.draft.content)]))]

/-- A title that is undefined or a string. -/
def titleOf? : JsValue → Option (Option JsString)
  | .undefined => some none
  | .string title => some (some title)
  | _ => none

def parseStoredRequest (raw : Option JsValue) (scope : JsString) : Option StoredDocumentCreateRequest := do
  let value ← raw
  let draft := value.get "draft"
  let stored ← (value.get "scope").text?
  let requestId ← (value.get "requestId").text?
  let content ← (draft.get "content").text?
  let title ← titleOf? (draft.get "title")
  if stored = storedScope scope ∧ isUuid requestId ∧ validScopeAndDraft scope ⟨title, content⟩ then
    some { scope := storedScope scope, requestId, draft := ⟨title, content⟩ }
  else none

/-! ## The page and its storage -/

inductive RequestLog
  | returned (scope : JsString) (request : PendingDocumentCreateRequest)
  | confirmed (scope requestId : JsString)
  | reloaded
deriving DecidableEq, Repr

/-- Session storage by key, the values as they parse, the page's map, and what the calls did, newest first. -/
structure Tab where
  stored : JsString → Option JsValue
  volatilePendingRequests : JsString → Option StoredDocumentCreateRequest
  log : List RequestLog

/-- The storage calls that throw. -/
structure Faults where
  getItem : Bool
  setItem : Bool
  removeItem : Bool
deriving DecidableEq, Repr

namespace Tab

variable (tab : Tab)

def parsed (scope : JsString) : Option StoredDocumentCreateRequest :=
  parseStoredRequest (tab.stored (requestStorageKey scope)) scope

/-- The stored record that answers a call, when it can be read. -/
def persisted (action : CreateAction) : Option StoredDocumentCreateRequest :=
  (tab.parsed action.scope).filter fun record => !isContent action.scope || record.draft = action.draft

def returns (scope : JsString) (request : PendingDocumentCreateRequest) : Tab :=
  { tab with log := .returned scope request :: tab.log }

def create (action : CreateAction) (requestId : JsString) (faults : Faults) : Tab :=
  let created : StoredDocumentCreateRequest :=
    { scope := storedScope action.scope, requestId, draft := action.draft }
  { tab with
    volatilePendingRequests := Function.update tab.volatilePendingRequests action.scope (some created)
    stored := if faults.setItem then tab.stored
      else Function.update tab.stored (requestStorageKey action.scope) (some created.value) }

/-- `requestId` is what `makeId` returns when it is called; a call that throws leaves the page as it is. -/
def pendingDocumentCreateRequest (action : CreateAction) (requestId : JsString) (faults : Faults) : Tab :=
  if !validScopeAndDraft action.scope action.draft then tab
  else
    match if faults.getItem then none else tab.persisted action with
    | some persisted => tab.returns action.scope persisted.toPendingDocumentCreateRequest
    | none =>
      match tab.volatilePendingRequests action.scope with
      | some volatile => tab.returns action.scope volatile.toPendingDocumentCreateRequest
      | none =>
        if !isUuid requestId then tab
        else (tab.create action requestId faults).returns action.scope ⟨requestId, action.draft⟩

def confirmDocumentCreateRequest (scope requestId : JsString) (faults : Faults) : Tab where
  volatilePendingRequests :=
    if (tab.volatilePendingRequests scope).any (·.requestId = requestId) then
      Function.update tab.volatilePendingRequests scope none
    else tab.volatilePendingRequests
  stored :=
    if !faults.getItem && (tab.parsed scope).any (·.requestId = requestId) && !faults.removeItem then
      Function.update tab.stored (requestStorageKey scope) none
    else tab.stored
  log := .confirmed scope requestId :: tab.log

def reload : Tab := { tab with volatilePendingRequests := fun _ => none, log := .reloaded :: tab.log }

end Tab

inductive RequestEvent
  | pending (action : CreateAction) (requestId : JsString) (faults : Faults)
  | confirm (scope requestId : JsString) (faults : Faults)
  | reload

def step (tab : Tab) : RequestEvent → Tab
  | .pending action requestId faults => tab.pendingDocumentCreateRequest action requestId faults
  | .confirm scope requestId faults => tab.confirmDocumentCreateRequest scope requestId faults
  | .reload => tab.reload

/-- A tab that was just opened. -/
def opened : Tab := ⟨fun _ => none, fun _ => none, []⟩

end Marks.CreateRequest
