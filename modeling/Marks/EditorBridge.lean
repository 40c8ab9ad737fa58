import Marks.Strings

/-! # The bridge between the editor and the replica

The editor views of a session, the replica's text, and the two microtask slots through which a view is brought up to
the replica: a reconcile with the text it was scheduled for, and edits that are replayed. The slots are shared by all
views. A user's transaction takes the other way and is handed to the replica in the editor's update. -/

namespace Marks

/-! ## The engine -/

inductive EsbtError
  | allocationExhausted
  | messageTooLarge
  | tooManyOperations
  | identifierTooDeep
  | documentTooLarge
  | other
deriving DecidableEq, Repr

/-- A document of the engine. Whatever changes it answers with the edits its listeners are told; a transaction that
throws is rolled back. -/
structure TextEngine where
  Doc : Type
  Artifact : Type
  text : Doc → JsString
  transact : Doc → List TextEdit → Except EsbtError (Doc × List TextEdit)
  importArtifact : Doc → Artifact → Option (Doc × List TextEdit)
  undo : Doc → Doc × List TextEdit
  redo : Doc → Doc × List TextEdit

/-- A transaction applies its edits, and listeners are told edits that lead from the old text to the new one. -/
structure TextEngine.Lawful (E : TextEngine) : Prop where
  transact : ∀ {doc later : E.Doc} {ops edits : List TextEdit}, E.transact doc ops = .ok (later, edits) →
    applyTextEdits (E.text doc) ops = some (E.text later) ∧ applyTextEdits (E.text doc) edits = some (E.text later)
  importArtifact : ∀ {doc later : E.Doc} {artifact : E.Artifact} {edits : List TextEdit},
    E.importArtifact doc artifact = some (later, edits) → applyTextEdits (E.text doc) edits = some (E.text later)
  undo : ∀ doc : E.Doc, applyTextEdits (E.text doc) (E.undo doc).2 = some (E.text (E.undo doc).1)
  redo : ∀ doc : E.Doc, applyTextEdits (E.text doc) (E.redo doc).2 = some (E.text (E.redo doc).1)

/-! ## Changes -/

/-- A change of an editor transaction, in the coordinates of the text before the transaction. -/
structure EditorChange where
  fromA : Nat
  toA : Nat
  inserted : JsString
deriving DecidableEq, Repr

def ChangesFit (length : Nat) : Nat → List EditorChange → Prop
  | pos, [] => pos ≤ length
  | pos, change :: changes => pos ≤ change.fromA ∧ change.fromA ≤ change.toA ∧ ChangesFit length change.toA changes

instance decidableChangesFit (length : Nat) : ∀ pos changes, Decidable (ChangesFit length pos changes)
  | _, [] => inferInstanceAs (Decidable (_ ≤ _))
  | _, change :: changes =>
    @instDecidableAnd _ _ _ (@instDecidableAnd _ _ _ (decidableChangesFit length change.toA changes))

def changed (text : JsString) : Nat → List EditorChange → JsString
  | pos, [] => text.drop pos
  | pos, change :: changes => text.slice pos change.fromA ++ change.inserted ++ changed text change.toA changes

def editorChunkUnits : Nat := 4096

def replacement (start stop : Int) (insert : JsString) : List TextEdit :=
  (if start < stop then [⟨start, stop, []⟩] else []) ++ (if insert ≠ [] then [⟨start, start, insert⟩] else [])

/-- The calls that the editor's update makes for the changes of a transaction. -/
def adjusted : Int → List EditorChange → List TextEdit
  | _, [] => []
  | adjust, change :: changes =>
    replacement (change.fromA + adjust) (change.toA + adjust) change.inserted ++
      adjusted (adjust + (change.inserted.length - (change.toA - change.fromA))) changes

/-- The counts in which a long range is deleted; its length is fuel enough. -/
def deleteCounts : Nat → Nat → List Nat
  | 0, _ => []
  | fuel + 1, remaining =>
    if remaining = 0 then []
    else min remaining editorChunkUnits :: deleteCounts fuel (remaining - min remaining editorChunkUnits)

/-- The chunks in which a long text is inserted, each with its offset. -/
def insertChunks (insert : JsString) : Nat → Nat → List (Nat × JsString)
  | 0, _ => []
  | fuel + 1, offset =>
    if insert.length ≤ offset then []
    else (offset, insert.slice offset (offset + editorChunkUnits)) ::
      insertChunks insert fuel (offset + editorChunkUnits)

/-- The transactions of a replacement. -/
def replaceRangeChunked (start stop : Int) (insert : JsString) : List (List TextEdit) :=
  if stop - start + insert.length ≤ editorChunkUnits then [replacement start stop insert]
  else
    (deleteCounts (stop - start).toNat (stop - start).toNat).map (fun count => [⟨start, start + count, []⟩]) ++
      (insertChunks insert insert.length 0).map (fun (offset, chunk) => [⟨start + offset, start + offset, chunk⟩])

def inHalves (changes : List EditorChange) : List (List TextEdit) :=
  changes.flatMap fun change => replaceRangeChunked change.fromA change.toA change.inserted

/-! ## State -/

/-- A view whose plugin is disposed stays an editor, but it is no longer mounted in the session. -/
structure EditorView where
  id : Nat
  text : JsString
  disposed : Bool
  ready : Bool
deriving DecidableEq, Repr

structure ReconcileTarget where
  view : Nat
  text : JsString
deriving DecidableEq, Repr

structure EditorPatchTarget where
  view : Nat
  edits : List TextEdit
deriving DecidableEq, Repr

inductive Microtask
  | mount (view : Nat)
  | reconcile
  | patch
deriving DecidableEq, Repr

/-- The views stand in the order in which their listeners are called. -/
structure EditorBridge (E : TextEngine) where
  doc : E.Doc
  views : List EditorView
  nextView : Nat
  edit : Bool
  destroyed : Bool
  reconcileQueued : Bool
  reconcileTarget : Option ReconcileTarget
  editorPatchQueued : Bool
  editorPatchTarget : Option EditorPatchTarget
  microtasks : List Microtask

inductive EditorOrigin
  | editor
  | session
  | imported
  | undo
  | redo
deriving DecidableEq, Repr

inductive BridgeEvent (E : TextEngine)
  | mount (text : JsString)
  | ready (view : Nat)
  | unmount (view : Nat)
  | transaction (view : Nat) (changes : List EditorChange)
  | importRemote (artifact : E.Artifact)
  | undo
  | redo
  | setText (markdown : JsString)
  | replaceRange (start stop : Int) (insert : JsString)
  | microtask
  | permit (edit : Bool)
  | terminate

namespace EditorBridge

variable {E : TextEngine}

def opened (doc : E.Doc) (edit : Bool) : EditorBridge E := ⟨doc, [], 0, edit, false, false, none, false, none, []⟩

section
variable (bridge : EditorBridge E)

def text : JsString := E.text bridge.doc

def view? (view : Nat) : Option EditorView := bridge.views.find? (·.id == view)

def mounted : List EditorView := bridge.views.filter (!·.disposed)

def showText (view : Nat) (text : JsString) : EditorBridge E :=
  { bridge with views := bridge.views.map fun found => if found.id = view then { found with text } else found }

def dispose (view : Nat) : EditorBridge E :=
  { bridge with
    views := bridge.views.map fun found => if found.id = view then { found with disposed := true } else found }

/-! ## The slots -/

def scheduleReconcile (view : Nat) : EditorBridge E :=
  let target : Option ReconcileTarget := some ⟨view, bridge.text⟩
  if bridge.reconcileQueued then { bridge with reconcileTarget := target }
  else { bridge with
    reconcileTarget := target
    reconcileQueued := true
    microtasks := bridge.microtasks ++ [.reconcile] }

/-- The edits that wait for a view. -/
def pendingEdits (view : Nat) : List TextEdit :=
  match bridge.editorPatchTarget with
  | some target => if target.view = view then target.edits else []
  | none => []

def scheduleEditorPatch (view : Nat) (edits : List TextEdit) : EditorBridge E :=
  if edits = [] then bridge
  else
    let target : Option EditorPatchTarget := some ⟨view, bridge.pendingEdits view ++ edits⟩
    if bridge.editorPatchQueued then { bridge with editorPatchTarget := target }
    else { bridge with
      editorPatchTarget := target
      editorPatchQueued := true
      microtasks := bridge.microtasks ++ [.patch] }

def emitChange (origin : EditorOrigin) (edits : List TextEdit) : EditorBridge E :=
  if edits = [] ∨ origin = .editor then bridge
  else bridge.mounted.foldl (fun bridge view => bridge.scheduleEditorPatch view.id edits) bridge

def advance (origin : EditorOrigin) (doc : E.Doc) (edits : List TextEdit) : EditorBridge E :=
  { bridge with doc }.emitChange origin edits

end

/-- Transactions one after another, until one throws. -/
def transacts (origin : EditorOrigin) : List (List TextEdit) → EditorBridge E → EditorBridge E × Option EsbtError
  | [], bridge => (bridge, none)
  | ops :: rest, bridge =>
    match E.transact bridge.doc ops with
    | .ok (doc, edits) => transacts origin rest (bridge.advance origin doc edits)
    | .error error => (bridge, some error)

/-! ## Views -/

def commonStart : JsString → JsString → Nat
  | c :: current, d :: target => if c = d then commonStart current target + 1 else 0
  | _, _ => 0

/-- What the view shows after the change that `reconcile` dispatches. -/
def reconciled (current target : JsString) : JsString :=
  if current = target then current
  else
    let start := commonStart current target
    let shared := commonStart (current.drop start).reverse (target.drop start).reverse
    current.take start ++ target.slice start (target.length - shared) ++ current.drop (current.length - shared)

section
variable (bridge : EditorBridge E)

def attach (view : Nat) : EditorBridge E := bridge.scheduleReconcile view

def addView (text : JsString) : EditorBridge E :=
  { bridge with
    views := bridge.views ++ [⟨bridge.nextView, text, false, true⟩]
    nextView := bridge.nextView + 1
    microtasks := bridge.microtasks ++ [.mount bridge.nextView] }

def mount (text : JsString) : EditorBridge E := (bridge.addView text).attach bridge.nextView

def relisten (found : EditorView) : EditorBridge E :=
  { bridge with views := bridge.views.filter (·.id ≠ found.id) ++ [{ found with ready := false }] }

/-- The interval's turn. -/
def becomeReady (view : Nat) : EditorBridge E :=
  match bridge.view? view with
  | some found => if found.disposed ∨ !found.ready then bridge else (bridge.relisten found).attach view
  | none => bridge

def reconcile (view : Nat) (target : JsString) : EditorBridge E :=
  match bridge.view? view with
  | some found => bridge.showText view (reconciled found.text target)
  | none => bridge

end

/-- The edits are dispatched one after another; one that does not fit is given up for a reconcile. -/
def replay (view : Nat) : List TextEdit → EditorBridge E → EditorBridge E
  | [], bridge => bridge
  | edit :: edits, bridge =>
    match bridge.view? view with
    | some found =>
      if edit.to_ < edit.from_ ∨ found.text.length < edit.to_ then bridge.scheduleReconcile view
      else replay view edits (bridge.showText view
        (found.text.take edit.from_.toNat ++ edit.insert ++ found.text.drop edit.to_.toNat))
    | none => bridge

section
variable (bridge : EditorBridge E)

def applyChangesInHalves (view : Nat) (changes : List EditorChange) : EditorBridge E :=
  match transacts .editor (inHalves changes) bridge with
  | (bridge, none) => bridge
  | (bridge, some _) => bridge.scheduleReconcile view

/-- The editor disposes of a plugin whose update throws. -/
def update (view : Nat) (changes : List EditorChange) : EditorBridge E :=
  match E.transact bridge.doc (adjusted 0 changes) with
  | .ok (doc, edits) => bridge.advance .editor doc edits
  | .error .messageTooLarge | .error .tooManyOperations => bridge.applyChangesInHalves view changes
  | .error .allocationExhausted | .error .identifierTooDeep | .error .documentTooLarge =>
    bridge.scheduleReconcile view
  | .error .other => bridge.dispose view

def canEdit : Bool := bridge.edit && !bridge.destroyed

/-- A transaction the filter lets through, with its update. -/
def transaction (view : Nat) (changes : List EditorChange) : EditorBridge E :=
  match bridge.view? view with
  | some found =>
    if found.disposed ∨ !bridge.canEdit ∨ changes = [] ∨ ¬ChangesFit found.text.length 0 changes then bridge
    else (bridge.showText view (changed found.text 0 changes)).update view changes
  | none => bridge

def importRemote (artifact : E.Artifact) : EditorBridge E :=
  if bridge.destroyed then bridge
  else
    match E.importArtifact bridge.doc artifact with
    | some (doc, edits) => bridge.advance .imported doc edits
    | none => bridge

def undo : EditorBridge E :=
  if bridge.canEdit then bridge.advance .undo (E.undo bridge.doc).1 (E.undo bridge.doc).2 else bridge

def redo : EditorBridge E :=
  if bridge.canEdit then bridge.advance .redo (E.redo bridge.doc).1 (E.redo bridge.doc).2 else bridge

def setText (markdown : JsString) : EditorBridge E :=
  if bridge.canEdit then (transacts .imported [[⟨0, bridge.text.length, markdown⟩]] bridge).1 else bridge

def replaceRange (start stop : Int) (insert : JsString) : EditorBridge E :=
  if bridge.canEdit then (transacts .session (replaceRangeChunked start stop insert) bridge).1 else bridge

/-- The head of the queue runs. -/
def runMicrotask : EditorBridge E :=
  match bridge.microtasks with
  | [] => bridge
  | .mount view :: rest =>
    let bridge := { bridge with microtasks := rest }
    if bridge.mounted.any (·.id == view) then bridge.scheduleReconcile view else bridge
  | .reconcile :: rest =>
    let taken := { bridge with microtasks := rest, reconcileQueued := false, reconcileTarget := none }
    match bridge.reconcileTarget with
    | some target => if bridge.destroyed then taken else taken.reconcile target.view target.text
    | none => taken
  | .patch :: rest =>
    let taken := { bridge with microtasks := rest, editorPatchQueued := false, editorPatchTarget := none }
    match bridge.editorPatchTarget with
    | some target => if bridge.destroyed then taken else replay target.view target.edits taken
    | none => taken

def step : BridgeEvent E → EditorBridge E
  | .mount text => bridge.mount text
  | .ready view => bridge.becomeReady view
  | .unmount view => bridge.dispose view
  | .transaction view changes => bridge.transaction view changes
  | .importRemote artifact => bridge.importRemote artifact
  | .undo => bridge.undo
  | .redo => bridge.redo
  | .setText markdown => bridge.setText markdown
  | .replaceRange start stop insert => bridge.replaceRange start stop insert
  | .microtask => bridge.runMicrotask
  | .permit edit => { bridge with edit }
  | .terminate => { bridge with destroyed := true, edit := false }

end

end EditorBridge

end Marks
