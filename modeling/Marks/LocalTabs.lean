import Marks.Journal
import Marks.Runs
import Marks.Store

/-! # Tabs without a server

A document without service access, open in any number of tabs of one browser. Each tab has a replica and a pending
list of its own; the tabs share one journal, whose writes are serialized by a lock, and a channel that carries
updates and snapshots between them. A tab commits an edit to the journal: it appends the edit, announces it, and
retires it again with a snapshot of its own replica. -/

namespace Marks

abbrev TabIndex := Nat

/-- What tabs post to each other. -/
inductive TabMessage where
  | hello
  | requestSnapshot
  | update (bytes : Bytes)
  | snapshot (bytes : Bytes)
deriving DecidableEq, Repr

/-- Work in a tab's lane, with what its caller captured. -/
inductive LocalJob where
  | append (fallback : ReplicaJournalRecord) (mutation : JournalMutation) (broadcastTab : Bool)
  | checkpoint (fallback : ReplicaJournalRecord)
  | acknowledge (fallback : ReplicaJournalRecord) (receipt : CommitReceipt)
  /-- The checkpoint before the history is pruned. -/
  | archive (fallback : ReplicaJournalRecord)
deriving DecidableEq, Repr

structure LocalPage (E : Esbt) where
  doc : E.Doc
  marksSiteId : SiteId
  pendingMutations : List JournalMutation
  lastAckedVersion : Option Bytes
  committedRevision : Nat
  localSaved : Bool
  storageFatal : Bool
  destroyed : Bool
  /-- A snapshot is to be sent to the other tabs. -/
  snapshotReply : Bool
  lane : List LocalJob
  /-- The operations of the changes made in this tab. -/
  emitted : List E.Op

namespace LocalPage

section
variable {E : Esbt} (s : LocalPage E)

def stopped : Bool := s.destroyed || s.storageFatal

def enqueue (job : LocalJob) : LocalPage E := { s with lane := s.lane ++ [job] }

def emptyRecord : ReplicaJournalRecord :=
  ⟨s.marksSiteId, [], s.pendingMutations, s.lastAckedVersion, s.committedRevision⟩

def checkpointJournal : LocalPage E := if s.stopped then s else s.enqueue (.checkpoint s.emptyRecord)

def recordStorageError : LocalPage E :=
  if s.storageFatal then s else { s with storageFatal := true, localSaved := false }

def isDurable : Bool := !s.stopped && s.pendingMutations.isEmpty && s.localSaved

def persistAndSendMutation (id : MutationId) (bytes : Bytes) (kind : MutationKind) (broadcastTab : Bool) :
    LocalPage E :=
  if s.stopped ∨ bytes = [] then s
  else
    let mutation : JournalMutation := ⟨id, kind, bytes⟩
    let s := { s with pendingMutations := s.pendingMutations ++ [mutation] }
    s.enqueue (.append s.emptyRecord mutation broadcastTab)

def scheduleTabSnapshot : LocalPage E := if s.stopped then s else { s with snapshotReply := true }

def destroy : LocalPage E := { s.checkpointJournal with destroyed := true, snapshotReply := false }

end

variable (E : Esbt) (s : LocalPage E)

def edit (id : MutationId) (change : E.Edit) : LocalPage E :=
  if s.stopped then s
  else
    match E.edit s.doc change with
    | none => s
    | some (doc, bytes) =>
      { s with doc, localSaved := false, emitted := s.emitted ++ E.carried bytes }.persistAndSendMutation id bytes
        .update true

/-- There is no server version to send what is missing since. -/
def importFromTab (id : MutationId) (bytes : Bytes) (kind : MutationKind) : LocalPage E :=
  if s.stopped ∨ bytes = [] then s
  else
    match E.load s.doc bytes with
    | none => s
    | some doc =>
      match kind with
      | .update => { s with doc }.persistAndSendMutation id bytes .update false
      | .snapshot => { s with doc }

def onMessage (id : MutationId) : TabMessage → LocalPage E
  | .hello => s.scheduleTabSnapshot
  | .requestSnapshot => s.scheduleTabSnapshot
  | .update bytes => s.importFromTab E id bytes .update
  | .snapshot bytes => s.importFromTab E id bytes .snapshot

/-- The reply, where the replica has something to share. -/
def sendSnapshot : LocalPage E × List TabMessage :=
  if !s.snapshotReply then (s, [])
  else
    let replied := { s with snapshotReply := false }
    if s.stopped then (replied, [])
    else
      match E.exportFullSnapshot s.doc with
      | some bytes => (replied, if bytes = [] then [] else [.snapshot bytes])
      | none => (replied, [])

def compactDurableLocalHistory : LocalPage E := if s.stopped then s else s.enqueue (.archive s.emptyRecord)

/-- What a journal job writes. -/
def written (stored : Option ReplicaJournalRecord) : LocalJob → Option ReplicaJournalRecord
  | .append fallback mutation _ => appendPendingMutation stored fallback mutation
  | .checkpoint fallback => (E.exportFullSnapshot s.doc).map (checkpointReplicaJournal stored fallback)
  | .acknowledge fallback receipt =>
    (E.exportFullSnapshot s.doc).map (acknowledgePendingMutation stored fallback receipt)
  | .archive fallback => (E.exportFullSnapshot s.doc).map (checkpointReplicaJournal stored fallback)

/-- The continuation of a job that succeeded, and what it posts. -/
def settled : LocalJob → LocalPage E × List TabMessage
  | .append _ mutation broadcastTab =>
    let s := { s with localSaved := true }
    if s.stopped then (s, [])
    else
      (s.enqueue (.acknowledge s.emptyRecord ⟨mutation.id, 0, E.version s.doc⟩),
        if broadcastTab then
          match mutation.kind with
          | .update => [.update mutation.bytes]
          | .snapshot => [.snapshot mutation.bytes]
        else [])
  | .checkpoint _ => ({ s with localSaved := true }, [])
  | .acknowledge _ receipt =>
    ({ s with
      pendingMutations := s.pendingMutations.filter fun mutation => mutation.id ≠ receipt.id
      localSaved := true }, [])
  | .archive _ =>
    let s := { s with localSaved := true }
    match E.pruneHistoryThrough s.doc (E.version s.doc) with
    | some doc => ({ s with doc }.checkpointJournal, [])
    | none => (s.recordStorageError, [])

def failed : LocalPage E := { s with localSaved := false }.recordStorageError

def importPending (mutation : JournalMutation) : LocalPage E :=
  match E.load s.doc mutation.bytes with
  | some doc => { s with doc }
  | none => s.recordStorageError

def fresh (doc : E.Doc) (site : SiteId) : LocalPage E :=
  ⟨doc, site, [], none, 0, false, false, false, false, [], []⟩

/-- `start`, with what it read from the journal. A snapshot that does not load ends the opening. -/
def start (site : SiteId) : Option ReplicaJournalRecord → LocalPage E × List TabMessage
  | none => ((fresh E (E.create site) site).checkpointJournal, [.hello])
  | some stored =>
    let blank := E.create stored.siteId
    match if stored.snapshot = [] then some blank else E.load blank stored.snapshot with
    | none => ({ fresh E blank stored.siteId with pendingMutations := stored.pending }.destroy, [])
    | some doc =>
      let s := { fresh E doc stored.siteId with
        pendingMutations := stored.pending
        lastAckedVersion := stored.ackedVersion
        committedRevision := stored.committedRevision }
      let s := stored.pending.foldl (importPending E) s
      ({ s with localSaved := true }.checkpointJournal, [.hello])

end LocalPage

/-! ## The browser -/

inductive LocalTabState (E : Esbt) where
  /-- The journal is read, and the replica not made yet. -/
  | starting (stored : Option ReplicaJournalRecord)
  | open (page : LocalPage E)
  | closed

structure LocalTab (E : Esbt) where
  state : LocalTabState E
  /-- Messages on their way to the tab, with their senders. -/
  inbox : List (TabIndex × TabMessage)

inductive LocalTabEvent (E : Esbt) where
  | opens
  /-- The replica is made; `site` is drawn, for a tab that found no journal. -/
  | starts (t : TabIndex) (site : SiteId)
  | edit (t : TabIndex) (change : E.Edit)
  /-- The tab is idle, hidden, or its page is put away. -/
  | checkpoint (t : TabIndex)
  | visible (t : TabIndex)
  | deliver (t sender : TabIndex)
  | reply (t : TabIndex)
  | compact (t : TabIndex)
  /-- The work at the head of the tab's lane settles. -/
  | persist (t : TabIndex) (storage : Storage)
  | close (t : TabIndex)
  | crash (t : TabIndex)

structure LocalTabs (E : Esbt) where
  journal : Option ReplicaJournalRecord
  tabs : List (LocalTab E)
  ids : MutationId

namespace LocalTabs

variable (E : Esbt) (w : LocalTabs E)

def init : LocalTabs E := ⟨none, [], 0⟩

def page? (t : TabIndex) : Option (LocalPage E) :=
  match w.tabs[t]? with
  | some ⟨.open page, _⟩ => some page
  | _ => none

/-- Everybody else on the channel gets the messages. -/
def post (t : TabIndex) (messages : List TabMessage) : LocalTabs E :=
  { w with
    tabs := w.tabs.mapIdx fun i tab =>
      if i = t then tab else { tab with inbox := tab.inbox ++ messages.map fun message => (t, message) } }

def setState (t : TabIndex) (state : LocalTabState E) : LocalTabs E :=
  { w with tabs := w.tabs.modify t fun tab => { tab with state } }

def onPage (t : TabIndex) (f : LocalPage E → LocalPage E × List TabMessage) : LocalTabs E :=
  match w.page? E t with
  | some page =>
    let next := f page
    (w.setState E t (.open next.1)).post E t next.2
  | none => w

def starts (t : TabIndex) (site : SiteId) : LocalTabs E :=
  match w.tabs[t]? with
  | some ⟨.starting stored, _⟩ =>
    let started := LocalPage.start E site stored
    (w.setState E t (.open started.1)).post E t started.2
  | _ => w

/-- The next message of the sender; a tab without a replica lets it go by. -/
def deliver (t sender : TabIndex) : LocalTabs E :=
  match w.tabs[t]? with
  | some tab =>
    match tab.inbox.find? (·.1 == sender) with
    | some (_, message) =>
      let taken : LocalTabs E :=
        { w with
          tabs := w.tabs.modify t fun tab => { tab with inbox := tab.inbox.eraseP (·.1 == sender) }
          ids := w.ids + 1 }
      taken.onPage E t fun page => (page.onMessage E w.ids message, [])
    | none => w
  | none => w

def persist (t : TabIndex) (storage : Storage) : LocalTabs E :=
  match w.page? E t with
  | none => w
  | some page =>
    match page.lane with
    | [] => w
    | job :: lane =>
      let page := { page with lane }
      match if storage = .failed then none else page.written E w.journal job with
      | none => w.setState E t (.open page.failed)
      | some stored =>
        let w : LocalTabs E := { w with journal := some stored }
        if storage = .ok then w.onPage E t fun _ => page.settled E job else w.setState E t (.open page.failed)

def step : LocalTabEvent E → LocalTabs E
  | .opens => { w with tabs := w.tabs ++ [⟨.starting w.journal, []⟩] }
  | .starts t site => w.starts E t site
  | .edit t change => { w with ids := w.ids + 1 }.onPage E t fun page => (page.edit E w.ids change, [])
  | .checkpoint t => w.onPage E t fun page => (page.checkpointJournal, [])
  | .visible t => w.onPage E t fun page => (page, if page.destroyed then [] else [.requestSnapshot])
  | .deliver t sender => w.deliver E t sender
  | .reply t => w.onPage E t fun page => page.sendSnapshot E
  | .compact t => w.onPage E t fun page => (page.compactDurableLocalHistory, [])
  | .persist t storage => w.persist E t storage
  | .close t => w.onPage E t fun page => (page.destroy, [])
  | .crash t => w.setState E t .closed

def after (events : List (LocalTabEvent E)) : LocalTabs E :=
  Transition.run (fun w e => step E w e) (init E) events

end LocalTabs

end Marks
