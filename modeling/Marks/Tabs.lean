import Marks.Session

/-! # The tabs of a document

Every tab that has the document open is a client of its own, over the journal its browser keeps for all of
them. A tab that finds a journal writes at the journal's site; one that finds none asks the server for a
site and waits for it. A tab is admitted again, with its site as a hint, each time it connects. -/

namespace Marks

abbrev BrowserId := Nat
abbrev TabId := Nat

inductive TabState (E : Esbt) where
  | admitting
  | open (page : Session E)
  | closed

structure Tab (E : Esbt) where
  browser : BrowserId
  state : TabState E

inductive TabEvent (E : Esbt) where
  | opens (browser : BrowserId)
  /-- A tab's request for a room session is answered; the ticket's number and secret are the server's. -/
  | admitted (tab : TabId) (caller : Caller) (ticket : TicketId) (secretHash : Bytes) (now : Millis)
  | client (tab : TabId) (event : ClientEvent E)
  /-- A workspace is claimed, with the sites it holds. -/
  | claim (scratchId : ScratchId) (principalId : PrincipalId) (device : DeviceId) (now : Millis)
  /-- Anything else the server's routes change. -/
  | tables (auth : AuthorityTables)

/-- The `room-session` routes. -/
def roomSession (db : AuthorityTables) (caller : Caller) (requested : Option SiteId) (ticket : TicketId)
    (secretHash : Bytes) (now : Millis) : Except ApiError (AuthorityTables × SiteId) :=
  match caller with
  | .principal session => principalRoomSession db session requested ticket secretHash now
  | .scratch scratchId => scratchRoomSession db scratchId requested ticket secretHash now

structure Tabs (E : Esbt) where
  auth : AuthorityTables
  journals : BrowserId → Option ReplicaJournalRecord
  tabs : List (Tab E)
  ids : MutationId
  /-- The operations local changes made, in any tab. -/
  made : List E.Op

namespace Tabs

variable {E : Esbt} (w : Tabs E)

def init (auth : AuthorityTables) : Tabs E := ⟨auth, fun _ => none, [], 0, []⟩

def asClient (browser : BrowserId) (page : Option (Session E)) : Client E :=
  ⟨page.map fun s => { s with ids := w.ids }, w.journals browser, w.ids, [], [], []⟩

/-- Put a client back as the state of a tab. -/
def putClient (browser : BrowserId) (c : Client E) : Tabs E × TabState E :=
  ({ w with
      journals := fun b => if b = browser then c.journal else w.journals b
      ids := c.ids },
    match c.page with
    | some page => .open page
    | none => .closed)

def setTab (t : TabId) (browser : BrowserId) (state : TabState E) : Tabs E :=
  { w with tabs := w.tabs.set t ⟨browser, state⟩ }

/-- The page reads the journal; the site it is opened with counts only where there is none. -/
def opens (browser : BrowserId) : Tabs E :=
  match w.journals browser with
  | none => { w with tabs := w.tabs ++ [⟨browser, .admitting⟩] }
  | some _ =>
    let opened := w.putClient browser ((w.asClient browser none).opens E 0)
    { opened.1 with tabs := w.tabs ++ [⟨browser, opened.2⟩] }

/-- The site of the ticket becomes the page's, or the blank replica's of a tab that waits for one. -/
def admitted (t : TabId) (caller : Caller) (ticket : TicketId) (secretHash : Bytes) (now : Millis) : Tabs E :=
  match w.tabs[t]? with
  | some ⟨browser, .admitting⟩ =>
    match roomSession w.auth caller none ticket secretHash now with
    | .error _ => w
    | .ok (auth, site) =>
      let w : Tabs E := { w with auth }
      let blank : Client E := { w.asClient browser none with journal := none }
      match (blank.opens E site).page with
      | some page => w.setTab t browser (.open page)
      | none => w
  | some ⟨browser, .open page⟩ =>
    match roomSession w.auth caller (some page.marksSiteId) ticket secretHash now with
    | .error _ => w
    | .ok (auth, site) =>
      let page := if page.stopped then page else { page with marksSiteId := site }
      { w with auth }.setTab t browser (.open page)
  | _ => w

/-- The operations a local change makes at a page that still takes one. -/
def makes (page : Session E) : ClientEvent E → List E.Op
  | .edit change =>
    if page.stopped then []
    else
      match E.edit page.doc change with
      | some (_, bytes) => E.carried bytes
      | none => []
  | _ => []

def client (t : TabId) (e : ClientEvent E) : Tabs E :=
  match w.tabs[t]? with
  | some ⟨browser, .open page⟩ =>
    let stepped := w.putClient browser ((w.asClient browser (some page)).step E e)
    { stepped.1.setTab t browser stepped.2 with made := w.made ++ makes page e }
  | _ => w

def step : TabEvent E → Tabs E
  | .opens browser => w.opens browser
  | .admitted t caller ticket secretHash now => w.admitted t caller ticket secretHash now
  | .client t e => w.client t e
  | .claim scratchId principalId device now =>
    match claim w.auth scratchId principalId device now with
    | .ok auth => { w with auth }
    | .error _ => w
  | .tables auth => { w with auth := { auth with sites := w.auth.sites } }

def after (auth : AuthorityTables) (events : List (TabEvent E)) : Tabs E :=
  Transition.run (fun w e => step w e) (init auth) events

end Tabs

end Marks
