import Mathlib.Logic.Function.Basic
import Marks.Runs

/-! # The persist lock

Writes of one document are queued in a promise chain of their page, and behind a Web Lock where the browser has
them. A caller waits for a bounded time; work that is still running then cannot be stopped, so its name is poisoned
for the life of the page. A task and the microtasks it leaves behind are one event. -/

namespace Marks

/-- `called`: `runWithTimeout` has been entered, and the job that calls its operation is in the queue. `lapsed`: the
budget was nothing from the start. `locking`: the Web Lock has been asked for. `releasing`: the work under it has
settled, the request for it has not. -/
inductive PersistPhase where
  | called
  | lapsed
  | queued
  | locking
  | running (locked : Bool)
  | releasing
  | settled
deriving DecidableEq, Repr

/-- `prev` is the request whose tail was in the table when this one came to it; `aborted` its signal. -/
structure PersistRequest where
  phase : PersistPhase
  prev : Option Nat
  aborted : Bool
deriving DecidableEq, Repr

/-- What a page keeps under one name. `tail` is the request whose tail stands in the table; `started` are the
requests whose work has been called, in that order. -/
structure PersistLane where
  requests : List PersistRequest
  tail : Option Nat
  poisoned : Bool
  started : List Nat
deriving DecidableEq, Repr

/-- `call` is `withPersistLock` up to its first wait, `enter` the job that puts the work behind the tail, `cleanup` the
tail taken out of the table, `turn` the predecessor's tail resolved, `grant` the Web Lock given and `refuse` its
request rejected, `settle` the promise of the work, either way, `release` that of the request, `expire` the timer
and `poison` the catch of a budget of nothing. -/
inductive PersistEvent where
  | call (lapsed : Bool)
  | poison (request : Nat)
  | enter (request : Nat)
  | cleanup (request : Nat)
  | turn (request : Nat) (webLocks : Bool)
  | grant (request : Nat)
  | refuse (request : Nat)
  | settle (request : Nat)
  | release (request : Nat)
  | expire (request : Nat)
deriving DecidableEq, Repr

namespace PersistLane

def empty : PersistLane := ⟨[], none, false, []⟩

variable (lane : PersistLane)

def phase (request : Nat) : Option PersistPhase := (lane.requests[request]?).map (·.phase)

def prev (request : Nat) : Option Nat := (lane.requests[request]?).bind (·.prev)

def aborted (request : Nat) : Bool := ((lane.requests[request]?).map (·.aborted)).getD false

def Running (request : Nat) : Prop := ∃ locked, lane.phase request = some (.running locked)

def setPhase (request : Nat) (phase : PersistPhase) : PersistLane :=
  { lane with requests := lane.requests.modify request fun r => { r with phase } }

/-- `requireHealthy` and the check of the signal, and then the work. -/
def start (request : Nat) (locked : Bool) : PersistLane :=
  if lane.poisoned ∨ lane.aborted request then lane.setPhase request .settled
  else { lane.setPhase request (.running locked) with started := lane.started ++ [request] }

def call (lapsed : Bool) : PersistLane :=
  if lane.poisoned then lane
  else { lane with requests := lane.requests ++ [⟨if lapsed then .lapsed else .called, none, false⟩] }

/-- `withProcessLock` up to its first wait. -/
def join (request : Nat) : PersistLane :=
  { lane with
    requests := lane.requests.modify request fun r => { r with phase := .queued, prev := lane.tail }
    tail := some request }

/-- Jobs run in the order they were queued. -/
def enter (request : Nat) : PersistLane :=
  if lane.phase request = some .called ∧ ((List.range request).all fun i => lane.phase i != some .called) then
    lane.join request
  else lane

def cleanup (request : Nat) : PersistLane :=
  if lane.tail = some request ∧ lane.phase request = some .settled then { lane with tail := none } else lane

/-- The chain goes on where the predecessor's run has settled, or there was none. -/
def turn (request : Nat) (webLocks : Bool) : PersistLane :=
  if lane.phase request = some .queued ∧ (lane.prev request).all fun p => lane.phase p == some .settled then
    if webLocks then
      if lane.poisoned ∨ lane.aborted request then lane.setPhase request .settled else lane.setPhase request .locking
    else lane.start request false
  else lane

def grant (request : Nat) : PersistLane :=
  if lane.phase request = some .locking then lane.start request true else lane

def refuse (request : Nat) : PersistLane :=
  if lane.phase request = some .locking then lane.setPhase request .settled else lane

def settle (request : Nat) : PersistLane :=
  match lane.phase request with
  | some (.running true) => lane.setPhase request .releasing
  | some (.running false) => lane.setPhase request .settled
  | _ => lane

def release (request : Nat) : PersistLane :=
  if lane.phase request = some .releasing then lane.setPhase request .settled else lane

/-- The signal is aborted, the race is lost, and the name is poisoned before any other task. -/
def abort (request : Nat) : PersistLane :=
  { lane with
    requests := lane.requests.modify request fun r => { r with aborted := true }
    poisoned := true }

/-- The timer is cleared once the run has settled. -/
def expire (request : Nat) : PersistLane :=
  match lane.phase request with
  | none => lane
  | some .lapsed => lane
  | some .settled => lane
  | some _ => lane.abort request

def poison (request : Nat) : PersistLane :=
  if lane.phase request = some .lapsed then { lane with poisoned := true } else lane

def step : PersistEvent → PersistLane
  | .call lapsed => lane.call lapsed
  | .poison request => lane.poison request
  | .enter request => lane.enter request
  | .cleanup request => lane.cleanup request
  | .turn request webLocks => lane.turn request webLocks
  | .grant request => lane.grant request
  | .refuse request => lane.refuse request
  | .settle request => lane.settle request
  | .release request => lane.release request
  | .expire request => lane.expire request

end PersistLane

/-! ## All names of a page -/

abbrev PersistLocks (Name : Type) := Name → PersistLane

namespace PersistLocks

variable {Name : Type} [DecidableEq Name]

def step (locks : PersistLocks Name) (e : Name × PersistEvent) : PersistLocks Name :=
  Function.update locks e.1 ((locks e.1).step e.2)

def after (events : List (Name × PersistEvent)) : PersistLocks Name :=
  Transition.run step (fun _ => .empty) events

end PersistLocks

end Marks
