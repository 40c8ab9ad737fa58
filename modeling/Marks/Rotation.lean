import Marks.Runs
import Marks.Authority

/-! # Session rotation

`session_get` checks the cookie, decides in one read whether the secret is due for rotation, writes the new
one in a later transaction and returns it after that. Several requests of one session may be between these
steps at once. A secret's digest is all the row keeps of it. -/

namespace Marks

def rotationOverlapMs : Millis := 60000

def sessionRotateAfterMs : Millis := 24 * 60 * 60 * 1000

/-- What a session row keeps of its secrets. -/
structure SessionSecrets where
  secretHash : Bytes
  prevSecretHash : Option Bytes
  rotatedAtMs : Option Millis
deriving DecidableEq, Repr

/-- A request between its steps, with the time it read from the clock. -/
inductive SessionGet where
  | admitted (now : Millis)
  | rotating (now : Millis)
  | rotated (secret : Bytes) (now : Millis)
  | answered
deriving DecidableEq, Repr

inductive RotationEvent where
  | tick (now : Millis)
  | request (secret : Bytes)
  | decide (request : Nat)
  | commit (request : Nat) (secret : Bytes)
  | respond (request : Nat)
  /-- The session's row is revoked, by logout or with its device. -/
  | revoke
  /-- What other routes change outside the session rows. -/
  | tables (auth : AuthorityTables)

/-- One session. The last three fields are not the server's: the secret the row holds the digest of, those
it superseded and when, and the one last returned to a client. -/
structure Rotation where
  sessionId : SessionId
  auth : AuthorityTables
  secrets : SessionSecrets
  clock : Millis
  requests : List SessionGet
  current : Bytes
  superseded : List (Bytes × Millis)
  returned : Bytes
deriving DecidableEq, Repr

namespace Rotation

variable (hash : Bytes → Bytes) (s : Rotation) (sessionTtlMs : Millis)

def init (sessionId : SessionId) (auth : AuthorityTables) (secret : Bytes) (clock : Millis) : Rotation :=
  ⟨sessionId, auth, ⟨hash secret, none, none⟩, clock, [], secret, [], secret⟩

/-- `cookie_session` with the secret it is presented. -/
def cookieSession (secret : Bytes) (now : Millis) : Option AuthenticatedSession :=
  if hash secret = s.secrets.secretHash then Marks.cookieSession s.auth s.sessionId now
  else
    match s.secrets.prevSecretHash, s.secrets.rotatedAtMs with
    | some previousHash, some rotatedAt =>
      if rotatedAt + rotationOverlapMs ≤ now ∨ previousHash ≠ hash secret then none
      else Marks.cookieSession s.auth s.sessionId now
    | _, _ => none

def unrevoked : Bool := (s.auth.loadSession s.sessionId).any fun row => row.revokedAtMs.isNone

def rotationDue (now : Millis) : Bool :=
  match s.auth.loadSession s.sessionId with
  | some row => sessionRotateAfterMs ≤ now - s.secrets.rotatedAtMs.getD (row.expiresAtMs - sessionTtlMs)
  | none => false

def setRequest (request : Nat) (state : SessionGet) : Rotation :=
  { s with requests := s.requests.set request state }

def checkDue (request : Nat) : Rotation :=
  match s.requests[request]? with
  | some (.admitted now) =>
    s.setRequest request (if s.rotationDue sessionTtlMs now then .rotating now else .answered)
  | _ => s

/-- The row is updated where it is not revoked; the new secret is returned in either case. -/
def commit (request : Nat) (secret : Bytes) : Rotation :=
  match s.requests[request]? with
  | some (.rotating now) =>
    let s := s.setRequest request (.rotated secret now)
    if s.unrevoked then
      { s with
        auth := rotateSession s.auth s.sessionId (now + sessionTtlMs)
        secrets := ⟨hash secret, some s.secrets.secretHash, some now⟩
        current := secret
        superseded := s.superseded ++ [(s.current, now)] }
    else s
  | _ => s

def respond (request : Nat) : Rotation :=
  match s.requests[request]? with
  | some (.rotated secret _) => { s.setRequest request .answered with returned := secret }
  | _ => s

def step : RotationEvent → Rotation
  | .tick now => { s with clock := max s.clock now }
  | .request secret =>
    if (s.cookieSession hash secret s.clock).isSome then
      { s with requests := s.requests ++ [.admitted s.clock] }
    else s
  | .decide request => s.checkDue sessionTtlMs request
  | .commit request secret => s.commit hash sessionTtlMs request secret
  | .respond request => s.respond request
  | .revoke => { s with auth := sessionDelete s.auth s.sessionId s.clock }
  | .tables auth => { s with auth := { auth with sessions := s.auth.sessions } }

def after (events : List RotationEvent) : Rotation :=
  Transition.run (fun s e => step hash s sessionTtlMs e) s events

end Rotation

end Marks
