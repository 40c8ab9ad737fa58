import Marks.RoomSound

/-! # Group commit

What can be seen of a room that commits its frames in batches, whatever the batches are, and the ledger that a document
would keep if every frame were settled at once. The ledger takes the decisions of the rate limiter as they come and
knows nothing of batches, snapshots or messages on their way out. -/

namespace Marks

/-- What becomes of a frame when it is staged. -/
inductive Verdict
  | committed (id : MessageId) (revision : Nat) (changed : Bool)
  | repeated (id : MessageId) (revision : Nat)
  | refused
deriving DecidableEq, Repr

def CommitRow.undated (row : CommitRow) : CommitRow := { row with committedAt := 0 }

def Output.decision : Output → Option Bool
  | .rate _ allowed => some allowed
  | _ => none

structure FrameBatch where
  frames : List Inbound
  now : Millis

def Inbound.sent (frame : Inbound) : ConnId × Bytes := (frame.conn, frame.data)

def Sends (frames : List (ConnId × Bytes)) (mutation : Mutation) : Prop :=
  ∃ conn payload, (conn, msgMutation :: payload) ∈ frames ∧ decodeMutation payload = some mutation

def sentFrames (batches : List FrameBatch) : List (ConnId × Bytes) :=
  batches.flatMap fun batch => batch.frames.map Inbound.sent

namespace Room

section
variable (env : Env)

def actorOf (room : Room env.engine) (conn : ConnId) : Option RoomActor := (room.socket env conn).map (·.actor)

def decisions {env : Env} (room : Room env.engine) : List Bool := room.out.filterMap Output.decision

/-- Staging a frame adds a commit or an acknowledgement to the batch, or neither. -/
def verdict (before after : Batch) : Verdict :=
  match after.prepared.drop before.prepared.length, after.pendingAcks.drop before.pendingAcks.length with
  | commit :: _, _ => .committed commit.id commit.revision commit.action.changes
  | [], ack :: _ => .repeated ack.id ack.revision
  | [], [] => .refused

def stageVerdicts (db : Database) : List Inbound → Room env.engine × Batch → List Verdict
  | [], _ => []
  | frame :: frames, state =>
    let staged := state.1.stageFrame env db .ok state.2 frame
    verdict state.2 staged.2 :: stageVerdicts db frames staged

def commitFrames (state : Database × Room env.engine) (batch : FrameBatch) : Database × Room env.engine :=
  state.2.frames env state.1 batch.now batch.frames

def commitAll (batches : List FrameBatch) (state : Database × Room env.engine) : Database × Room env.engine :=
  batches.foldl (commitFrames env) state

def allVerdicts : List FrameBatch → Database × Room env.engine → List Verdict
  | [], _ => []
  | batch :: batches, state =>
    stageVerdicts env state.1 batch.frames (state.2, state.2.startBatch env) ++
      allVerdicts batches (commitFrames env state batch)

end

end Room

/-! ## The ledger -/

structure Ledger (E : Engine) where
  document : E.Doc
  revision : Nat
  commits : List CommitRow
  actors : ConnId → Option RoomActor
  publicEdit : Bool
  edits : Nat
  persisted : Bool

namespace Ledger

variable (env : Env) (ledger : Ledger env.engine)

def close (conn : ConnId) : Ledger env.engine × Verdict :=
  ({ ledger with actors := fun other => if other = conn then none else ledger.actors other }, .refused)

def enter (mutation : Mutation) (digest : Bytes) (actor : ActorReceipt) (document : env.engine.Doc) (changed : Bool) :
    Ledger env.engine × Verdict :=
  let revision := if changed then ledger.revision + 1 else ledger.revision
  let counts : Bool := changed && actor.author.kind == .scratch && ledger.publicEdit
  let edits := if counts then ledger.edits + 1 else ledger.edits
  ({ ledger with
      document, revision, edits
      commits := ledger.commits ++ [⟨mutation.id, digest, mutation.kind, revision, actor.author, 0⟩]
      persisted := ledger.persisted || counts && decide (6 < edits) },
    .committed mutation.id revision changed)

/-- A mutation nobody sent before. -/
def apply (conn : ConnId) (mutation : Mutation) (digest : Bytes) (actor : ActorReceipt) : Ledger env.engine × Verdict :=
  match env.engine.decode mutation.payload with
  | some (.update update) =>
    if (env.engine.operations update).all fun operation =>
        operation.origin == actor.site && sequenceFitsStorage operation.seq then
      match env.engine.applyUpdate ledger.document update with
      | none => ledger.close env conn
      | some (document, receipt) => ledger.enter env mutation digest actor document receipt.journalBytes.isSome
    else ledger.close env conn
  | _ => ledger.close env conn

def mutate (conn : ConnId) (encoded : Bytes) : Ledger env.engine × Verdict :=
  match decodeMutation encoded, ledger.actors conn with
  | none, _ => ledger.close env conn
  | some _, none => (ledger, .refused)
  | some mutation, some actor =>
    if !authorizeRoomAction actor .editText then ledger.close env conn
    else if (mutation.kind == .snapshot) != Room.snapshotEnvelope env mutation.payload then ledger.close env conn
    else
      let digest := Room.mutationDigest env mutation
      match ledger.commits.find? (·.messageId == mutation.id) with
      | some row =>
        if row.payloadHash = digest ∧ row.kind = mutation.kind then (ledger, .repeated mutation.id row.revision)
        else ledger.close env conn
      | none => ledger.apply env conn mutation digest (actorReceipt actor)

/-- One frame, with what the rate limiter says to it. -/
def step (allowed : Bool) (conn : ConnId) : Bytes → Ledger env.engine × Verdict
  | [] => (ledger, .refused)
  | tag :: payload =>
    if env.config.maxFrameBytes < (tag :: payload).length then ledger.close env conn
    else if tag = msgMutation then if allowed then ledger.mutate env conn payload else ledger.close env conn
    else if tag = msgEphemeral ∨ tag = msgPresenceDelta then (ledger, .refused)
    else if tag = msgUpdate ∨ tag = msgSnapshot then ledger.close env conn
    else (ledger, .refused)

def rated : Bytes → Bool
  | [] => false
  | tag :: payload => (tag :: payload).length ≤ env.config.maxFrameBytes && tag == msgMutation

def run : List (ConnId × Bytes) → List Bool → Ledger env.engine → Ledger env.engine × List Verdict
  | [], _, ledger => (ledger, [])
  | frame :: frames, decisions, ledger =>
    let next := ledger.step env (decisions.headD false) frame.1 frame.2
    let rest := run frames (if rated env frame.2 then decisions.tail else decisions) next.1
    (rest.1, next.2 :: rest.2)

end Ledger

end Marks
