import Marks.Runs
import Marks.Room

/-! # What the room task changes

Each operation of the room is described once: the helpers that only drop sockets and put messages out
keep the replica, and staging, committing, compacting and control each do one of a few named things. -/

namespace Marks

open List

def Output.quiet : Output → Prop
  | .durable .. => False
  | .sent _ (.committed _) => False
  | _ => True

/-- The frame is the envelope of `mutation`. -/
def Inbound.carries (frame : Inbound) (mutation : Mutation) : Prop :=
  ∃ encoded, frame.data = msgMutation :: encoded ∧ decodeMutation encoded = some mutation

namespace Room

variable {env : Env}

def actors (room : Room env.engine) : List (ConnId × RoomActor) :=
  room.sockets.map fun entry => (entry.1, entry.2.actor)

/-- The replica is untouched; outputs satisfying `P` may have been added, and the room may have died. -/
structure SameReplica (P : Output → Prop) (room room' : Room env.engine) : Prop where
  id : room'.id = room.id
  document : room'.document = room.document
  revision : room'.revision = room.revision
  dead : room.dead.isSome → room'.dead.isSome
  out : ∃ extra, room'.out = room.out ++ extra ∧ ∀ o ∈ extra, P o

structure Keeps (P : Output → Prop) (room room' : Room env.engine) : Prop
    extends SameReplica P room room' where
  epoch : room'.epoch = room.epoch
  nextConn : room'.nextConn = room.nextConn
  actors : room'.actors ⊆ room.actors

variable {P Q : Output → Prop} {room room' room'' : Room env.engine}

theorem SameReplica.refl (room : Room env.engine) : SameReplica P room room where
  id := rfl
  document := rfl
  revision := rfl
  dead := fun h => h
  out := ⟨[], by rw [append_nil], fun _ h => absurd h (not_mem_nil)⟩

theorem SameReplica.trans (h : SameReplica P room room') (h' : SameReplica P room' room'') :
    SameReplica P room room'' where
  id := h'.id.trans h.id
  document := h'.document.trans h.document
  revision := h'.revision.trans h.revision
  dead := fun hd => h'.dead (h.dead hd)
  out := by
    obtain ⟨extra, he, hp⟩ := h.out
    obtain ⟨extra', he', hp'⟩ := h'.out
    refine ⟨extra ++ extra', by rw [he', he, append_assoc], ?_⟩
    intro o ho
    rcases mem_append.mp ho with ho | ho
    · exact hp o ho
    · exact hp' o ho

theorem Keeps.refl (room : Room env.engine) : Keeps P room room where
  toSameReplica := SameReplica.refl room
  epoch := rfl
  nextConn := rfl
  actors := fun _ h => h

theorem Keeps.trans (h : Keeps P room room') (h' : Keeps P room' room'') : Keeps P room room'' where
  toSameReplica := h.toSameReplica.trans h'.toSameReplica
  epoch := h'.epoch.trans h.epoch
  nextConn := h'.nextConn.trans h.nextConn
  actors := fun _ hx => h.actors (h'.actors hx)

/-! ## Sockets and messages -/

theorem removeSocket_keeps (conn : ConnId) : Keeps P room (room.removeSocket env conn) where
  id := rfl
  document := rfl
  revision := rfl
  dead := fun h => h
  out := ⟨[], by simp only [removeSocket, append_nil], fun _ h => absurd h (not_mem_nil)⟩
  epoch := rfl
  nextConn := rfl
  actors := by
    intro x hx
    exact map_subset _ List.filter_sublist.subset hx

variable {conn : ConnId} {message : OutMsg}

theorem trySend_keeps (hp : P (.sent conn message)) :
    Keeps P room (room.trySend env conn message).1 := by
  unfold trySend
  split
  · exact ⟨⟨rfl, rfl, rfl, fun h => h, ⟨[], by simp only [append_nil],
      fun _ h => absurd h (not_mem_nil)⟩⟩, rfl, rfl, fun _ h => h⟩
  refine ⟨⟨rfl, rfl, rfl, fun h => h, ⟨[.sent conn message], rfl, ?_⟩⟩, rfl, rfl, fun _ h => h⟩
  intro o ho
  rw [mem_singleton.mp ho]
  exact hp

theorem foldl_keeps {α : Type*} {f : Room env.engine → α → Room env.engine} {l : List α}
    (hf : ∀ room, ∀ x ∈ l, Keeps P room (f room x)) : Keeps P room (l.foldl f room) :=
  Transition.foldl_rel Keeps.refl Keeps.trans hf room

theorem kill_same (code : CloseCode) (h : SameReplica P room room') :
    SameReplica P room { room' with dead := some code } where
  id := h.id
  document := h.document
  revision := h.revision
  dead := fun _ => rfl
  out := h.out

theorem kill_keeps (code : CloseCode) (h : Keeps P room room') :
    Keeps P room { room' with dead := some code } where
  toSameReplica := kill_same code h.toSameReplica
  epoch := h.epoch
  nextConn := h.nextConn
  actors := h.actors

variable {origin : ConnId}

theorem offer_keeps (hp : ∀ conn, P (.sent conn message))
    (conns evicted : List ConnId) : Keeps P room (offer env origin message conns room evicted).1 := by
  induction conns generalizing room evicted with
  | nil => exact Keeps.refl room
  | cons conn conns ih =>
    unfold offer
    split
    · exact ih evicted
    · exact (trySend_keeps (hp conn)).trans (ih _)

theorem record_keeps {outputs : List Output} (hp : ∀ o ∈ outputs, P o) :
    Keeps P room (room.record env outputs) :=
  ⟨⟨rfl, rfl, rfl, fun h => h, ⟨outputs, rfl, hp⟩⟩, rfl, rfl, fun _ h => h⟩

theorem Keeps.withDocument (h : Keeps P room room') (document : env.engine.Doc) :
    Keeps P { room with document } { room' with document } where
  id := h.id
  document := rfl
  revision := h.revision
  dead := h.dead
  out := h.out
  epoch := h.epoch
  nextConn := h.nextConn
  actors := h.actors

theorem mem_of_socket {socket : Socket} (h : room.socket env conn = some socket) :
    (conn, socket) ∈ room.sockets := by
  obtain ⟨before, rest, hl, -⟩ := lookup_eq_some_iff.mp h
  rw [hl]
  exact mem_append_right _ mem_cons_self

theorem mem_actors_of_socket {socket : Socket}
    (h : room.socket env conn = some socket) : (conn, socket.actor) ∈ room.actors :=
  mem_map.mpr ⟨(conn, socket), mem_of_socket h, rfl⟩

section
variable (hq : ∀ o, o.quiet → P o)
include hq

theorem closeOne_keeps (conn : ConnId) (code : CloseCode) :
    Keeps P room (room.closeOne env conn code) := by
  unfold closeOne
  split
  · exact (removeSocket_keeps conn).trans (trySend_keeps (hq _ trivial))
  · exact Keeps.refl room

theorem closeEach_keeps (conns : List ConnId) (code : CloseCode) :
    Keeps P room (room.closeEach env conns code) :=
  foldl_keeps fun _ conn _ => closeOne_keeps hq conn code

theorem closeAll_keeps (code : CloseCode) : Keeps P room (room.closeAll env code) :=
  closeEach_keeps hq _ code

theorem poison_keeps (code : CloseCode) : Keeps P room (room.poison env code) :=
  kill_keeps code (closeAll_keeps hq code)

theorem broadcast_keeps (hp : ∀ conn, P (.sent conn message)) :
    Keeps P room (room.broadcast env origin message) :=
  (offer_keeps hp _ _).trans (closeEach_keeps hq _ _)

theorem acknowledge_keeps {id : MessageId} {revision : Nat} {version : Bytes}
    (hp : ∀ receipt, receipt.id = id → receipt.revision = revision →
      P (.sent conn (.committed receipt))) :
    Keeps P room (room.acknowledge env conn id revision version) := by
  unfold acknowledge
  cases he : encodeCommitted id revision version with
  | none => exact poison_keeps hq _
  | some receipt =>
    have hr : receipt = ⟨id, revision, version⟩ := by
      unfold encodeCommitted at he
      split at he
      · exact (Option.some.inj he).symm
      · cases he
    have hs : Keeps P room (room.trySend env conn (.committed receipt)).1 :=
      trySend_keeps (hp receipt (by rw [hr]) (by rw [hr]))
    simp only
    split
    · split
      · exact hs
      · exact hs.trans (closeOne_keeps hq _ _)
    · exact Keeps.refl room

theorem acknowledgeAll_keeps {acks : List PendingAck}
    (hp : ∀ ack ∈ acks, ∀ receipt : Committed, receipt.id = ack.id → receipt.revision = ack.revision →
      P (.sent ack.conn (.committed receipt))) :
    Keeps P room (room.acknowledgeAll env acks) :=
  foldl_keeps fun _ ack hmem => acknowledge_keeps hq (hp ack hmem)

theorem announce_keeps {prepared : List PreparedCommit}
    (hp : ∀ commit ∈ prepared, ∀ receipt : Committed, receipt.id = commit.id →
      receipt.revision = commit.revision → P (.sent commit.conn (.committed receipt)))
    (hr : ∀ commit ∈ prepared, ∀ message, commit.relay = some message →
      ∀ conn, P (.sent conn message)) :
    Keeps P room (room.announce env prepared) := by
  refine foldl_keeps fun room commit hmem => ?_
  have ht : Keeps P room (room.acknowledge env commit.conn commit.id commit.revision commit.version) :=
    acknowledge_keeps hq (hp commit hmem)
  cases hm : commit.relay with
  | none => exact ht
  | some message => exact ht.trans (broadcast_keeps hq (hr commit hmem message hm))

theorem clientPresence_keeps (conn : ConnId) (payload : Bytes) :
    Keeps P room (room.clientPresence env conn payload) := by
  unfold clientPresence
  split
  · exact broadcast_keeps hq fun _ => hq _ trivial
  · exact Keeps.refl room

end

/-! ## Staging a frame -/

theorem allowMutation_keeps (now : Millis) (conn : ConnId) (bytes : Nat) :
    Keeps P room (room.allowMutation env now conn bytes).1 := by
  unfold allowMutation
  cases hs : room.socket env conn with
  | none => exact Keeps.refl room
  | some socket =>
    refine ⟨⟨rfl, rfl, rfl, fun h => h, ⟨[], by simp only [setSocket, append_nil],
      fun _ h => absurd h (not_mem_nil)⟩⟩, rfl, rfl, ?_⟩
    intro x hx
    simp only [Room.actors, setSocket, mem_map] at hx ⊢
    obtain ⟨entry, ⟨old, hold, hmap⟩, rfl⟩ := hx
    by_cases hc : old.1 = conn
    · refine ⟨(conn, socket), mem_of_socket hs, ?_⟩
      rw [if_pos hc] at hmap
      rw [← hmap]
      by_cases hw : socket.mutationWindow = now / 1000
      · simp only [hw, ne_eq, not_true_eq_false, if_false]
      · simp only [hw, ne_eq, not_false_eq_true, if_true]
    · exact ⟨old, hold, by rw [← hmap, if_neg hc]⟩

def Repeats (store : DocumentStore) (batch : Batch) (ack : PendingAck) : Prop :=
  (∃ prior ∈ batch.seen, prior.id = ack.id ∧ prior.revision = ack.revision) ∨
    ∃ row ∈ store.commits, row.messageId = ack.id ∧ row.revision = ack.revision

inductive FrameStep (db : Database) (room : Room env.engine) (batch : Batch) (frame : Inbound) :
    Room env.engine → Batch → Prop
  | kept {after} (keeps : Keeps Output.quiet room after) : FrameStep db room batch frame after batch
  | acked {after ack} (keeps : Keeps Output.quiet room after) (again : Repeats db.store batch ack) :
    FrameStep db room batch frame after (pushAck batch ack)
  | poisoned {after document} (keeps : Keeps Output.quiet { room with document } after)
    (dead : after.dead.isSome) : FrameStep db room batch frame after batch
  | pushed {after document actor mutation staged} (alive : room.dead = none)
    (carried : frame.carries mutation)
    (keeps : Keeps Output.quiet { room with document } after)
    (connected : (frame.conn, actor) ∈ room.actors)
    (authorized : authorizeRoomAction actor .editText)
    (unseen : ∀ prior ∈ batch.seen, prior.id ≠ mutation.id)
    (missing : ∀ row ∈ db.store.commits, row.messageId ≠ mutation.id)
    (stages : room.stageMutation env batch (actorReceipt actor).site mutation =
      .staged document staged) :
    FrameStep db room batch frame after (pushCommit batch frame.conn mutation
      (mutationDigest env mutation) (actorReceipt actor) frame.now staged)

theorem stageMutation_congr (h : room'.document = room.document) (batch : Batch) (site : SiteId)
    (mutation : Mutation) :
    room'.stageMutation env batch site mutation = room.stageMutation env batch site mutation := by
  unfold stageMutation stageUpdate stageSnapshot
  rw [h]

variable {mutation : Mutation} {digest : Bytes}

theorem lookupCommit_missing {store : DocumentStore}
    (h : lookupCommit store mutation digest = .missing) :
    ∀ row ∈ store.commits, row.messageId ≠ mutation.id := by
  unfold lookupCommit at h
  cases hf : store.commits.find? (·.messageId == mutation.id) with
  | none =>
    intro row hrow heq
    exact absurd (find?_eq_none.mp hf row hrow) (by simp [heq])
  | some row =>
    rw [hf] at h
    simp only at h
    split at h <;> cases h

theorem lookupCommit_hit {store : DocumentStore}
    {revision : Nat} (h : lookupCommit store mutation digest = .hit revision) :
    ∃ row ∈ store.commits, row.messageId = mutation.id ∧ row.revision = revision := by
  unfold lookupCommit at h
  cases hf : store.commits.find? (·.messageId == mutation.id) with
  | none => rw [hf] at h; cases h
  | some row =>
    rw [hf] at h
    simp only at h
    split at h
    · refine ⟨row, mem_of_find?_eq_some hf, ?_, CommitLookup.hit.inj h⟩
      simpa using find?_some hf
    · cases h

variable {db : Database} {batch : Batch}

theorem prepareMutation_step {storage : Storage} {frame : Inbound}
    {mid : Room env.engine} (hmid : Keeps Output.quiet room mid) (hd : room.dead = none)
    {encoded : Bytes} (hsent : frame.data = msgMutation :: encoded) :
    FrameStep db room batch frame
      (mid.prepareMutation env db storage batch frame.conn frame.now encoded).1
      (mid.prepareMutation env db storage batch frame.conn frame.now encoded).2 := by
  have hclose : ∀ code, FrameStep db room batch frame (mid.closeOne env frame.conn code) batch :=
    fun code => .kept (hmid.trans (closeOne_keeps (fun _ h => h) _ _))
  unfold prepareMutation
  cases hdecode : decodeMutation encoded with
  | none => exact hclose _
  | some mutation =>
    cases hs : mid.socket env frame.conn with
    | none => exact .kept hmid
    | some socket =>
      have hconn : (frame.conn, socket.actor) ∈ room.actors :=
        hmid.actors (mem_actors_of_socket hs)
      simp only
      split
      · exact hclose _
      rename_i hauth
      split
      · exact hclose _
      cases hf : batch.seen.find? (·.id == mutation.id) with
      | some prior =>
        simp only
        split
        · refine .acked hmid (Or.inl ⟨prior, mem_of_find?_eq_some hf, ?_, rfl⟩)
          simpa using find?_some hf
        · exact hclose _
      | none =>
        simp only
        split
        · exact .kept (hmid.trans (poison_keeps (fun _ h => h) _))
        cases hl : lookupCommit db.store mutation (mutationDigest env mutation) with
        | hit revision => exact .acked hmid (Or.inr (lookupCommit_hit hl))
        | conflict => exact hclose _
        | missing =>
          simp only
          cases hst : mid.stageMutation env batch (actorReceipt socket.actor).site mutation with
          | refused => exact hclose _
          | poisoned document =>
            have hkeeps := (hmid.withDocument document).trans
              (poison_keeps (P := Output.quiet) (fun _ h => h) closeInternal)
            exact .poisoned hkeeps rfl
          | staged document staged =>
            refine .pushed hd ⟨encoded, hsent, hdecode⟩ (hmid.withDocument document) hconn (by simpa using hauth) ?_
              (lookupCommit_missing hl) ?_
            · intro prior hprior heq
              exact absurd (find?_eq_none.mp hf prior hprior) (by simp [heq])
            · rw [← hst]
              exact (stageMutation_congr hmid.document _ _ _).symm

theorem stageFrame_step (db : Database) (storage : Storage) (room : Room env.engine) (batch : Batch)
    (frame : Inbound) :
    FrameStep db room batch frame (room.stageFrame env db storage batch frame).1
      (room.stageFrame env db storage batch frame).2 := by
  have hclose : ∀ code, FrameStep db room batch frame (room.closeOne env frame.conn code) batch :=
    fun code => .kept (closeOne_keeps (fun _ h => h) _ _)
  unfold stageFrame
  split
  · exact .kept (Keeps.refl room)
  rename_i hdead
  have hd : room.dead = none := by simpa using hdead
  split
  · exact .kept (Keeps.refl room)
  rename_i tag payload hdata
  split
  · exact hclose _
  split
  · have hrated : Keeps Output.quiet room
        ((room.allowMutation env frame.now frame.conn payload.length).1.record env
          [.rate frame.conn (room.allowMutation env frame.now frame.conn payload.length).2]) :=
      (allowMutation_keeps _ _ _).trans (record_keeps fun o ho => by
        rw [mem_singleton.mp ho]; trivial)
    simp only
    split
    · rename_i htag _
      exact prepareMutation_step hrated hd (by rw [hdata, htag])
    · exact .kept (hrated.trans (closeOne_keeps (fun _ h => h) _ _))
  · split
    · exact .kept (clientPresence_keeps (fun _ h => h) _ _)
    · split
      · exact hclose _
      · exact .kept (Keeps.refl room)

/-! ## Committing, compacting and control -/

def Announces (batch : Batch) (o : Output) : Prop :=
  o.quiet ∨ ∃ conn receipt, o = .sent conn (.committed receipt) ∧
    ((∃ commit ∈ batch.prepared, commit.id = receipt.id ∧ commit.revision = receipt.revision) ∨
      ∃ ack ∈ batch.pendingAcks, ack.id = receipt.id ∧ ack.revision = receipt.revision)

def QuietRelays (batch : Batch) : Prop :=
  ∀ commit ∈ batch.prepared, ∀ message, commit.relay = some message →
    ∀ conn, Output.quiet (.sent conn message)

/-- What `commit_batch` can do to the database and the room. -/
inductive CommitStep (db : Database) (room : Room env.engine) (now : Millis) (batch : Batch) :
    Database → Room env.engine → Prop
  | aborted {after} (keeps : Keeps Output.quiet room after) (dead : after.dead.isSome) :
    CommitStep db room now batch db after
  | lost {after db' compact} (export_ : room.batchSnapshot env batch.nextSinceCompact = some compact)
    (tx : commitTx db room.epoch now batch.prepared compact batch.nextRevision = .ok db')
    (keeps : Keeps Output.quiet (room.recordDurable env true batch.prepared) after)
    (dead : after.dead.isSome) : CommitStep db room now batch db' after
  | done {after db' compact} (export_ : room.batchSnapshot env batch.nextSinceCompact = some compact)
    (tx : commitTx db room.epoch now batch.prepared compact batch.nextRevision = .ok db')
    (keeps : Keeps (Announces batch)
      ((room.recordDurable env true batch.prepared).settle env compact batch) after) :
    CommitStep db room now batch db' after

theorem announceAll_keeps (hr : QuietRelays batch) :
    Keeps (Announces batch) room
      ((room.announce env batch.prepared).acknowledgeAll env batch.pendingAcks) := by
  have hq : ∀ o : Output, o.quiet → Announces batch o := fun _ h => Or.inl h
  refine (announce_keeps hq ?_ ?_).trans (acknowledgeAll_keeps hq ?_)
  · intro commit hc receipt hid hrev
    exact Or.inr ⟨_, _, rfl, Or.inl ⟨commit, hc, hid.symm, hrev.symm⟩⟩
  · intro commit hc message hm conn
    exact Or.inl (hr commit hc message hm conn)
  · intro ack ha receipt hid hrev
    exact Or.inr ⟨_, _, rfl, Or.inr ⟨ack, ha, hid.symm, hrev.symm⟩⟩

theorem commitBatch_step (db : Database) (storage : Storage) (now : Millis) (batch : Batch)
    (hr : QuietRelays batch) :
    CommitStep db room now batch (room.commitBatch env db storage now batch).1
      (room.commitBatch env db storage now batch).2 := by
  unfold commitBatch
  cases hb : room.batchSnapshot env batch.nextSinceCompact with
  | none => exact .aborted (poison_keeps (fun _ h => h) _) rfl
  | some compact =>
    simp only
    cases htx : commitTx db room.epoch now batch.prepared compact batch.nextRevision with
    | error error =>
      cases storage <;> exact .aborted (poison_keeps (fun _ h => h) _) rfl
    | ok db' =>
      cases storage with
      | failed => exact .aborted (poison_keeps (fun _ h => h) _) rfl
      | lost => exact .lost hb htx (poison_keeps (fun _ h => h) _) rfl
      | ok => exact .done hb htx (announceAll_keeps hr)

/-- What the end of `frames` can do. -/
inductive FinishStep (db : Database) (room : Room env.engine) (now : Millis) (batch : Batch) :
    Database → Room env.engine → Prop
  | dead (dead : room.dead.isSome) : FinishStep db room now batch db room
  | acked {after} (alive : room.dead = none) (empty : batch.prepared = [])
    (keeps : Keeps (Announces batch) room after) : FinishStep db room now batch db after
  | committed {db' after} (alive : room.dead = none) (step : CommitStep db room now batch db' after) :
    FinishStep db room now batch db' after

theorem finishFrames_step (room : Room env.engine) (db : Database) (storage : Storage) (now : Millis) (batch : Batch)
    (hr : QuietRelays batch) :
    FinishStep db room now batch (room.finishFrames env db storage now batch).1
      (room.finishFrames env db storage now batch).2 := by
  unfold finishFrames
  split
  · rename_i hd
    exact .dead hd
  rename_i hd
  split
  · rename_i hp
    refine .acked (by simpa using hd) hp (acknowledgeAll_keeps (fun _ h => Or.inl h) ?_)
    intro ack ha receipt hid hrev
    exact Or.inr ⟨_, _, rfl, Or.inr ⟨ack, ha, hid.symm, hrev.symm⟩⟩
  · exact .committed (by simpa using hd) (commitBatch_step db storage now batch hr)

/-- What `compact` can do: skip, or move the snapshot boundary to the room's revision. -/
inductive CompactStep (db : Database) (room : Room env.engine) : Database → Room env.engine → Prop
  | skipped : CompactStep db room db room
  | moved {db' after snapshot} (export_ : env.engine.exportCompactSnapshot room.document = some snapshot)
    (tx : compactTx db snapshot room.revision = .ok db')
    (after_eq : after = room ∨ after = { room with sinceCompact := 0 }.prune env) :
    CompactStep db room db' after

theorem compact_step (room : Room env.engine) (db : Database) (storage : Storage) :
    CompactStep db room (room.compact env db storage).1 (room.compact env db storage).2 := by
  unfold compact
  split
  · exact .skipped
  cases he : env.engine.exportCompactSnapshot room.document with
  | none => exact .skipped
  | some snapshot =>
    simp only
    cases htx : compactTx db snapshot room.revision with
    | error error => cases storage <;> exact .skipped
    | ok db' =>
      cases storage with
      | failed => exact .skipped
      | lost => exact .moved he htx (Or.inl rfl)
      | ok => exact .moved he htx (Or.inr rfl)

theorem CompactStep.fields {db' : Database} {after : Room env.engine}
    (h : CompactStep db room db' after) :
    after.id = room.id ∧ after.revision = room.revision ∧ after.dead = room.dead ∧
      after.out = room.out ∧ after.epoch = room.epoch ∧ after.sockets = room.sockets := by
  cases h with
  | skipped => exact ⟨rfl, rfl, rfl, rfl, rfl, rfl⟩
  | moved export_ tx after_eq =>
    rcases after_eq with h | h
    · rw [h]
      exact ⟨rfl, rfl, rfl, rfl, rfl, rfl⟩
    · rw [h]
      unfold prune
      split <;> exact ⟨rfl, rfl, rfl, rfl, rfl, rfl⟩

inductive ControlStep (db : Database) (room : Room env.engine) : Database → Room env.engine → Prop
  | same {after} (same : SameReplica Output.quiet room after) : ControlStep db room db after
  | compacted {db' mid mid' after} (keeps : Keeps Output.quiet room mid) (alive : mid.dead = none)
    (step : CompactStep db mid db' mid') (keeps' : Keeps Output.quiet mid' after) :
    ControlStep db room db' after

theorem setSocket_same (conn : ConnId) (socket : Socket) :
    SameReplica P room (room.setSocket env conn socket) where
  id := rfl
  document := rfl
  revision := rfl
  dead := fun h => h
  out := ⟨[], by simp only [setSocket, append_nil], fun _ h => absurd h (not_mem_nil)⟩

theorem foldl_same {α : Type*} {f : Room env.engine → α → Room env.engine} {l : List α}
    (hf : ∀ room, ∀ x ∈ l, SameReplica P room (f room x)) : SameReplica P room (l.foldl f room) :=
  Transition.foldl_rel SameReplica.refl SameReplica.trans hf room

theorem reresolveSockets_same (auth : AuthorityTables) (storage : Storage) (now : Millis) :
    SameReplica Output.quiet room (room.reresolveSockets env auth storage now) := by
  unfold reresolveSockets
  split
  · exact kill_same _ (closeAll_keeps (fun _ h => h) _).toSameReplica
  refine foldl_same fun room entry _ => ?_
  unfold applyResolved
  split
  · exact setSocket_same _ _
  · exact SameReplica.refl _
  · exact (closeOne_keeps (fun _ h => h) _ _).toSameReplica

theorem control_step (db : Database) (storage : Storage) (now : Millis) (control : RoomControl) :
    ControlStep db room (room.control env db storage now control).1
      (room.control env db storage now control).2 := by
  cases control with
  | leave conn =>
    simp only [Room.control]
    split
    · rename_i h
      exact .compacted (removeSocket_keeps conn) h.2 (compact_step _ db storage) (Keeps.refl _)
    · exact .same (removeSocket_keeps conn).toSameReplica
  | authority control =>
    cases control with
    | deleted => exact .same (kill_same _ (closeAll_keeps (fun _ h => h) _).toSameReplica)
    | epochChanged epoch =>
      refine .same (SameReplica.trans ?_ (reresolveSockets_same db.auth storage now))
      exact ⟨rfl, rfl, rfl, fun h => h, ⟨[], by simp only [append_nil],
        fun _ h => absurd h (not_mem_nil)⟩⟩
    | sessionRevoked sessionId => exact .same (closeEach_keeps (fun _ h => h) _ _).toSameReplica
    | deviceRevoked deviceId => exact .same (closeEach_keeps (fun _ h => h) _ _).toSameReplica

theorem sendInitial_same {frames : List OutMsg}
    (hq : ∀ message ∈ frames, Output.quiet (.sent conn message)) :
    SameReplica Output.quiet room (sendInitial env conn frames room).1 := by
  induction frames generalizing room with
  | nil => exact SameReplica.refl room
  | cons message messages ih =>
    have hs : SameReplica Output.quiet room (room.trySend env conn message).1 :=
      (trySend_keeps (hq message mem_cons_self)).toSameReplica
    unfold sendInitial
    simp only
    split
    · exact hs.trans (ih fun m hm => hq m (mem_cons_of_mem _ hm))
    · exact hs

theorem initialFrames_quiet {clientVersion : Option Version} {frames : List OutMsg}
    (h : room.initialFrames env clientVersion = some frames) (conn : ConnId) :
    ∀ message ∈ frames, Output.quiet (.sent conn message) := by
  intro message hm
  unfold initialFrames at h
  simp only at h
  split at h
  · rw [← Option.some.inj h] at hm
    simp only [mem_cons, not_mem_nil, or_false] at hm
    rcases hm with rfl | rfl | rfl <;> trivial
  split at h
  · rw [← Option.some.inj h] at hm
    simp only [mem_cons, not_mem_nil, or_false] at hm
    rcases hm with rfl | rfl | rfl <;> trivial
  · cases h

theorem join_same (actor : RoomActor) (clientVersion : Option Version) (now : Millis) :
    SameReplica Output.quiet room (room.join env actor clientVersion now).1 := by
  unfold join
  split
  · exact SameReplica.refl room
  split
  · exact SameReplica.refl room
  split
  · exact SameReplica.refl room
  cases hf : room.initialFrames env clientVersion with
  | none => exact SameReplica.refl room
  | some frames =>
    have hs : SameReplica Output.quiet room (sendInitial env room.nextConn frames room).1 :=
      sendInitial_same (initialFrames_quiet hf room.nextConn)
    simp only
    split
    · exact ⟨hs.id, hs.document, hs.revision, hs.dead, hs.out⟩
    · exact hs

end Room

end Marks
