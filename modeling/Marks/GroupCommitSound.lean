import Marks.GroupCommit
import Marks.ReplicaSound

/-! # A batch is staged

The store with the open batch on top of it is a ledger. Staging a frame keeps it so, and the frame meets the verdict
that the ledger gives it, as long as the room stays alive and its messages go out. -/

namespace Marks

open Room DocumentStore List

variable {env : Env}

variable {conn : ConnId} {id : MessageId}

namespace Room

/-! ## Messages on their way out -/

structure Calm (room room' : Room env.engine) : Prop where
  document : room'.document = room.document
  revision : room'.revision = room.revision
  decisions : room'.decisions = room.decisions
  actors : ∀ conn actor, room'.actorOf env conn = some actor → room.actorOf env conn = some actor

variable {room room' room'' : Room env.engine}

theorem Calm.refl (room : Room env.engine) : Calm room room := ⟨rfl, rfl, rfl, fun _ _ h => h⟩

theorem Calm.trans (h : Calm room room') (h' : Calm room' room'') : Calm room room'' where
  document := h'.document.trans h.document
  revision := h'.revision.trans h.revision
  decisions := h'.decisions.trans h.decisions
  actors := fun conn actor ha => h.actors conn actor (h'.actors conn actor ha)

theorem foldl_calm {α : Type*} {f : Room env.engine → α → Room env.engine} {l : List α}
    (hf : ∀ room, ∀ x ∈ l, Calm room (f room x)) : Calm room (l.foldl f room) :=
  Transition.foldl_rel Calm.refl Calm.trans hf room

theorem decisions_record {outputs : List Output} :
    (room.record env outputs).decisions = room.decisions ++ outputs.filterMap Output.decision :=
  filterMap_append

theorem trySend_calm (conn : ConnId) (message : OutMsg) : Calm room (room.trySend env conn message).1 := by
  unfold trySend
  split
  · exact ⟨rfl, rfl, rfl, fun _ _ h => h⟩
  refine ⟨rfl, rfl, ?_, fun _ _ h => h⟩
  show List.filterMap _ (room.out ++ _) = _
  rw [filterMap_append]
  exact append_nil _

theorem actorOf_trySend (conn other : ConnId) (message : OutMsg) :
    (room.trySend env conn message).1.actorOf env other = room.actorOf env other := by
  unfold trySend
  split <;> rfl

theorem lookup_remove {α : Type} (l : List (ConnId × α)) (conn other : ConnId) :
    (l.filter fun entry => decide (entry.1 ≠ conn)).lookup other = if other = conn then none else l.lookup other := by
  induction l with
  | nil => simp
  | cons entry l ih =>
    rw [filter_cons]
    by_cases hentry : entry.1 = conn
    · rw [if_neg (by simp [hentry]), ih, List.lookup_cons]
      by_cases hother : other = conn
      · simp [hother]
      have hne : (other == entry.1) = false := by
        rw [hentry]
        exact beq_false_of_ne hother
      rw [hne]
    · rw [if_pos (by simp [hentry]), List.lookup_cons, List.lookup_cons, ih]
      by_cases hother : other = conn
      · have hne : (other == entry.1) = false := by
          rw [hother]
          exact beq_false_of_ne (Ne.symm hentry)
        simp only [hne, if_pos hother]
      · simp [hother]

theorem lookup_replace {α : Type} (l : List (ConnId × α)) (conn other : ConnId) (a : α) :
    (l.map fun entry => if entry.1 = conn then (conn, a) else entry).lookup other =
      if other = conn then (l.lookup conn).map fun _ => a else l.lookup other := by
  induction l with
  | nil => simp
  | cons entry l ih =>
    rw [map_cons, List.lookup_cons, ih, List.lookup_cons, List.lookup_cons]
    by_cases hentry : entry.1 = conn
    · by_cases hother : other = conn
      · simp [hentry, hother]
      · have hne : (other == conn) = false := beq_false_of_ne hother
        simp [hentry, hother, hne]
    · have hne : (conn == entry.1) = false := beq_false_of_ne (Ne.symm hentry)
      by_cases hother : other = conn
      · simp [hentry, hother, hne]
      · simp [hentry, hother]

theorem actorOf_closeOne (conn other : ConnId) (code : CloseCode) : (room.closeOne env conn code).actorOf env other =
    if other = conn then none else room.actorOf env other := by
  unfold closeOne
  split
  · rw [actorOf_trySend]
    unfold Room.actorOf Room.socket removeSocket
    dsimp only
    rw [lookup_remove]
    split <;> rfl
  · rename_i hnone
    split
    · rename_i hother
      unfold Room.actorOf
      rw [hother, Option.not_isSome_iff_eq_none.mp hnone]
      rfl
    · rfl

theorem closeOne_calm (conn : ConnId) (code : CloseCode) : Calm room (room.closeOne env conn code) := by
  have hactors : ∀ other actor, (room.closeOne env conn code).actorOf env other = some actor →
      room.actorOf env other = some actor := by
    intro other actor ha
    rw [actorOf_closeOne] at ha
    split at ha
    · cases ha
    · exact ha
  unfold closeOne at hactors ⊢
  split
  · rename_i hsome
    rw [if_pos hsome] at hactors
    have hsent : Calm (room.removeSocket env conn) ((room.removeSocket env conn).trySend env conn (.close code)).1 :=
      trySend_calm conn (.close code)
    exact ⟨hsent.document, hsent.revision, hsent.decisions, hactors⟩
  · exact Calm.refl room

theorem closeEach_calm (conns : List ConnId) (code : CloseCode) : Calm room (room.closeEach env conns code) :=
  foldl_calm fun _ conn _ => closeOne_calm conn code

theorem poison_calm (code : CloseCode) : Calm room (room.poison env code) := by
  have hclosed : Calm room (room.closeAll env code) := closeEach_calm _ code
  exact ⟨hclosed.document, hclosed.revision, hclosed.decisions, hclosed.actors⟩

theorem offer_calm (origin : ConnId) (message : OutMsg) (conns evicted : List ConnId) :
    Calm room (offer env origin message conns room evicted).1 := by
  induction conns generalizing room evicted with
  | nil => exact Calm.refl room
  | cons conn conns ih =>
    unfold offer
    split
    · exact ih evicted
    · exact (trySend_calm conn message).trans (ih _)

theorem broadcast_calm {origin : ConnId} {message : OutMsg} : Calm room (room.broadcast env origin message) :=
  (offer_calm origin message _ _).trans (closeEach_calm _ _)

theorem clientPresence_calm (conn : ConnId) (payload : Bytes) : Calm room (room.clientPresence env conn payload) := by
  unfold clientPresence
  split
  · exact broadcast_calm
  · exact Calm.refl room

theorem acknowledge_calm {revision : Nat} {version : Bytes} :
    Calm room (room.acknowledge env conn id revision version) := by
  unfold acknowledge
  split
  · exact poison_calm _
  split
  · dsimp only
    split
    · exact trySend_calm _ _
    · exact (trySend_calm _ _).trans (closeOne_calm _ _)
  · exact Calm.refl room

theorem acknowledgeAll_calm {acks : List PendingAck} : Calm room (room.acknowledgeAll env acks) :=
  foldl_calm fun _ _ _ => acknowledge_calm

theorem announce_calm {prepared : List PreparedCommit} : Calm room (room.announce env prepared) := by
  refine foldl_calm fun room commit _ => ?_
  split
  · exact acknowledge_calm.trans broadcast_calm
  · exact acknowledge_calm

theorem recordDurable_calm (room : Room env.engine) (durable : Bool) (prepared : List PreparedCommit) :
    Calm room (room.recordDurable env durable prepared) := by
  unfold recordDurable
  split
  · refine ⟨rfl, rfl, ?_, fun _ _ h => h⟩
    have hnone : (prepared.map fun commit => Output.durable commit.row commit.action.changes).filterMap
        Output.decision = [] := by
      rw [filterMap_eq_nil_iff]
      intro output houtput
      obtain ⟨commit, -, rfl⟩ := mem_map.mp houtput
      rfl
    rw [decisions_record, hnone, append_nil]
  · exact Calm.refl room

theorem allowMutation_calm (room : Room env.engine) (now : Millis) (conn : ConnId) (bytes : Nat) :
    Calm room (room.allowMutation env now conn bytes).1 ∧ ((room.allowMutation env now conn bytes).2 = true →
      ∃ socket, (room.allowMutation env now conn bytes).1.socket env conn = some socket) := by
  unfold allowMutation
  cases hs : room.socket env conn with
  | none => exact ⟨Calm.refl room, fun h => (by cases h)⟩
  | some socket =>
    have hlookup : room.sockets.lookup conn = some socket := hs
    refine ⟨⟨rfl, rfl, rfl, fun other actor ha => ?_⟩, fun _ => ?_⟩
    · unfold Room.actorOf Room.socket at ha ⊢
      unfold setSocket at ha
      dsimp only at ha
      rw [lookup_replace] at ha
      split at ha
      · rename_i hother
        rw [hlookup] at ha
        rw [hother, hlookup, ← ha]
        split <;> rfl
      · exact ha
    · unfold Room.socket setSocket
      dsimp only
      rw [lookup_replace, if_pos rfl, hlookup]
      exact ⟨_, rfl⟩

end Room

/-! ## What the ledger is to a room -/

def pendingEdits (publicEdit : Bool) (prepared : List PreparedCommit) : Nat :=
  if publicEdit then (prepared.filter isAnonymousEdit).length else 0

def PreparedCommit.seen (commit : PreparedCommit) : SeenMutation :=
  ⟨commit.id, commit.kind, commit.digest, commit.revision, commit.version⟩

/-- A receipt that outlives every compaction up to revision `bound`. -/
def Recent (bound : Nat) (row : CommitRow) : Prop := bound ≤ row.revision + idempotencyReceiptWindow

instance (bound : Nat) (row : CommitRow) : Decidable (Recent bound row) :=
  inferInstanceAs (Decidable (bound ≤ row.revision + idempotencyReceiptWindow))

/-- The store with the open batch on top of it is the ledger, which holds the recent receipts only; of the messages
that may still come (`ids`) no receipt is older. -/
structure InLedger {κ : Type} (content : env.engine.Doc → κ) (bound : Nat) (ids : MessageId → Prop) (db : Database)
    (state : Room env.engine × Batch) (ledger : Ledger env.engine) : Prop where
  document : content state.1.document = content ledger.document
  revision : state.2.nextRevision = ledger.revision
  commits : (db.store.commits.filter (decide <| Recent bound ·) ++ state.2.prepared.map (·.row)).map CommitRow.undated =
    ledger.commits
  known : ∀ row ∈ db.store.commits, ids row.messageId → Recent bound row
  fresh : ∀ row ∈ db.store.commits, ∀ commit ∈ state.2.prepared, row.messageId ≠ commit.id
  seen : state.2.seen = state.2.prepared.map PreparedCommit.seen
  actors : ∀ conn actor, state.1.actorOf env conn = some actor → ledger.actors conn = some actor
  publicEdit : db.auth.document.publicEdit = ledger.publicEdit
  edits : db.store.anonymousEditCount + pendingEdits ledger.publicEdit state.2.prepared = ledger.edits
  persisted : (db.store.persistedAt.isSome || 0 < pendingEdits ledger.publicEdit state.2.prepared &&
    decide (6 < ledger.edits)) = ledger.persisted

section
variable {κ : Type} {content : env.engine.Doc → κ} {bound : Nat} {ids : MessageId → Prop} {db : Database}
  {room room' : Room env.engine} {batch : Batch} {ledger : Ledger env.engine}

section

variable (h : InLedger content bound ids db (room, batch) ledger)
include h

theorem InLedger.calm (hcalm : Calm room room') :
    InLedger content bound ids db (room', batch) ledger :=
  { h with
    document := by
      have hdocument := h.document
      dsimp only at hdocument ⊢
      rw [hcalm.document, hdocument]
    actors := fun conn actor ha => h.actors conn actor (hcalm.actors conn actor ha) }

theorem InLedger.acked (ack : PendingAck) :
    InLedger content bound ids db (room, pushAck batch ack) ledger :=
  ⟨h.document, h.revision, h.commits, h.known, h.fresh, h.seen, h.actors, h.publicEdit, h.edits, h.persisted⟩

theorem InLedger.closed (conn : ConnId) (code : CloseCode) :
    InLedger content bound ids db (room.closeOne env conn code, batch) (ledger.close env conn).1 :=
  { h.calm (closeOne_calm conn code) with
    actors := by
      intro other actor ha
      dsimp only at ha
      rw [actorOf_closeOne] at ha
      unfold Ledger.close
      dsimp only
      split at ha
      · cases ha
      · rename_i hother
        rw [if_neg hother]
        exact h.actors other actor ha }

end

theorem find_filter {α : Type} {l : List α} {p q : α → Bool} (h : ∀ x ∈ l, q x = true → p x = true) :
    (l.filter p).find? q = l.find? q := by
  induction l with
  | nil => rfl
  | cons x l ih =>
    obtain ⟨hx, hl⟩ := forall_mem_cons.mp h
    rw [filter_cons, find?_cons]
    cases hq : q x with
    | true =>
      rw [if_pos (hx hq), find?_cons_of_pos hq]
    | false =>
      split
      · rw [find?_cons_of_neg (by rw [hq]; exact Bool.false_ne_true)]
        exact ih hl
      · exact ih hl

theorem InLedger.find_seen (h : InLedger content bound ids db (room, batch) ledger) {prior : SeenMutation}
    (hfound : batch.seen.find? (·.id == id) = some prior) :
    ∃ row, ledger.commits.find? (·.messageId == id) = some row ∧ row.payloadHash = prior.digest ∧
      row.kind = prior.kind ∧ row.revision = prior.revision := by
  have hseen := h.seen
  dsimp only at hseen
  rw [hseen, find?_map] at hfound
  obtain ⟨commit, hcommit, rfl⟩ := Option.map_eq_some_iff.mp hfound
  have hid : commit.id = id := by simpa [PreparedCommit.seen] using find?_some hcommit
  have hstored : (db.store.commits.filter (decide <| Recent bound ·)).find? (·.messageId == id) = none := by
    rw [find?_eq_none]
    intro row hrow heq
    exact h.fresh row (mem_filter.mp hrow).1 commit (mem_of_find?_eq_some hcommit) ((beq_iff_eq.mp heq).trans hid.symm)
  refine ⟨commit.row.undated, ?_, rfl, rfl, rfl⟩
  rw [← h.commits, find?_map]
  have hrows : (db.store.commits.filter (decide <| Recent bound ·) ++ batch.prepared.map (·.row)).find?
      (·.messageId == id) = some commit.row := by
    rw [find?_append, hstored, Option.none_or, find?_map]
    exact congrArg (Option.map _) hcommit
  exact congrArg (Option.map _) hrows

theorem InLedger.find_stored (h : InLedger content bound ids db (room, batch) ledger) (hid : ids id)
    (hfresh : batch.seen.find? (·.id == id) = none) :
    ledger.commits.find? (·.messageId == id) =
      (db.store.commits.find? (·.messageId == id)).map CommitRow.undated := by
  have hseen := h.seen
  dsimp only at hseen
  rw [hseen, find?_map, Option.map_eq_none_iff] at hfresh
  have hrows : (batch.prepared.map (·.row)).find? (·.messageId == id) = none := by
    rw [find?_map, Option.map_eq_none_iff]
    exact hfresh
  rw [← h.commits, find?_map]
  have hboth : (db.store.commits.filter (decide <| Recent bound ·) ++ batch.prepared.map (·.row)).find?
      (·.messageId == id) = db.store.commits.find? (·.messageId == id) := by
    rw [find?_append, hrows, Option.or_none]
    refine find_filter fun row hrow heq => decide_eq_true (h.known row hrow ?_)
    rw [beq_iff_eq.mp heq]
    exact hid
  exact congrArg (Option.map _) hboth

theorem pendingEdits_snoc {publicEdit : Bool} {prepared : List PreparedCommit} {commit : PreparedCommit} :
    pendingEdits publicEdit (prepared ++ [commit]) = if isAnonymousEdit commit && publicEdit then
      pendingEdits publicEdit prepared + 1 else pendingEdits publicEdit prepared := by
  unfold pendingEdits
  rw [filter_append, length_append, filter_cons, filter_nil]
  cases publicEdit with
  | false => simp
  | true => cases isAnonymousEdit commit <;> simp

variable {mutation : Mutation} {now : Millis}

theorem InLedger.entered (h : InLedger content bound ids db (room, batch) ledger) {digest : Bytes}
    {actor : ActorReceipt} {document document' : env.engine.Doc} {staged : Staged}
    (hstored : db.store.commits.find? (·.messageId == mutation.id) = none)
    (hcontent : content document = content document')
    (hrevision : staged.revision = if staged.action.changes then batch.nextRevision + 1 else batch.nextRevision) :
    InLedger content bound ids db ({ room with document }, pushCommit batch conn mutation digest actor now staged)
      (ledger.enter env mutation digest actor document' staged.action.changes).1 ∧
    verdict batch (pushCommit batch conn mutation digest actor now staged) =
      (ledger.enter env mutation digest actor document' staged.action.changes).2 := by
  have hnumber : (if staged.action.changes then ledger.revision + 1 else ledger.revision) = staged.revision := by
    have hledger := h.revision
    dsimp only at hledger
    rw [hrevision, hledger]
  have hedits := h.edits
  have hpersisted := h.persisted
  dsimp only at hedits hpersisted
  have hcounts : (isAnonymousEdit ⟨conn, mutation.id, mutation.kind, digest, staged.revision, staged.version, actor, now,
      staged.action, staged.relay⟩ && ledger.publicEdit) =
        (staged.action.changes && actor.author.kind == .scratch && ledger.publicEdit) := by
    unfold isAnonymousEdit
    rw [Bool.and_comm (actor.author.kind == .scratch)]
  unfold Ledger.enter
  dsimp only
  rw [hnumber]
  refine ⟨⟨hcontent, rfl, ?_, h.known, ?_, ?_, h.actors, h.publicEdit, ?_, ?_⟩, ?_⟩
  · have hcommits := h.commits
    dsimp only at hcommits
    unfold pushCommit
    dsimp only
    rw [← hcommits, map_append, map_append, map_append, map_append, append_assoc]
    rfl
  · intro row hrow commit hcommit
    rcases mem_append.mp hcommit with hcommit | hcommit
    · exact h.fresh row hrow commit hcommit
    · rw [mem_singleton.mp hcommit]
      intro heq
      exact find?_eq_none.mp hstored row hrow (beq_iff_eq.mpr heq)
  · have hseen := h.seen
    dsimp only at hseen
    unfold pushCommit
    dsimp only
    rw [hseen, map_append]
    rfl
  · unfold pushCommit
    dsimp only
    rw [pendingEdits_snoc, hcounts, ← hedits]
    split <;> omega
  · unfold pushCommit
    dsimp only
    rw [pendingEdits_snoc, hcounts, ← hpersisted]
    cases hc : staged.action.changes && actor.author.kind == .scratch && ledger.publicEdit with
    | false => simp
    | true =>
      cases db.store.persistedAt.isSome with
      | true => simp
      | false =>
        simp only [if_true, Bool.false_or, Bool.true_and]
        by_cases hsix : 6 < ledger.edits + 1
        · simp [hsix]
        · have hless : ¬ 6 < ledger.edits := by omega
          simp [hsix, hless]
  · unfold verdict pushCommit
    dsimp only
    rw [drop_left]

theorem stageMutation_cases (det : env.engine.Deterministic content) (hcontent : content room.document = content ledger.document)
    (hkind : mutation.kind = .update) (batch : Batch) (conn : ConnId) (digest : Bytes)
    (actor : ActorReceipt) :
    (room.stageMutation env batch actor.site mutation = .refused ∧
      ledger.apply env conn mutation digest actor = ledger.close env conn) ∨
    (∃ document, room.stageMutation env batch actor.site mutation = .poisoned document) ∨
    ∃ document staged document', room.stageMutation env batch actor.site mutation = .staged document staged ∧
      content document = content document' ∧
      (staged.revision = if staged.action.changes then batch.nextRevision + 1 else batch.nextRevision) ∧
      ledger.apply env conn mutation digest actor =
        ledger.enter env mutation digest actor document' staged.action.changes := by
  have hstage : room.stageMutation env batch actor.site mutation =
      room.stageUpdate env batch actor.site mutation.payload := by
    unfold stageMutation
    rw [hkind]
  rw [hstage]
  unfold stageUpdate Ledger.apply
  dsimp only
  cases hdecode : env.engine.decode mutation.payload with
  | none => exact .inl ⟨rfl, rfl⟩
  | some artifact =>
    cases artifact with
    | compactSnapshot version => exact .inl ⟨rfl, rfl⟩
    | fullSnapshot version => exact .inl ⟨rfl, rfl⟩
    | update update =>
      dsimp only
      split
      · cases happly : env.engine.applyUpdate room.document update with
        | none =>
          rw [det.update_refused _ _ _ hcontent happly]
          exact .inl ⟨rfl, rfl⟩
        | some result =>
          obtain ⟨document, receipt⟩ := result
          obtain ⟨document', receipt', hledger, hsame, -, hjournal⟩ := det.update_congr _ _ _ _ _ hcontent happly
          rw [hledger]
          dsimp only
          rw [← hjournal]
          cases receipt.journalBytes with
          | none => exact .inr (.inr ⟨document, _, document', rfl, hsame, rfl, rfl⟩)
          | some journal =>
            dsimp only
            cases hnext : nextRevision batch.nextRevision with
            | none => exact .inr (.inl ⟨document, rfl⟩)
            | some revision =>
              have hrevision : revision = batch.nextRevision + 1 := by
                unfold nextRevision at hnext
                split at hnext
                · exact (Option.some.inj hnext).symm
                · cases hnext
              exact .inr (.inr ⟨document, _, document', rfl, hsame, hrevision, rfl⟩)
      · exact .inl ⟨rfl, rfl⟩

theorem verdict_refl (batch : Batch) : verdict batch batch = .refused := by
  unfold verdict
  rw [drop_length, drop_length]

structure Meets (content : env.engine.Doc → κ) (bound : Nat) (ids : MessageId → Prop) (db : Database)
    (before after : Room env.engine × Batch) (next : Ledger env.engine × Verdict) : Prop where
  inLedger : InLedger content bound ids db after next.1
  verdict : Room.verdict before.2 after.2 = next.2
  decisions : after.1.decisions = before.1.decisions

theorem InLedger.ignores (h : InLedger content bound ids db (room, batch) ledger) (hcalm : Calm room room') :
    Meets content bound ids db (room, batch) (room', batch) (ledger, .refused) :=
  ⟨h.calm hcalm, verdict_refl batch, hcalm.decisions⟩

theorem InLedger.closes (h : InLedger content bound ids db (room, batch) ledger) (conn : ConnId) (code : CloseCode) :
    Meets content bound ids db (room, batch) (room.closeOne env conn code, batch) (ledger.close env conn) :=
  ⟨h.closed conn code, verdict_refl batch, (closeOne_calm conn code).decisions⟩

theorem InLedger.repeats (h : InLedger content bound ids db (room, batch) ledger) (ack : PendingAck) :
    Meets content bound ids db (room, batch) (room, pushAck batch ack) (ledger, .repeated ack.id ack.revision) := by
  refine ⟨h.acked ack, ?_, rfl⟩
  unfold verdict pushAck
  dsimp only
  rw [drop_length, drop_left]

theorem InLedger.prepared (det : env.engine.Deterministic content) (h : InLedger content bound ids db (room, batch) ledger)
    {socket : Socket} (hsocket : room.socket env conn = some socket) {encoded : Bytes}
    (hupdate : ∀ mutation, decodeMutation encoded = some mutation → mutation.kind = .update ∧ ids mutation.id)
    (hd : (room.prepareMutation env db .ok batch conn now encoded).1.dead = none) :
    Meets content bound ids db (room, batch) (room.prepareMutation env db .ok batch conn now encoded)
      (ledger.mutate env conn encoded) := by
  have hactor : ledger.actors conn = some socket.actor := by
    refine h.actors conn socket.actor ?_
    unfold Room.actorOf
    rw [hsocket]
    rfl
  unfold prepareMutation Ledger.mutate at *
  cases hdecode : decodeMutation encoded with
  | none => exact h.closes conn _
  | some mutation =>
    rw [hsocket, hactor]
    rw [hdecode, hsocket] at hd
    dsimp only at hd ⊢
    split
    · exact h.closes conn _
    rename_i hauthorized
    rw [if_neg hauthorized] at hd
    split
    · exact h.closes conn _
    rename_i henvelope
    rw [if_neg henvelope] at hd
    cases hseen : batch.seen.find? (·.id == mutation.id) with
    | some prior =>
      obtain ⟨row, hrow, hdigest, hkind, hrevision⟩ := h.find_seen hseen
      rw [hrow]
      dsimp only
      rw [hdigest, hkind, hrevision]
      by_cases hsame : prior.kind = mutation.kind ∧ prior.digest = mutationDigest env mutation
      · rw [if_pos hsame, if_pos hsame.symm]
        exact h.repeats ⟨conn, mutation.id, prior.revision, prior.version⟩
      · rw [if_neg hsame, if_neg fun hother => hsame hother.symm]
        exact h.closes conn _
    | none =>
      rw [hseen] at hd
      rw [h.find_stored (hupdate mutation hdecode).2 hseen]
      dsimp only at hd ⊢
      rw [if_neg (by simp)] at hd ⊢
      unfold lookupCommit at hd ⊢
      cases hstored : db.store.commits.find? (·.messageId == mutation.id) with
      | some row =>
        dsimp only [Option.map_some, CommitRow.undated]
        by_cases hsame : row.payloadHash = mutationDigest env mutation ∧ row.kind = mutation.kind
        · rw [if_pos hsame, if_pos hsame]
          exact h.repeats ⟨conn, mutation.id, row.revision, batch.durableVersion⟩
        · rw [if_neg hsame, if_neg hsame]
          exact h.closes conn _
      | none =>
        rw [hstored] at hd
        dsimp only [Option.map_none] at hd ⊢
        rcases stageMutation_cases det h.document (hupdate mutation hdecode).1 batch conn
            (mutationDigest env mutation) (actorReceipt socket.actor) with
          ⟨hstage, hledger⟩ | ⟨document, hstage⟩ | ⟨document, staged, document', hstage, hcontent, hrevision, hledger⟩
        · rw [hstage, hledger]
          exact h.closes conn _
        · rw [hstage] at hd
          cases hd
        · rw [hstage, hledger]
          obtain ⟨hfollows, hverdict⟩ := h.entered hstored hcontent hrevision
          exact ⟨hfollows, hverdict, rfl⟩

theorem rated_iff {tag : UInt8} {payload : Bytes} : Ledger.rated env (tag :: payload) = true ↔
    ¬ env.config.maxFrameBytes < (tag :: payload).length ∧ tag = msgMutation := by
  unfold Ledger.rated
  dsimp only
  rw [Bool.and_eq_true, decide_eq_true_iff, beq_iff_eq, Nat.not_lt]

variable {data : Bytes}

theorem step_unrated (h : Ledger.rated env data = false) (allowed allowed' : Bool) (conn : ConnId) :
    ledger.step env allowed conn data = ledger.step env allowed' conn data := by
  cases data with
  | nil => rfl
  | cons tag payload =>
    unfold Ledger.step
    dsimp only
    by_cases hsize : env.config.maxFrameBytes < (tag :: payload).length
    · rw [if_pos hsize, if_pos hsize]
    have htag : tag ≠ msgMutation := by
      intro heq
      rw [rated_iff.mpr ⟨hsize, heq⟩] at h
      cases h
    rw [if_neg htag, if_neg htag]

theorem stageFrame_alive {storage : Storage} {frame : Inbound}
    (hd : (room.stageFrame env db storage batch frame).1.dead = none) : room.dead = none := by
  unfold stageFrame at hd
  split at hd
  · exact hd
  · rename_i halive
    exact Option.not_isSome_iff_eq_none.mp halive

/-- The room takes a frame as the ledger does under some decision, which it has recorded if the frame is rated. -/
def Takes (content : env.engine.Doc → κ) (bound : Nat) (ids : MessageId → Prop) (db : Database)
    (before after : Room env.engine × Batch) (ledger : Ledger env.engine) (conn : ConnId) (data : Bytes) : Prop :=
  ∃ allowed, after.1.decisions = before.1.decisions ++ (if Ledger.rated env data then [allowed] else []) ∧
    InLedger content bound ids db after (ledger.step env allowed conn data).1 ∧
    Room.verdict before.2 after.2 = (ledger.step env allowed conn data).2

theorem Meets.unrated {before after : Room env.engine × Batch}
    {next : Ledger env.engine × Verdict} (h : Meets content bound ids db before after next)
    (hrated : Ledger.rated env data = false) (hstep : ledger.step env false conn data = next) :
    Takes content bound ids db before after ledger conn data := by
  rw [← hstep] at h
  refine ⟨false, ?_, h.inLedger, h.verdict⟩
  rw [hrated, if_neg Bool.false_ne_true, append_nil]
  exact h.decisions

theorem InLedger.framed (det : env.engine.Deterministic content) (h : InLedger content bound ids db (room, batch) ledger)
    {frame : Inbound} (hupdate : ∀ mutation, frame.carries mutation → mutation.kind = .update ∧ ids mutation.id)
    (hd : (room.stageFrame env db .ok batch frame).1.dead = none) :
    Takes content bound ids db (room, batch) (room.stageFrame env db .ok batch frame) ledger frame.conn frame.data := by
  have halive := stageFrame_alive hd
  unfold stageFrame at hd ⊢
  rw [if_neg (by rw [halive]; exact Bool.false_ne_true)] at hd ⊢
  cases hdata : frame.data with
  | nil => exact (h.ignores (Calm.refl room)).unrated rfl rfl
  | cons tag payload =>
    rw [hdata] at hd
    dsimp only at hd ⊢
    by_cases hsize : env.config.maxFrameBytes < (tag :: payload).length
    · have hrated : Ledger.rated env (tag :: payload) = false :=
        Bool.eq_false_iff.mpr fun hrated => (rated_iff.mp hrated).1 hsize
      rw [if_pos hsize]
      exact (h.closes frame.conn _).unrated hrated (if_pos hsize)
    · rw [if_neg hsize] at hd ⊢
      by_cases hmutation : tag = msgMutation
      · have hrated : Ledger.rated env (tag :: payload) = true := rated_iff.mpr ⟨hsize, hmutation⟩
        rw [if_pos hmutation] at hd ⊢
        obtain ⟨hcalm, hsocket⟩ := allowMutation_calm room frame.now frame.conn payload.length
        generalize room.allowMutation env frame.now frame.conn payload.length = rated at *
        have hmid : (rated.1.record env [.rate frame.conn rated.2]).decisions = room.decisions ++ [rated.2] := by
          rw [decisions_record, hcalm.decisions]
          rfl
        have hrecorded : InLedger content bound ids db (rated.1.record env [.rate frame.conn rated.2], batch) ledger :=
          { h.calm hcalm with }
        have hstep : ledger.step env rated.2 frame.conn (tag :: payload) =
            if rated.2 then ledger.mutate env frame.conn payload else ledger.close env frame.conn := by
          unfold Ledger.step
          dsimp only
          rw [if_neg hsize, if_pos hmutation]
        have hmeets : Meets content bound ids db (rated.1.record env [.rate frame.conn rated.2], batch)
            (if rated.2 then
              (rated.1.record env [.rate frame.conn rated.2]).prepareMutation env db .ok batch frame.conn frame.now payload
            else ((rated.1.record env [.rate frame.conn rated.2]).closeOne env frame.conn closeCapacity, batch))
            (ledger.step env rated.2 frame.conn (tag :: payload)) := by
          rw [hstep]
          cases hallowed : rated.2 with
          | false =>
            rw [hallowed] at hrecorded
            exact hrecorded.closes frame.conn _
          | true =>
            obtain ⟨socket, hsocket⟩ := hsocket hallowed
            rw [hallowed] at hrecorded hd
            refine hrecorded.prepared det hsocket (fun mutation hdecode => ?_) hd
            exact hupdate mutation ⟨payload, by rw [hdata, hmutation], hdecode⟩
        refine ⟨rated.2, ?_, hmeets.inLedger, hmeets.verdict⟩
        rw [hrated, if_pos rfl]
        exact hmeets.decisions.trans hmid
      · have hrated : Ledger.rated env (tag :: payload) = false :=
          Bool.eq_false_iff.mpr fun hrated => hmutation (rated_iff.mp hrated).2
        have hstep : ledger.step env false frame.conn (tag :: payload) =
            if tag = msgEphemeral ∨ tag = msgPresenceDelta then (ledger, .refused)
            else if tag = msgUpdate ∨ tag = msgSnapshot then ledger.close env frame.conn
            else (ledger, .refused) := by
          unfold Ledger.step
          dsimp only
          rw [if_neg hsize, if_neg hmutation]
        rw [if_neg hmutation] at hd ⊢
        by_cases hpresence : tag = msgEphemeral ∨ tag = msgPresenceDelta
        · rw [if_pos hpresence] at hstep ⊢
          exact (h.ignores (clientPresence_calm frame.conn payload)).unrated hrated hstep
        rw [if_neg hpresence] at hstep ⊢
        by_cases hstate : tag = msgUpdate ∨ tag = msgSnapshot
        · rw [if_pos hstate] at hstep ⊢
          exact (h.closes frame.conn _).unrated hrated hstep
        · rw [if_neg hstate] at hstep ⊢
          exact (h.ignores (Calm.refl room)).unrated hrated hstep

/-! ## A batch staged -/

variable {state : Room env.engine × Batch}

theorem stageFrames_alive (frames : List Inbound)
    (hd : (stageFrames env db frames state).1.dead = none) : state.1.dead = none := by
  induction frames generalizing state with
  | nil => exact hd
  | cons frame frames ih => exact stageFrame_alive (ih hd)

theorem InLedger.stages (det : env.engine.Deterministic content) {frames : List Inbound}
    (h : InLedger content bound ids db state ledger)
    (hupdate : ∀ frame ∈ frames, ∀ mutation, frame.carries mutation → mutation.kind = .update ∧ ids mutation.id)
    (hd : (stageFrames env db frames state).1.dead = none) :
    ∃ taken ledger', (stageFrames env db frames state).1.decisions = state.1.decisions ++ taken ∧
      InLedger content bound ids db (stageFrames env db frames state) ledger' ∧
      ∀ later more, Ledger.run env (frames.map Inbound.sent ++ later) (taken ++ more) ledger =
        ((Ledger.run env later more ledger').1,
          stageVerdicts env db frames state ++ (Ledger.run env later more ledger').2) := by
  induction frames generalizing state ledger with
  | nil => exact ⟨[], ledger, (append_nil _).symm, h, fun _ _ => rfl⟩
  | cons frame frames ih =>
    have hstage : stageFrames env db (frame :: frames) state =
        stageFrames env db frames (state.1.stageFrame env db .ok state.2 frame) := rfl
    rw [hstage] at hd ⊢
    obtain ⟨hupdate, hupdates⟩ := forall_mem_cons.mp hupdate
    obtain ⟨allowed, hdecisions, hledger, hverdict⟩ := InLedger.framed det h hupdate (stageFrames_alive frames hd)
    obtain ⟨taken, ledger', hrest, hledger', hrun⟩ := ih hledger hupdates hd
    refine ⟨(if Ledger.rated env frame.data then [allowed] else []) ++ taken, ledger', ?_, hledger', ?_⟩
    · rw [hrest, hdecisions, append_assoc]
    intro later more
    have hunfold : ∀ decisions, Ledger.run env ((frame :: frames).map Inbound.sent ++ later) decisions ledger =
        ((Ledger.run env (frames.map Inbound.sent ++ later)
            (if Ledger.rated env frame.data then decisions.tail else decisions)
            (ledger.step env (decisions.headD false) frame.conn frame.data).1).1,
          (ledger.step env (decisions.headD false) frame.conn frame.data).2 ::
            (Ledger.run env (frames.map Inbound.sent ++ later)
              (if Ledger.rated env frame.data then decisions.tail else decisions)
              (ledger.step env (decisions.headD false) frame.conn frame.data).1).2) := fun _ => rfl
    have hverdicts : stageVerdicts env db (frame :: frames) state =
        verdict state.2 (state.1.stageFrame env db .ok state.2 frame).2 ::
          stageVerdicts env db frames (state.1.stageFrame env db .ok state.2 frame) := rfl
    rw [hunfold, hverdicts, hverdict]
    cases hrated : Ledger.rated env frame.data with
    | true =>
      simp only [if_true, cons_append, nil_append, headD_cons, tail_cons]
      rw [hrun]
    | false =>
      simp only [Bool.false_eq_true, if_false, nil_append]
      rw [step_unrated hrated _ allowed, hrun, cons_append]

end

end Marks
