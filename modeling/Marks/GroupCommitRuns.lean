import Marks.GroupCommitSound

/-! # Batches do not show

Committing a batch leaves the ledger as it is. So a room that stays alive keeps the ledger over any batches, and two
ways to cut the same frames into batches end alike. -/

namespace Marks

open Room DocumentStore List

variable {auth : AuthorityTables} {batches : List FrameBatch}

section
variable {env : Env} {κ : Type} {content : env.engine.Doc → κ} {bound : Nat} {ids : MessageId → Prop} {db : Database}
  {room room' : Room env.engine} {batch : Batch} {ledger : Ledger env.engine}

/-! ## A batch committed -/

structure SameEdits (store store' : DocumentStore) : Prop where
  count : store'.anonymousEditCount = store.anonymousEditCount
  persistedAt : store'.persistedAt = store.persistedAt

theorem SameEdits.refl (store : DocumentStore) : SameEdits store store := ⟨rfl, rfl⟩

variable {store store' : DocumentStore}

theorem SameEdits.trans {store'' : DocumentStore} (h : SameEdits store store')
    (h' : SameEdits store' store'') : SameEdits store store'' :=
  ⟨h'.count.trans h.count, h'.persistedAt.trans h.persistedAt⟩

variable {now : Millis}

variable {author : Author}

theorem insertOpAuthors_edits {operations : List Operation}
    (h : insertOpAuthors author now operations store = .ok store') :
    SameEdits store store' := by
  induction operations generalizing store with
  | nil =>
    cases h
    exact SameEdits.refl _
  | cons operation operations ih =>
    unfold insertOpAuthors insertOpAuthor at h
    split at h
    · rename_i mid hinsert
      refine SameEdits.trans ?_ (ih h)
      split at hinsert
      · cases hinsert
      · split at hinsert <;> cases hinsert
        · exact SameEdits.refl _
        · exact ⟨rfl, rfl⟩
    · cases h

theorem insertOpAuthorRanges_edits {ranges : List AcceptedRange}
    (h : insertOpAuthorRanges author now ranges store = .ok store') :
    SameEdits store store' := by
  induction ranges generalizing store with
  | nil =>
    cases h
    exact SameEdits.refl _
  | cons range ranges ih =>
    unfold insertOpAuthorRanges insertOpAuthorRange at h
    split at h
    · rename_i mid hinsert
      refine SameEdits.trans ?_ (ih h)
      split at hinsert
      · cases hinsert
      · split at hinsert <;> cases hinsert
        · exact SameEdits.refl _
        · exact ⟨rfl, rfl⟩
    · cases h

theorem writeAction_edits {commit : PreparedCommit}
    (h : writeAction commit store = .ok store') : SameEdits store store' := by
  unfold writeAction at h
  cases haction : commit.action with
  | receipt =>
    rw [haction] at h
    cases h
    exact SameEdits.refl _
  | update journal operations chars =>
    rw [haction] at h
    dsimp only at h
    unfold insertUpdate at h
    split at h
    · rename_i mid hinsert
      split at hinsert
      · cases hinsert
      · cases hinsert
        have hauthors := insertOpAuthors_edits h
        exact ⟨hauthors.count, hauthors.persistedAt⟩
    · cases h
  | snapshot compact ranges chars =>
    rw [haction] at h
    dsimp only at h
    split at h
    · rename_i mid hinsert
      cases h
      exact (insertOpAuthorRanges_edits hinsert).trans ⟨rfl, rfl⟩
    · cases h

theorem writeCommits_edits {validated : List Author}
    {commits : List PreparedCommit}
    (h : writeCommits auth now validated commits store = .ok store') : SameEdits store store' := by
  induction commits generalizing store validated with
  | nil =>
    cases h
    exact SameEdits.refl _
  | cons commit commits ih =>
    unfold writeCommits at h
    split at h
    · cases h
    split at h
    · cases h
    rename_i mid haction
    unfold insertCommit at h
    split at h
    · cases h
    rename_i mid' hinsert
    split at hinsert
    · cases hinsert
    · cases hinsert
      have hrest := ih h
      exact (writeAction_edits haction).trans ⟨hrest.count, hrest.persistedAt⟩

theorem addAnonymousEdits_edits (store : DocumentStore) (now : Millis) {publicEdit : Bool} {edits n : Nat}
    (hn : n = if publicEdit then edits else 0) :
    (store.addAnonymousEdits publicEdit edits now).anonymousEditCount = store.anonymousEditCount + n ∧
      (store.addAnonymousEdits publicEdit edits now).persistedAt.isSome =
        (store.persistedAt.isSome || 0 < n && decide (6 < store.anonymousEditCount + n)) := by
  unfold addAnonymousEdits
  by_cases hnone : edits = 0 ∨ (!publicEdit) = true
  · have hzero : n = 0 := by
      rw [hn]
      rcases hnone with hedits | hpublic
      · rw [hedits, ite_self]
      · rw [if_neg (by simpa using hpublic)]
    rw [if_pos hnone, hzero]
    simp
  · have hpublic : publicEdit = true := by
      rw [Bool.not_eq_true'] at hnone
      exact Bool.not_eq_false _ ▸ fun h => hnone (.inr h)
    rw [hpublic, if_pos rfl] at hn
    have hpos : 0 < n := by
      rw [hn]
      exact Nat.pos_of_ne_zero fun h => hnone (.inl h)
    rw [if_neg hnone, ← hn]
    refine ⟨rfl, ?_⟩
    dsimp only
    cases hp : store.persistedAt with
    | some at_ => simp
    | none =>
      by_cases hsix : 6 < store.anonymousEditCount + n
      · simp [hsix, hpos]
      · simp [hsix]

theorem compactAt_recent {snapshot : Bytes} {revision : Nat} (h : revision ≤ bound) :
    (store.compactAt snapshot revision).commits.filter (decide <| Recent bound ·) =
      store.commits.filter (decide <| Recent bound ·) := by
  show (store.commits.filter fun row => decide (revision - idempotencyReceiptWindow ≤ row.revision)).filter _ = _
  rw [filter_filter]
  refine filter_congr fun row _ => ?_
  by_cases hrecent : Recent bound row
  · have hkept : revision - idempotencyReceiptWindow ≤ row.revision := by
      unfold Recent at hrecent
      omega
    simp [hrecent, hkept]
  · simp [hrecent]

theorem commitTx_ledger {db' : Database} {epoch nextRevision : Nat} {prepared : List PreparedCommit}
    {compact : Option Bytes} (hs : db.store.Sound) (hn : Numbered db.store.revision prepared nextRevision)
    (hbound : nextRevision ≤ bound) (h : commitTx db epoch now prepared compact nextRevision = .ok db') :
    db'.auth = db.auth ∧ db'.store.commits ⊆ db.store.commits ++ prepared.map (·.row) ∧
      db'.store.commits.filter (decide <| Recent bound ·) =
        (db.store.commits ++ prepared.map (·.row)).filter (decide <| Recent bound ·) ∧
      db'.store.anonymousEditCount = db.store.anonymousEditCount + pendingEdits db.auth.document.publicEdit prepared ∧
      db'.store.persistedAt.isSome = (db.store.persistedAt.isSome ||
        0 < pendingEdits db.auth.document.publicEdit prepared &&
          decide (6 < db.store.anonymousEditCount + pendingEdits db.auth.document.publicEdit prepared)) := by
  have hfinal : ∀ (noted final : DocumentStore) (at_ : Millis), SameEdits db.store noted →
      noted.commits = db.store.commits ++ prepared.map (·.row) →
      final = compact.elim
        (noted.addAnonymousEdits db.auth.document.publicEdit (prepared.filter isAnonymousEdit).length at_)
        (fun snapshot => (noted.addAnonymousEdits db.auth.document.publicEdit
          (prepared.filter isAnonymousEdit).length at_).compactAt snapshot nextRevision) →
      final.commits ⊆ db.store.commits ++ prepared.map (·.row) ∧
      final.commits.filter (decide <| Recent bound ·) =
        (db.store.commits ++ prepared.map (·.row)).filter (decide <| Recent bound ·) ∧
      final.anonymousEditCount = db.store.anonymousEditCount + pendingEdits db.auth.document.publicEdit prepared ∧
      final.persistedAt.isSome = (db.store.persistedAt.isSome ||
        0 < pendingEdits db.auth.document.publicEdit prepared &&
          decide (6 < db.store.anonymousEditCount + pendingEdits db.auth.document.publicEdit prepared)) := by
    intro noted final at_ hsame hcommits hfinal
    obtain ⟨hcount, hpersisted⟩ := addAnonymousEdits_edits noted at_
      (show pendingEdits db.auth.document.publicEdit prepared = _ from rfl)
    have haside : (noted.addAnonymousEdits db.auth.document.publicEdit
        (prepared.filter isAnonymousEdit).length at_).commits = noted.commits :=
      (addAnonymousEdits_aside _ _ _).commits
    rw [hsame.count] at hcount hpersisted
    rw [hsame.persistedAt] at hpersisted
    rw [hfinal, ← hcommits, ← haside]
    cases compact with
    | none => exact ⟨List.Subset.refl _, rfl, hcount, hpersisted⟩
    | some snapshot => exact ⟨filter_subset_self _, compactAt_recent hbound, hcount, hpersisted⟩
  unfold commitTx at h
  split at h
  · cases h
  split at h
  · cases h
  rename_i written hwritten
  obtain ⟨-, -, hcommits, -⟩ := writeCommits_numbered hs hn hwritten
  have hedits := writeCommits_edits hwritten
  cases h
  refine ⟨rfl, hfinal _ _ _ ?_ ?_ rfl⟩
  · refine hedits.trans ?_
    split <;> exact ⟨rfl, rfl⟩
  · rw [← hcommits]
    split <;> rfl

/-! ## What else a live room keeps -/

structure Mirrored (content : env.engine.Doc → κ) (db : Database) (room : Room env.engine) (batch : Batch) : Prop where
  sound : db.store.Sound
  revision : room.revision = db.store.revision
  numbered : Numbered room.revision batch.prepared batch.nextRevision
  mirrors : Mirrors content db.store room batch.prepared
  relays : QuietRelays batch

theorem Mirrored.staged (laws : env.engine.Lawful content) (h : Mirrored content db room batch) {frame : Inbound}
    (hd : (room.stageFrame env db .ok batch frame).1.dead = none) :
    Mirrored content db (room.stageFrame env db .ok batch frame).1 (room.stageFrame env db .ok batch frame).2 ∧
      (room.stageFrame env db .ok batch frame).1.revision = room.revision := by
  have step := stageFrame_step db .ok room batch frame
  have htask : TaskStep (.commit 0 .ok 0) db room (.staging [] batch) db (room.stageFrame env db .ok batch frame).1
      (.staging [] (room.stageFrame env db .ok batch frame).2) := .stage step
  have hnumbered := htask.numbered (fun _ _ heq => by cases heq; exact h.numbered) rfl hd
  have hmirrors := htask.mirrors laws h.sound h.revision (fun _ _ heq => by cases heq; exact h.numbered) h.mirrors hd
  generalize room.stageFrame env db .ok batch frame = after at *
  obtain ⟨after, batch'⟩ := after
  cases step with
  | kept keeps => exact ⟨⟨h.sound, keeps.revision.trans h.revision, hnumbered, hmirrors, h.relays⟩, keeps.revision⟩
  | acked keeps again => exact ⟨⟨h.sound, keeps.revision.trans h.revision, hnumbered, hmirrors, h.relays⟩, keeps.revision⟩
  | poisoned keeps dead => exact absurd hd (Option.isSome_iff_ne_none.mp dead)
  | pushed alive carried keeps connected authorized unseen missing stages =>
    exact ⟨⟨h.sound, keeps.revision.trans h.revision, hnumbered, hmirrors,
      quietRelays_pushCommit h.relays (stageMutation_staged stages).2⟩, keeps.revision⟩

theorem Mirrored.stages (laws : env.engine.Lawful content) {frames : List Inbound} {state : Room env.engine × Batch}
    (h : Mirrored content db state.1 state.2) (hd : (stageFrames env db frames state).1.dead = none) :
    Mirrored content db (stageFrames env db frames state).1 (stageFrames env db frames state).2 ∧
      (stageFrames env db frames state).1.revision = state.1.revision := by
  induction frames generalizing state with
  | nil => exact ⟨h, rfl⟩
  | cons frame frames ih =>
    obtain ⟨hlive, hrevision⟩ := h.staged laws (stageFrames_alive frames hd)
    obtain ⟨hlive', hrevision'⟩ := ih hlive hd
    exact ⟨hlive', hrevision'.trans hrevision⟩

theorem mirrored_start {db : Database} {room : Room env.engine} (hs : db.store.Sound) (hr : room.revision = db.store.revision)
    (hm : Mirrors content db.store room []) : Mirrored content db room (room.startBatch env) :=
  ⟨hs, hr, rfl, hm, fun _ hc => by cases hc⟩

theorem Mirrored.finished (laws : env.engine.Lawful content) (h : Mirrored content db room batch)
    (hd : (room.finishFrames env db .ok now batch).2.dead = none) :
    Mirrored content (room.finishFrames env db .ok now batch).1 (room.finishFrames env db .ok now batch).2
        ((room.finishFrames env db .ok now batch).2.startBatch env) ∧
      room.revision ≤ (room.finishFrames env db .ok now batch).2.revision := by
  have step := finishFrames_step room db .ok now batch h.relays
  have htask : TaskStep (.commit 0 .ok now) db room (.staging [] batch) (room.finishFrames env db .ok now batch).1
      (room.finishFrames env db .ok now batch).2 .idle := .finish ⟨0, .ok, rfl⟩ step
  have hnumbered : ∀ frames (batch' : Batch), Phase.staging [] batch = .staging frames batch' →
      Numbered room.revision batch'.prepared batch'.nextRevision := by
    intro frames batch' heq
    cases heq
    exact h.numbered
  have hmirrors := htask.mirrors laws h.sound h.revision hnumbered h.mirrors hd
  have hmade : db.store.revision ≤ (room.finishFrames env db .ok now batch).1.store.revision ∧
      (room.finishFrames env db .ok now batch).1.store.Sound ∧
      (room.finishFrames env db .ok now batch).2.revision =
        (room.finishFrames env db .ok now batch).1.store.revision := by
    rcases htask.made h.sound (htask.alive hd) h.revision hnumbered with made | made
    · exact ⟨(numbered_le made.numbered).1, made.advanced.sound, made.revision hd⟩
    · exact ⟨(numbered_le made.numbered).1, made.advanced.sound, made.revision hd⟩
  obtain ⟨hle, hsound, hrevision⟩ := hmade
  refine ⟨mirrored_start hsound hrevision hmirrors, ?_⟩
  rw [h.revision, hrevision]
  exact hle

theorem settle_alike (laws : env.engine.Lawful content) (room : Room env.engine) (compact : Option Bytes)
    (batch : Batch) :
    content (room.settle env compact batch).document = content room.document ∧
      (room.settle env compact batch).sockets = room.sockets ∧
      (room.settle env compact batch).decisions = room.decisions ∧
      (room.settle env compact batch).revision = batch.nextRevision := by
  refine ⟨settle_content laws room compact batch, ?_⟩
  unfold settle
  dsimp only
  split
  · unfold prune
    split <;> exact ⟨rfl, rfl, rfl⟩
  · exact ⟨rfl, rfl, rfl⟩

theorem InLedger.opened (h : InLedger content bound ids db (room, room.startBatch env) ledger) (hcalm : Calm room room') :
    InLedger content bound ids db (room', room'.startBatch env) ledger :=
  { h.calm hcalm with
    revision := by
      have hrevision : room.revision = ledger.revision := h.revision
      show room'.revision = _
      rw [hcalm.revision, hrevision] }

theorem InLedger.committed (laws : env.engine.Lawful content) (h : InLedger content bound ids db (room, batch) ledger)
    (hlive : Mirrored content db room batch)
    (hwindow : bound ≤ room.revision + idempotencyReceiptWindow)
    (hbound : (room.commitBatch env db .ok now batch).2.revision ≤ bound)
    (hd : (room.commitBatch env db .ok now batch).2.dead = none) :
    InLedger content bound ids (room.commitBatch env db .ok now batch).1
        ((room.commitBatch env db .ok now batch).2, (room.commitBatch env db .ok now batch).2.startBatch env) ledger ∧
      (room.commitBatch env db .ok now batch).2.decisions = room.decisions := by
  have hdocument := h.document
  have hrevision := h.revision
  have hcommits := h.commits
  have hedits := h.edits
  have hpersisted := h.persisted
  dsimp only at hdocument hrevision hcommits hedits hpersisted
  unfold commitBatch at hd hbound ⊢
  cases hsnapshot : room.batchSnapshot env batch.nextSinceCompact with
  | none =>
    rw [hsnapshot] at hd
    cases hd
  | some compact =>
    rw [hsnapshot] at hd hbound
    dsimp only at hd hbound ⊢
    cases htx : commitTx db room.epoch now batch.prepared compact batch.nextRevision with
    | error error =>
      rw [htx] at hd
      cases hd
    | ok db' =>
      rw [htx] at hd hbound
      have hrecent : ∀ row ∈ batch.prepared.map (·.row), Recent bound row := by
        intro row hrow
        obtain ⟨commit, hcommit, rfl⟩ := mem_map.mp hrow
        exact Nat.le_trans hwindow (Nat.add_le_add_right ((numbered_le hlive.numbered).2 commit hcommit).1 _)
      have hnumbered := hlive.numbered
      rw [hlive.revision] at hnumbered
      dsimp only [Database.tx] at hd hbound ⊢
      have hrecorded := recordDurable_calm room true batch.prepared
      generalize room.recordDurable env true batch.prepared = recorded at hd hbound hrecorded ⊢
      obtain ⟨hsettled, hsockets, hdecisions, hnext⟩ := settle_alike laws recorded compact batch
      generalize recorded.settle env compact batch = settled at hd hbound hsettled hsockets hdecisions hnext ⊢
      have hcalm : Calm settled ((settled.announce env batch.prepared).acknowledgeAll env batch.pendingAcks) :=
        announce_calm.trans acknowledgeAll_calm
      rw [hcalm.revision, hnext] at hbound
      obtain ⟨hauth, hsubset, hstored, hcount, hshape⟩ :=
        commitTx_ledger hlive.sound hnumbered hbound htx
      have hpublic : db.auth.document.publicEdit = ledger.publicEdit := h.publicEdit
      rw [hpublic] at hcount hshape
      have hrows : (batch.prepared.map (·.row)).filter (decide <| Recent bound ·) = batch.prepared.map (·.row) :=
        filter_eq_self.mpr fun row hrow => decide_eq_true (hrecent row hrow)
      have hnone : pendingEdits ledger.publicEdit (settled.startBatch env).prepared = 0 := by
        unfold pendingEdits startBatch
        simp
      have hopen : InLedger content bound ids db' (settled, settled.startBatch env) ledger := {
        document := by
          dsimp only
          rw [hsettled, hrecorded.document, hdocument]
        revision := hnext.trans hrevision
        commits := by
          rw [show (settled, settled.startBatch env).2.prepared = [] from rfl, map_nil, append_nil, hstored,
            filter_append, hrows, hcommits]
        known := by
          intro row hrow hid
          rcases mem_append.mp (hsubset hrow) with hold | hnew
          · exact h.known row hold hid
          · exact hrecent row hnew
        fresh := fun _ _ _ hc => by cases hc
        seen := rfl
        actors := by
          intro conn actor ha
          refine h.actors conn actor (hrecorded.actors conn actor (ha ▸ ?_))
          unfold Room.actorOf Room.socket
          dsimp only
          rw [hsockets]
        publicEdit := hauth ▸ hpublic
        edits := by
          dsimp only
          rw [hnone, hcount, ← hedits]
          rfl
        persisted := by
          dsimp only
          rw [hnone, hshape, hedits, ← hpersisted]
          simp }
      refine ⟨hopen.opened hcalm, ?_⟩
      rw [hcalm.decisions, hdecisions, hrecorded.decisions]

theorem InLedger.finished (laws : env.engine.Lawful content) (h : InLedger content bound ids db (room, batch) ledger)
    (hlive : Mirrored content db room batch)
    (hwindow : bound ≤ room.revision + idempotencyReceiptWindow)
    (hbound : (room.finishFrames env db .ok now batch).2.revision ≤ bound)
    (hd : (room.finishFrames env db .ok now batch).2.dead = none) :
    InLedger content bound ids (room.finishFrames env db .ok now batch).1
        ((room.finishFrames env db .ok now batch).2, (room.finishFrames env db .ok now batch).2.startBatch env) ledger ∧
      (room.finishFrames env db .ok now batch).2.decisions = room.decisions := by
  unfold finishFrames at hd hbound ⊢
  split
  · rename_i hdead
    rw [if_pos hdead] at hd
    rw [hd] at hdead
    cases hdead
  · rename_i halive
    rw [if_neg halive] at hd hbound
    split
    · rename_i hempty
      have hcalm : Calm room (room.acknowledgeAll env batch.pendingAcks) := acknowledgeAll_calm
      have hnumbered := hlive.numbered
      rw [hempty] at hnumbered
      have hsame : batch.nextRevision = room.revision := hnumbered
      have hcommits := h.commits
      have hedits := h.edits
      have hpersisted := h.persisted
      dsimp only at hcommits hedits hpersisted
      rw [hempty] at hcommits hedits hpersisted
      have hopen : InLedger content bound ids db (room, room.startBatch env) ledger := {
        document := h.document
        revision := hsame.symm.trans h.revision
        commits := hcommits
        known := h.known
        fresh := fun _ _ _ hc => by cases hc
        seen := rfl
        actors := h.actors
        publicEdit := h.publicEdit
        edits := hedits
        persisted := hpersisted }
      exact ⟨hopen.opened hcalm, hcalm.decisions⟩
    · rename_i hprepared
      rw [if_neg hprepared] at hd hbound
      exact h.committed laws hlive hwindow hbound hd

/-! ## Batch after batch -/

theorem finishFrames_alive (hd : (room.finishFrames env db .ok now batch).2.dead = none) :
    room.dead = none := by
  unfold finishFrames at hd
  split at hd
  · exact hd
  · rename_i halive
    exact Option.not_isSome_iff_eq_none.mp halive

variable {state : Database × Room env.engine}

theorem commitFrames_alive {batch : FrameBatch} (hd : (commitFrames env state batch).2.dead = none) :
    state.2.dead = none := by
  have hstaged : (stageFrames env state.1 batch.frames (state.2, state.2.startBatch env)).1.dead = none :=
    finishFrames_alive hd
  exact stageFrames_alive batch.frames hstaged

theorem commitAll_alive (batches : List FrameBatch) {state : Database × Room env.engine}
    (hd : (commitAll env batches state).2.dead = none) : state.2.dead = none := by
  induction batches generalizing state with
  | nil => exact hd
  | cons batch batches ih => exact commitFrames_alive (ih hd)

section
variable (laws : env.engine.Lawful content)
include laws

theorem Mirrored.framed {batch : FrameBatch} (h : Mirrored content state.1 state.2 (state.2.startBatch env))
    (hd : (commitFrames env state batch).2.dead = none) :
    Mirrored content (commitFrames env state batch).1 (commitFrames env state batch).2
        ((commitFrames env state batch).2.startBatch env) ∧
      state.2.revision ≤ (commitFrames env state batch).2.revision := by
  have hstart : Mirrored content state.1 (state.2, state.2.startBatch env).1 (state.2, state.2.startBatch env).2 := h
  obtain ⟨hstaged, hsame⟩ := hstart.stages laws (finishFrames_alive hd)
  obtain ⟨hfinished, hle⟩ := hstaged.finished laws hd
  exact ⟨hfinished, hsame ▸ hle⟩

theorem Mirrored.run (h : Mirrored content state.1 state.2 (state.2.startBatch env))
    (hd : (commitAll env batches state).2.dead = none) :
    Mirrored content (commitAll env batches state).1 (commitAll env batches state).2
        ((commitAll env batches state).2.startBatch env) ∧
      state.2.revision ≤ (commitAll env batches state).2.revision := by
  induction batches generalizing state with
  | nil => exact ⟨h, Nat.le_refl _⟩
  | cons batch batches ih =>
    obtain ⟨hlive, hle⟩ := h.framed laws (commitAll_alive batches hd)
    obtain ⟨hfinal, hle'⟩ := ih hlive hd
    exact ⟨hfinal, Nat.le_trans hle hle'⟩

variable (det : env.engine.Deterministic content)
include det

theorem InLedger.batched {batch : FrameBatch} (h : InLedger content bound ids state.1 (state.2, state.2.startBatch env) ledger)
    (hlive : Mirrored content state.1 state.2 (state.2.startBatch env))
    (hupdate : ∀ frame ∈ batch.frames, ∀ mutation, frame.carries mutation → mutation.kind = .update ∧ ids mutation.id)
    (hwindow : bound ≤ state.2.revision + idempotencyReceiptWindow)
    (hbound : (commitFrames env state batch).2.revision ≤ bound) (hd : (commitFrames env state batch).2.dead = none) :
    ∃ taken ledger', (commitFrames env state batch).2.decisions = state.2.decisions ++ taken ∧
      InLedger content bound ids (commitFrames env state batch).1
        ((commitFrames env state batch).2, (commitFrames env state batch).2.startBatch env) ledger' ∧
      ∀ later more, Ledger.run env (batch.frames.map Inbound.sent ++ later) (taken ++ more) ledger =
        ((Ledger.run env later more ledger').1,
          stageVerdicts env state.1 batch.frames (state.2, state.2.startBatch env) ++
            (Ledger.run env later more ledger').2) := by
  have hstart : Mirrored content state.1 (state.2, state.2.startBatch env).1 (state.2, state.2.startBatch env).2 := hlive
  have halive : (stageFrames env state.1 batch.frames (state.2, state.2.startBatch env)).1.dead = none :=
    finishFrames_alive hd
  obtain ⟨hstaged, hsame⟩ := hstart.stages laws halive
  obtain ⟨taken, ledger', hdecisions, hledger, hrun⟩ := h.stages det hupdate halive
  obtain ⟨hfinished, hdecisions'⟩ := hledger.finished laws hstaged (hsame ▸ hwindow) hbound hd
  exact ⟨taken, ledger', hdecisions'.trans hdecisions, hfinished, hrun⟩

theorem InLedger.run (h : InLedger content bound ids state.1 (state.2, state.2.startBatch env) ledger)
    (hlive : Mirrored content state.1 state.2 (state.2.startBatch env))
    (hupdate : ∀ batch ∈ batches, ∀ frame ∈ batch.frames, ∀ mutation, frame.carries mutation →
      mutation.kind = .update ∧ ids mutation.id)
    (hwindow : bound ≤ state.2.revision + idempotencyReceiptWindow)
    (hbound : (commitAll env batches state).2.revision ≤ bound) (hd : (commitAll env batches state).2.dead = none) :
    ∃ taken ledger', (commitAll env batches state).2.decisions = state.2.decisions ++ taken ∧
      InLedger content bound ids (commitAll env batches state).1
        ((commitAll env batches state).2, (commitAll env batches state).2.startBatch env) ledger' ∧
      Ledger.run env (sentFrames batches) taken ledger = (ledger', allVerdicts env batches state) := by
  induction batches generalizing state ledger with
  | nil => exact ⟨[], ledger, (append_nil _).symm, h, rfl⟩
  | cons batch batches ih =>
    have hcommit : commitAll env (batch :: batches) state = commitAll env batches (commitFrames env state batch) := rfl
    rw [hcommit] at hbound hd ⊢
    obtain ⟨hupdate, hupdates⟩ := forall_mem_cons.mp hupdate
    have halive := commitAll_alive batches hd
    obtain ⟨hlater, hle⟩ := hlive.framed laws halive
    obtain ⟨-, hle'⟩ := hlater.run laws hd
    obtain ⟨staged, middle, hdecisions, hledger, hrun⟩ :=
      h.batched laws det hlive hupdate hwindow (Nat.le_trans hle' hbound) halive
    obtain ⟨taken, ledger', hrest, hfinal, hrun'⟩ := ih hledger hlater hupdates
      (Nat.le_trans hwindow (Nat.add_le_add_right hle _)) hbound hd
    refine ⟨staged ++ taken, ledger', ?_, hfinal, ?_⟩
    · rw [hrest, hdecisions, append_assoc]
    · have hsent : sentFrames (batch :: batches) = batch.frames.map Inbound.sent ++ sentFrames batches := rfl
      rw [hsent, hrun, hrun']
      rfl

end

/-! ## Two ways to cut -/

def Room.openLedger (room : Room env.engine) (db : Database) (bound : Nat) : Ledger env.engine where
  document := room.document
  revision := room.revision
  commits := (db.store.commits.filter (decide <| Recent bound ·)).map CommitRow.undated
  actors := room.actorOf env
  publicEdit := db.auth.document.publicEdit
  edits := db.store.anonymousEditCount
  persisted := db.store.persistedAt.isSome

theorem inLedger_start (h : ∀ row ∈ db.store.commits, ids row.messageId → Recent bound row) :
    InLedger content bound ids db (room, room.startBatch env) (room.openLedger db bound) where
  document := rfl
  revision := rfl
  commits := by
    rw [show (room.startBatch env).prepared = [] from rfl, map_nil, append_nil]
    rfl
  known := h
  fresh := fun _ _ _ hc => by cases hc
  seen := rfl
  actors := fun _ _ h => h
  publicEdit := rfl
  edits := by
    unfold Room.openLedger pendingEdits startBatch
    simp
  persisted := by
    unfold Room.openLedger pendingEdits startBatch
    simp

end

/-- The store is sound, at the revision of the room, and hydrates to its replica. -/
structure Stored (env : Env) {κ : Type} (content : env.engine.Doc → κ) (db : Database) (room : Room env.engine) :
    Prop where
  sound : db.store.Sound
  revision : room.revision = db.store.revision
  hydrates : HydratesTo env.engine content db.store (content room.document)

structure WithinWindow (env : Env) (frames : List (ConnId × Bytes)) (start final : Database × Room env.engine) :
    Prop where
  new : final.2.revision ≤ start.2.revision + idempotencyReceiptWindow
  old : ∀ row ∈ start.1.store.commits, ∀ mutation, Sends frames mutation → mutation.id = row.messageId →
    final.2.revision ≤ row.revision + idempotencyReceiptWindow

/-- What two runs of the same frames agree on: the receipt of every message sent and every receipt still in the
window, the edits that count, and what the store hydrates to. -/
structure SameOutcome (env : Env) {κ : Type} (content : env.engine.Doc → κ) (frames : List (ConnId × Bytes))
    (final final' : Database × Room env.engine) : Prop where
  revision : final'.2.revision = final.2.revision
  receipts : ∀ mutation, Sends frames mutation →
    (final'.1.store.commits.find? (·.messageId == mutation.id)).map CommitRow.undated =
      (final.1.store.commits.find? (·.messageId == mutation.id)).map CommitRow.undated
  window : (final'.1.store.commits.filter (decide <| Recent final'.2.revision ·)).map CommitRow.undated =
    (final.1.store.commits.filter (decide <| Recent final.2.revision ·)).map CommitRow.undated
  edits : final'.1.store.anonymousEditCount = final.1.store.anonymousEditCount
  persisted : final'.1.store.persistedAt.isSome = final.1.store.persistedAt.isSome
  hydrated : ∃ document document',
    hydrateDocument env.engine final.1.store = some (document, final.2.revision) ∧
    hydrateDocument env.engine final'.1.store = some (document', final'.2.revision) ∧
    content document' = content document ∧ env.engine.version document' = env.engine.version document ∧
    env.engine.text document' = env.engine.text document

/-- The same update frames cut into batches in two ways, from one room and with the same decisions of the rate
limiter, while no receipt they ask for leaves the window. -/
structure Recut (env : Env) {κ : Type} (content : env.engine.Doc → κ) (db : Database) (room : Room env.engine)
    (batches batches' : List FrameBatch) : Prop where
  stored : Stored env content db room
  same : sentFrames batches' = sentFrames batches
  updates : ∀ mutation, Sends (sentFrames batches) mutation → mutation.kind = .update
  decisions : (commitAll env batches' (db, room)).2.decisions = (commitAll env batches (db, room)).2.decisions
  window : WithinWindow env (sentFrames batches) (db, room) (commitAll env batches (db, room))
  window' : WithinWindow env (sentFrames batches) (db, room) (commitAll env batches' (db, room))

section
variable {env : Env} {κ : Type} {content : env.engine.Doc → κ} {db : Database} {room : Room env.engine}

theorem Stored.mirrored (h : Stored env content db room) : Mirrored content db room (room.startBatch env) :=
  mirrored_start h.sound h.revision (mirrors_of_hydrates h.hydrates)

theorem Mirrored.stored (h : Mirrored content db room (room.startBatch env)) : Stored env content db room :=
  ⟨h.sound, h.revision, Mirrors.hydrates h.mirrors⟩

theorem sends_of_carries {batch : FrameBatch} (hb : batch ∈ batches) {frame : Inbound}
    (hf : frame ∈ batch.frames) {mutation : Mutation} (h : frame.carries mutation) :
    Sends (sentFrames batches) mutation := by
  obtain ⟨payload, hdata, hdecode⟩ := h
  refine ⟨frame.conn, payload, mem_flatMap.mpr ⟨batch, hb, mem_map.mpr ⟨frame, hf, ?_⟩⟩, hdecode⟩
  rw [← hdata]
  rfl

variable {ids : MessageId → Prop} {bound : Nat} {final final' : Database × Room env.engine} {ledger : Ledger env.engine}
  {frames : List (ConnId × Bytes)}

theorem sameOutcome_of_ledger (laws : env.engine.Lawful content)
    (hids : ∀ mutation, Sends frames mutation → ids mutation.id)
    (h : InLedger content bound ids final.1 (final.2, final.2.startBatch env) ledger)
    (h' : InLedger content bound ids final'.1 (final'.2, final'.2.startBatch env) ledger)
    (hstored : Stored env content final.1 final.2) (hstored' : Stored env content final'.1 final'.2)
    (hbound : bound = final.2.revision) : SameOutcome env content frames final final' := by
  have hrevision : final'.2.revision = final.2.revision := h'.revision.trans h.revision.symm
  have hcommits : ∀ {state : Database × Room env.engine},
      InLedger content bound ids state.1 (state.2, state.2.startBatch env) ledger →
      (state.1.store.commits.filter (decide <| Recent bound ·)).map CommitRow.undated = ledger.commits := by
    intro state hstate
    have hrows := hstate.commits
    rw [show (state.2, state.2.startBatch env).2.prepared = [] from rfl, map_nil, append_nil] at hrows
    exact hrows
  have hedits : ∀ {state : Database × Room env.engine},
      InLedger content bound ids state.1 (state.2, state.2.startBatch env) ledger →
      state.1.store.anonymousEditCount = ledger.edits ∧ state.1.store.persistedAt.isSome = ledger.persisted := by
    intro state hstate
    have hnone : pendingEdits ledger.publicEdit (state.2, state.2.startBatch env).2.prepared = 0 := by
      unfold pendingEdits startBatch
      simp
    have hcount := hstate.edits
    have hpersisted := hstate.persisted
    rw [hnone] at hcount hpersisted
    exact ⟨hcount, by simpa using hpersisted⟩
  obtain ⟨document, hdoc, hcontent⟩ := hstored.hydrates
  obtain ⟨document', hdoc', hcontent'⟩ := hstored'.hydrates
  have hsame : content document' = content document := by
    rw [hcontent, hcontent']
    exact h'.document.trans h.document.symm
  exact {
    revision := hrevision
    receipts := fun mutation hsends =>
      (h'.find_stored (hids mutation hsends) rfl).symm.trans (h.find_stored (hids mutation hsends) rfl)
    window := by
      rw [hrevision, ← hbound]
      exact (hcommits h').trans (hcommits h).symm
    edits := (hedits h').1.trans (hedits h).1.symm
    persisted := (hedits h').2.trans (hedits h).2.symm
    hydrated := ⟨document, document', by rw [hstored.revision]; exact hdoc, by rw [hstored'.revision]; exact hdoc',
      hsame, laws.version_congr _ _ hsame, laws.text_congr _ _ hsame⟩ }

end

namespace Room

end Room

/-! ## Runs in the small -/

def seat (session : SessionId) (site : SiteId) : Socket := ⟨.principal ⟨1, session, 1, site, .owner, 1⟩, 0, 0, 0⟩

def twoSeats (compactEveryUpdates : Nat) (session : SessionId) : Room (smallEnv compactEveryUpdates).engine :=
  ⟨0, OpLog.empty, 0, 0, 1, [(1, seat 1 2), (2, seat session 3)], 3, none, 0, []⟩

def oneByOne (batch : FrameBatch) : List FrameBatch := batch.frames.map fun frame => ⟨[frame], batch.now⟩

def mixed : FrameBatch :=
  ⟨[⟨1, updateFrame 1 2 0 97, 7⟩, ⟨2, updateFrame 2 3 0 98, 7⟩, ⟨1, updateFrame 1 2 0 97, 7⟩,
    ⟨2, updateFrame 1 3 1 99, 8⟩, ⟨2, updateFrame 3 3 1 99, 8⟩, ⟨1, updateFrame 4 2 1 100, 9⟩], 10⟩

theorem updates_of_all {frames : List (ConnId × Bytes)}
    (h : frames.all (fun frame => (decodeMutation frame.2.tail).all (·.kind == .update)) = true) :
    ∀ mutation, Sends frames mutation → mutation.kind = .update := by
  intro mutation ⟨conn, payload, hmem, hdecode⟩
  have hframe := all_eq_true.mp h _ hmem
  rw [tail_cons, hdecode] at hframe
  exact beq_iff_eq.mp hframe

variable {compactEveryUpdates : Nat} {session : SessionId}

theorem stored_small :
    Stored (smallEnv compactEveryUpdates) (id : OpLog → OpLog) ⟨auth, ownedDocument.store⟩
      (twoSeats compactEveryUpdates session) :=
  ⟨ownedDocument_created.sound, rfl, OpLog.empty, rfl, rfl⟩

theorem recut_small {batch : FrameBatch}
    (hu : (sentFrames [batch]).all (fun frame => (decodeMutation frame.2.tail).all (·.kind == .update)) = true)
    (hd : (commitAll (smallEnv compactEveryUpdates) (oneByOne batch) (⟨auth, ownedDocument.store⟩,
        twoSeats compactEveryUpdates session)).2.decisions = (commitAll (smallEnv compactEveryUpdates) [batch]
          (⟨auth, ownedDocument.store⟩, twoSeats compactEveryUpdates session)).2.decisions)
    (hr : (commitAll (smallEnv compactEveryUpdates) [batch] (⟨auth, ownedDocument.store⟩,
      twoSeats compactEveryUpdates session)).2.revision ≤ idempotencyReceiptWindow)
    (hr' : (commitAll (smallEnv compactEveryUpdates) (oneByOne batch) (⟨auth, ownedDocument.store⟩,
      twoSeats compactEveryUpdates session)).2.revision ≤ idempotencyReceiptWindow) :
    Recut (smallEnv compactEveryUpdates) (id : OpLog → OpLog) ⟨auth, ownedDocument.store⟩
      (twoSeats compactEveryUpdates session) [batch] (oneByOne batch) where
  stored := stored_small
  same := by
    unfold sentFrames oneByOne
    rw [flatMap_map, flatMap_singleton]
    exact map_eq_flatMap.symm
  updates := updates_of_all hu
  decisions := hd
  window := ⟨by rwa [show (twoSeats compactEveryUpdates session).revision = 0 from rfl, Nat.zero_add],
    fun _ hrow => by cases hrow⟩
  window' := ⟨by rwa [show (twoSeats compactEveryUpdates session).revision = 0 from rfl, Nat.zero_add],
    fun _ hrow => by cases hrow⟩

def lapsingAuth : AuthorityTables :=
  { ownedDocument.auth with sessions := ownedDocument.auth.sessions ++ [⟨2, 1, 1, 5, none⟩] }

def lapsing : FrameBatch := ⟨[⟨1, updateFrame 1 2 0 97, 9⟩, ⟨2, updateFrame 2 3 0 98, 9⟩], 10⟩

def outOfOrder : FrameBatch :=
  ⟨[⟨1, updateFrame 1 2 0 97, 9⟩, ⟨1, updateFrame 2 2 1 98, 9⟩, ⟨1, updateFrame 3 2 3 99, 9⟩], 10⟩

end Marks
