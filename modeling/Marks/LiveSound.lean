import Marks.RoomsSound

/-! # One live replica

A room that is not dead holds the document at the durable revision, provided no other room of the
document was live when it was hydrated. Then a step of the task makes a list of commits durable, each
with the revision after the one before. -/

namespace Marks

open Room DocumentStore

variable {env : Env}

def Task.live {E : Engine} (task : Task E) : Bool :=
  match task.body with
  | .running room _ => room.dead.isNone
  | _ => false

def Server.HydratesAlone {E : Engine} (s : Server E) : Event → Prop
  | .hydrate .. => ∀ task ∈ s.tasks, task.live = false
  | _ => True

instance {E : Engine} (s : Server E) : ∀ e, Decidable (s.HydratesAlone e) := fun e =>
  match e with
  | .hydrate .. => inferInstanceAs (Decidable (∀ task ∈ s.tasks, task.live = false))
  | .authenticate .. | .authenticateScratch .. | .route .. | .admission .. | .dispatch .. | .lose ..
  | .join .. | .joinLookup .. | .joinCheck .. | .joinInsert .. | .joinSend .. | .joinTimeout ..
  | .joinDropped .. | .frame .. | .read .. | .readTimeout .. | .leave .. | .evict .. | .abandon ..
  | .control .. | .receive .. | .collect .. | .process .. | .stage .. | .commit .. | .idle ..
  | .cleanup .. | .shutdown | .crash => isTrue trivial

/-! ## What a step makes durable -/

/-- `store'` is `store` with the rows of some commits put in, less receipts out of the window. -/
structure Advanced (store store' : DocumentStore) (rows : List CommitRow) : Prop where
  sound : store'.Sound
  fresh : FreshIds store.commits rows
  sub : ∀ row ∈ store'.commits, row ∈ store.commits ∨ row ∈ rows
  window : ∀ row, row ∈ store.commits ∨ row ∈ rows →
    row ∈ store'.commits ∨ row.revision + idempotencyReceiptWindow < store'.revision

theorem Advanced.refl {store : DocumentStore} (hs : store.Sound) : Advanced store store [] where
  sound := hs
  fresh := ⟨List.Pairwise.nil, fun _ _ _ h => by cases h⟩
  sub := fun _ h => Or.inl h
  window := by
    intro row h
    rcases h with h | h
    · exact Or.inl h
    · cases h

def Phase.acks : Phase → List PendingAck
  | .staging _ batch => batch.pendingAcks
  | _ => []

def PreparedCommit.output (commit : PreparedCommit) : Output :=
  .durable commit.row commit.action.changes

/-- An acknowledgement, if it is one, of one of `commits` or one of `acks`. -/
def Output.Acks (commits : List PreparedCommit) (acks : List PendingAck) (o : Output) : Prop :=
  o.quiet ∨ ∃ conn receipt, o = .sent conn (.committed receipt) ∧
    ((∃ commit ∈ commits, commit.id = receipt.id ∧ commit.revision = receipt.revision) ∨
      ∃ ack ∈ acks, ack.id = receipt.id ∧ ack.revision = receipt.revision)

/-- One step of a live room made `commits` durable and then put out the rest, acknowledging
only those and what `acks` repeats. -/
structure Made (db : Database) (room : Room env.engine) (db' : Database) (after : Room env.engine)
    (commits : List PreparedCommit) (acks : List PendingAck) : Prop where
  numbered : Numbered db.store.revision commits db'.store.revision
  advanced : Advanced db.store db'.store (commits.map PreparedCommit.row)
  revision : after.dead = none → after.revision = db'.store.revision
  out : ∃ rest, after.out = room.out ++ commits.map PreparedCommit.output ++ rest ∧
    ∀ o ∈ rest, o.Acks commits acks

variable {db db' : Database} {room after : Room env.engine} {phase phase' : Phase}
  {acks : List PendingAck} {e : Event}

theorem made_quiet {P : Output → Prop} (hs : db.store.Sound) (hr : room.revision = db.store.revision)
    (h : SameReplica P room after) (hp : ∀ o, P o → o.Acks [] acks) :
    Made db room db after [] acks := by
  refine ⟨rfl, Advanced.refl hs, fun _ => h.revision.trans hr, ?_⟩
  obtain ⟨rest, hout, hrest⟩ := h.out
  refine ⟨rest, ?_, fun o ho => hp o (hrest o ho)⟩
  simp only [List.map_nil, List.append_nil, hout]

theorem made_compact (hs : db.store.Sound) (hr : room.revision = db.store.revision)
    (h : CompactStep db room db' after) : Made db room db' after [] acks := by
  have hf := h.fields
  have hout : ∃ rest, after.out = room.out ++ [].map PreparedCommit.output ++ rest ∧
      ∀ o ∈ rest, o.Acks [] acks := by
    refine ⟨[], ?_, fun _ ho => by cases ho⟩
    simp only [List.map_nil, List.append_nil, hf.2.2.2.1]
  cases h with
  | skipped => exact ⟨rfl, Advanced.refl hs, fun _ => hr, hout⟩
  | moved export_ tx after_eq =>
    rw [hr] at tx
    obtain ⟨-, rfl⟩ := compactTx_ok tx
    obtain ⟨hsound, hrev, hsub, hwindow⟩ := compactAt_sound hs _ (Nat.le_refl _)
    refine ⟨hrev, ⟨hsound, ?_, ?_, ?_⟩, ?_, hout⟩
    · exact ⟨List.Pairwise.nil, fun _ _ _ hn => by cases hn⟩
    · exact fun row hrow => Or.inl (hsub row hrow)
    · intro row hrow
      rcases hrow with hrow | hrow
      · rw [hrev]
        exact hwindow row hrow
      · cases hrow
    · intro _
      rw [hrev, hf.2.1, hr]

theorem made_document {document : env.engine.Doc} (hs : db.store.Sound)
    (hr : room.revision = db.store.revision)
    (h : SameReplica Output.quiet { room with document } after) :
    Made db room db after [] acks := by
  refine ⟨rfl, Advanced.refl hs, fun _ => h.revision.trans hr, ?_⟩
  obtain ⟨rest, hout, hrest⟩ := h.out
  refine ⟨rest, ?_, fun o ho => Or.inl (hrest o ho)⟩
  simp only [List.map_nil, List.append_nil, hout]

theorem Made.between {mid mid' : Room env.engine} {P Q : Output → Prop} {commits : List PreparedCommit}
    (h : Made db mid db' mid' commits acks) (hb : SameReplica P room mid)
    (ha : SameReplica Q mid' after) (hempty : commits = [])
    (hp : ∀ o, P o → o.Acks [] acks) (hq : ∀ o, Q o → o.Acks [] acks) :
    Made db room db' after [] acks := by
  rw [hempty] at h
  refine ⟨h.numbered, h.advanced, ?_, ?_⟩
  · intro hd
    rw [ha.revision]
    apply h.revision
    by_cases hm : mid'.dead = none
    · exact hm
    · have hsome := ha.dead (Option.isSome_iff_ne_none.mpr hm)
      rw [hd] at hsome
      cases hsome
  · obtain ⟨rest, hout, hrest⟩ := h.out
    obtain ⟨first, hfirst, hpfirst⟩ := hb.out
    obtain ⟨last, hlast, hqlast⟩ := ha.out
    refine ⟨first ++ rest ++ last, ?_, ?_⟩
    · simp only [hlast, hout, hfirst, List.map_nil, List.append_nil, List.append_assoc]
    intro o ho
    simp only [List.mem_append] at ho
    rcases ho with (ho | ho) | ho
    · exact hp o (hpfirst o ho)
    · exact hrest o ho
    · exact hq o (hqlast o ho)

theorem quiet_acks {commits : List PreparedCommit} {acks : List PendingAck} (o : Output) (h : o.quiet) :
    o.Acks commits acks := Or.inl h

theorem made_control (hs : db.store.Sound) (hr : room.revision = db.store.revision)
    (h : ControlStep db room db' after) : Made db room db' after [] acks := by
  cases h with
  | same same => exact made_quiet hs hr same quiet_acks
  | compacted keeps alive step keeps' =>
    exact (made_compact hs (keeps.revision.trans hr) step).between keeps.toSameReplica keeps'.toSameReplica rfl quiet_acks quiet_acks

theorem settle_fields (compact : Option Bytes) (batch : Batch) :
    (room.settle env compact batch).revision = batch.nextRevision ∧
      (room.settle env compact batch).out = room.out ∧
      (room.settle env compact batch).dead = room.dead := by
  unfold settle
  simp only
  split
  · unfold prune
    split <;> exact ⟨rfl, rfl, rfl⟩
  · exact ⟨rfl, rfl, rfl⟩

theorem made_commit {now : Millis} {batch : Batch} (hs : db.store.Sound)
    (hr : room.revision = db.store.revision)
    (hn : Numbered room.revision batch.prepared batch.nextRevision)
    (h : CommitStep db room now batch db' after) :
    Made db room db' after [] [] ∨ Made db room db' after batch.prepared batch.pendingAcks := by
  have hcommitted : ∀ {compact}, commitTx db room.epoch now batch.prepared compact batch.nextRevision =
      .ok db' → Numbered db.store.revision batch.prepared db'.store.revision ∧
        Advanced db.store db'.store (batch.prepared.map PreparedCommit.row) ∧
          db'.store.revision = batch.nextRevision := by
    intro compact tx
    rw [hr] at hn
    obtain ⟨hsound, hrev, hfresh, hsub, hwindow⟩ := commitTx_numbered hs hn tx
    exact ⟨by rw [hrev]; exact hn, ⟨hsound, hfresh, hsub, hwindow⟩, hrev⟩
  have hrecord : (room.recordDurable env true batch.prepared).out =
      room.out ++ batch.prepared.map PreparedCommit.output := rfl
  cases h with
  | aborted keeps dead => exact Or.inl (made_quiet hs hr keeps.toSameReplica quiet_acks)
  | lost export_ tx keeps dead =>
    obtain ⟨hnum, hadv, hrev⟩ := hcommitted tx
    refine Or.inr ⟨hnum, hadv, ?_, ?_⟩
    · intro hd
      rw [hd] at dead
      cases dead
    · obtain ⟨rest, hout, hrest⟩ := keeps.out
      exact ⟨rest, by rw [hout, hrecord], fun o ho => quiet_acks o (hrest o ho)⟩
  | done export_ tx keeps =>
    obtain ⟨hnum, hadv, hrev⟩ := hcommitted tx
    refine Or.inr ⟨hnum, hadv, ?_, ?_⟩
    · intro _
      rw [keeps.revision, (settle_fields _ batch).1, hrev]
    · obtain ⟨rest, hout, hrest⟩ := keeps.out
      exact ⟨rest, by rw [hout, (settle_fields _ batch).2.1, hrecord], hrest⟩

theorem TaskStep.made (h : TaskStep e db room phase db' after phase') (hs : db.store.Sound)
    (hd : room.dead = none) (hr : room.revision = db.store.revision)
    (hn : ∀ frames batch, phase = .staging frames batch →
      Numbered room.revision batch.prepared batch.nextRevision) :
    Made db room db' after [] [] ∨ Made db room db' after phase.prepared phase.acks := by
  cases h with
  | loop calm calm' step => exact Or.inl (made_control hs hr step)
  | start calm step => exact Or.inl (made_control hs hr step)
  | stage step =>
    refine Or.inl ?_
    cases step with
    | kept keeps => exact made_quiet hs hr keeps.toSameReplica quiet_acks
    | acked keeps again => exact made_quiet hs hr keeps.toSameReplica quiet_acks
    | poisoned keeps dead =>
      exact made_document hs hr keeps.toSameReplica
    | pushed alive carried keeps connected authorized unseen missing stages =>
      exact made_document hs hr keeps.toSameReplica
  | finish cause step =>
    cases step with
    | dead dead =>
      rw [hd] at dead
      cases dead
    | acked alive empty keeps =>
      refine Or.inr ?_
      simp only [Phase.prepared, empty]
      refine made_quiet hs hr keeps.toSameReplica fun o ho => ?_
      rcases ho with ho | ⟨conn, receipt, ho, hb⟩
      · exact Or.inl ho
      refine Or.inr ⟨conn, receipt, ho, ?_⟩
      rcases hb with ⟨commit, hc, -⟩ | hb
      · rw [empty] at hc
        cases hc
      · exact Or.inr hb
    | committed alive step => exact made_commit hs hr (hn _ _ rfl) step

theorem TaskStep.numbered (h : TaskStep e db room phase db' after phase')
    (hn : ∀ frames batch, phase = .staging frames batch →
      Numbered room.revision batch.prepared batch.nextRevision)
    {frames : List (ConnId × Bytes)} {batch : Batch} (hp : phase' = .staging frames batch)
    (hd : after.dead = none) : Numbered after.revision batch.prepared batch.nextRevision := by
  cases h with
  | loop calm calm' step =>
    rw [hp] at calm'
    exact absurd calm' (by simp [Phase.isStaging])
  | start calm step =>
    obtain ⟨-, rfl⟩ := Phase.staging.inj hp
    exact rfl
  | stage step =>
    obtain ⟨-, rfl⟩ := Phase.staging.inj hp
    have hold := hn _ _ rfl
    cases step with
    | kept keeps => rw [keeps.revision]; exact hold
    | acked keeps again => rw [keeps.revision]; exact hold
    | poisoned keeps dead =>
      rw [hd] at dead
      cases dead
    | pushed alive carried keeps connected authorized unseen missing stages =>
      rw [keeps.revision]
      exact numbered_snoc hold (stageMutation_staged stages).1
  | finish cause step => cases hp

/-! ## Every reachable state -/

namespace Server

structure Single (s : Server env.engine) : Prop extends Tidy s where
  sound : s.db.store.Sound
  alone : ∀ t room phase u room' phase', Runs s t room phase → room.dead = none →
    Runs s u room' phase' → room'.dead = none → t = u
  revision : ∀ t room phase, Runs s t room phase → room.dead = none →
    room.revision = s.db.store.revision
  numbered : ∀ t room frames batch, Runs s t room (.staging frames batch) → room.dead = none →
    Numbered room.revision batch.prepared batch.nextRevision

variable {s s' : Server env.engine} {t : TaskId}

theorem Runs.live (h : Runs s t room phase) (hd : room.dead = none) :
    ∃ task ∈ s.tasks, task.live = true := by
  obtain ⟨task, ht, hbody⟩ := h
  refine ⟨task, List.mem_of_getElem? ht, ?_⟩
  unfold Task.live
  simp only [hbody, hd, Option.isNone_none]

theorem not_live_of_alone {storage : Storage} (h : s.HydratesAlone (.hydrate t storage)) {u : TaskId}
    (hr : Runs s u room phase) : room.dead ≠ none := by
  intro hd
  obtain ⟨task, hmem, hlive⟩ := hr.live hd
  have hdead := h task hmem
  rw [hlive] at hdead
  cases hdead

theorem Single.numberedPhase (h : Single s) (hr : Runs s t room phase) (hd : room.dead = none) :
    ∀ frames batch, phase = .staging frames batch →
      Numbered room.revision batch.prepared batch.nextRevision := by
  intro frames batch hp
  rw [hp] at hr
  exact h.numbered t room frames batch hr hd

theorem Single.made (h : Single s) {db' : Database} (hr : Runs s t room phase) (hd : room.dead = none)
    (step : TaskStep e s.db room phase db' after phase') :
    ∃ commits acks, Made s.db room db' after commits acks ∧
      ((commits = [] ∧ acks = []) ∨ (commits = phase.prepared ∧ acks = phase.acks)) := by
  rcases step.made h.sound hd (h.revision t room phase hr hd) (h.numberedPhase hr hd) with made | made
  · exact ⟨_, _, made, Or.inl ⟨rfl, rfl⟩⟩
  · exact ⟨_, _, made, Or.inr ⟨rfl, rfl⟩⟩

theorem Single.effect (h : Single s) (hc : s.HydratesAlone e) (he : Effect s e s') : Single s' := by
  have htidy : Tidy s' := h.toTidy.effect he
  cases he with
  | aside aside reads =>
    refine ⟨htidy, by rw [aside.store]; exact h.sound, ?_, ?_, ?_⟩
    · intro t room phase u room' phase' hr hd hr' hd'
      exact h.alone t room phase u room' phase' (aside.runs _ _ _ hr) hd (aside.runs _ _ _ hr') hd'
    · intro t room phase hr hd
      rw [aside.store]
      exact h.revision t room phase (aside.runs _ _ _ hr) hd
    · intro t room frames batch hr hd
      exact h.numbered t room frames batch (aside.runs _ _ _ hr) hd
  | @hydrated t room cause store log hydrates fresh runs =>
    obtain ⟨storage, rfl⟩ := cause
    have honly : ∀ u r p, Runs s' u r p → r.dead = none → u = t ∧ r = room ∧ p = .idle := by
      intro u r p hr hd
      rcases runs u r p hr with hnew | ⟨-, hold⟩
      · exact hnew
      · exact absurd hd (not_live_of_alone hc hold)
    refine ⟨htidy, by rw [store]; exact h.sound, ?_, ?_, ?_⟩
    · intro u r p v r' p' hr hd hr' hd'
      rw [(honly u r p hr hd).1, (honly v r' p' hr' hd').1]
    · intro u r p hr hd
      rw [store, (honly u r p hr hd).2.1]
      exact hydrateDocument_revision h.sound hydrates
    · intro u r frames batch hr hd
      exact absurd (honly u r _ hr hd).2.2 (by simp)
  | @worked t db' room after phase phase' before step hdb log runs =>
    by_cases hlive : room.dead = none
    · obtain ⟨commits, acks, made, -⟩ := h.made before hlive step
      have honly : ∀ u r p, Runs s' u r p → r.dead = none →
          u = t ∧ r = { after with out := [] } ∧ p = phase' := by
        intro u r p hr hdead
        rcases runs u r p hr with hnew | ⟨hne, hold⟩
        · exact hnew
        · exact absurd (h.alone u r p t _ _ hold hdead before hlive) hne
      refine ⟨htidy, by rw [hdb]; exact made.advanced.sound, ?_, ?_, ?_⟩
      · intro u r p v r' p' hr hdead hr' hdead'
        rw [(honly u r p hr hdead).1, (honly v r' p' hr' hdead').1]
      · intro u r p hr hdead
        obtain ⟨-, heq, -⟩ := honly u r p hr hdead
        rw [heq] at hdead ⊢
        rw [hdb]
        exact made.revision hdead
      · intro u r frames batch hr hdead
        obtain ⟨-, heq, hphase⟩ := honly u r _ hr hdead
        rw [heq] at hdead ⊢
        exact step.numbered (h.numberedPhase before hlive) hphase.symm hdead
    · have hdead : ∀ r p, Runs s' t r p → r.dead ≠ none := by
        intro r p hr hnone
        rcases runs t r p hr with ⟨-, heq, -⟩ | ⟨hne, -⟩
        · rw [heq] at hnone
          exact hlive (step.alive hnone)
        · exact hne rfl
      have hsame : s'.db = s.db := by
        rw [hdb]
        exact (step.dead (Option.isSome_iff_ne_none.mpr hlive)).2.1
      have hold : ∀ u r p, Runs s' u r p → r.dead = none → Runs s u r p := by
        intro u r p hr hnone
        rcases runs u r p hr with ⟨hu, -, -⟩ | ⟨-, hr'⟩
        · rw [hu] at hr
          exact absurd hnone (hdead r p hr)
        · exact hr'
      refine ⟨htidy, by rw [hsame]; exact h.sound, ?_, ?_, ?_⟩
      · intro u r p v r' p' hr hn hr' hn'
        exact h.alone u r p v r' p' (hold u r p hr hn) hn (hold v r' p' hr' hn') hn'
      · intro u r p hr hn
        rw [hsame]
        exact h.revision u r p (hold u r p hr hn) hn
      · intro u r frames batch hr hn
        exact h.numbered u r frames batch (hold u r _ hr hn) hn

theorem single_init {db : Database} (hs : db.store.Sound) : Single (init env db) := by
  have hnone : ∀ t room phase, ¬ Runs (init env db) t room phase := by
    intro t room phase ⟨task, htask, _⟩
    cases htask
  refine ⟨⟨?_, ?_⟩, hs, ?_, ?_, ?_⟩
  · exact fun t room phase hr => absurd hr (hnone t room phase)
  · exact fun t room frames batch hr => absurd hr (hnone t room _)
  · exact fun t room phase _ _ _ hr => absurd hr (hnone t room phase)
  · exact fun t room phase hr => absurd hr (hnone t room phase)
  · exact fun t room frames batch hr => absurd hr (hnone t room _)

end Server

theorem Created.sound {db : Database} (h : Created db) : db.store.Sound where
  sorted := by rw [h.updates]; exact List.Pairwise.nil
  above := by rw [h.updates]; exact fun _ hr => by cases hr

theorem Created.revision {db : Database} (h : Created db) : db.store.revision = 0 := by
  unfold DocumentStore.revision
  rw [h.updates, h.snapshotRevision]
  rfl

end Marks
