import Marks.LiveSound
import Marks.OpLog

/-! # Exactly-once commit

The log keeps every row that became durable and every receipt that was sent. While one room at a time
is live, an id is bound to one row within the receipt window, receipts follow their rows, and the
revisions of document changes count up from one. -/

namespace Marks

open Room List

/-! ## The log of commits -/

def Entry.row : Entry → Option CommitRow
  | .room _ (.durable row _) => some row
  | _ => none

def Entry.changedRevision : Entry → Option Nat
  | .room _ (.durable row true) => some row.revision
  | _ => none

def rows (log : List Entry) : List CommitRow := log.filterMap Entry.row

def changedRevisions (log : List Entry) : List Nat := log.filterMap Entry.changedRevision

def Spaced (a b : CommitRow) : Prop :=
  a.messageId = b.messageId → a.revision + idempotencyReceiptWindow < b.revision

def Acknowledged (log : List Entry) : Prop :=
  ∀ before t conn receipt rest, log = before ++ .room t (.sent conn (.committed receipt)) :: rest →
    ∃ row ∈ rows before, row.messageId = receipt.id ∧ row.revision = receipt.revision

/-- **Exactly-once commit.** What the log of a run says of ids, receipts and revisions. -/
structure ExactlyOnce (log : List Entry) : Prop where
  bound : (rows log).Pairwise Spaced
  acknowledged : Acknowledged log
  consecutive : ∃ last, changedRevisions log = List.range' 1 last

variable {log extra : List Entry} {t : TaskId} {commits : List PreparedCommit}

@[simp] theorem rows_append : rows (log ++ extra) = rows log ++ rows extra := filterMap_append

@[simp] theorem changedRevisions_append :
    changedRevisions (log ++ extra) = changedRevisions log ++ changedRevisions extra :=
  filterMap_append

theorem not_room {entry : Entry} (h : entry.isRoom = false) :
    entry.row = none ∧ entry.changedRevision = none := by
  cases entry with
  | room task output => exact absurd h (by simp [Entry.isRoom])
  | answered call result live => exact ⟨rfl, rfl⟩
  | read task answer => exact ⟨rfl, rfl⟩

theorem acks_row {acks : List PendingAck} {o : Output} (h : o.Acks commits acks) :
    (Entry.room t o).row = none ∧ (Entry.room t o).changedRevision = none := by
  rcases h with h | ⟨conn, receipt, rfl, -⟩
  · cases o with
    | durable row changed => exact absurd h (by simp [Output.quiet])
    | rate conn allowed => exact ⟨rfl, rfl⟩
    | sent conn message => exact ⟨rfl, rfl⟩
  · exact ⟨rfl, rfl⟩

theorem rows_silent (h : ∀ entry ∈ extra, entry.row = none ∧ entry.changedRevision = none) :
    rows extra = [] ∧ changedRevisions extra = [] := by
  refine ⟨filterMap_eq_nil_iff.mpr ?_, filterMap_eq_nil_iff.mpr ?_⟩
  · exact fun entry hmem => (h entry hmem).1
  · exact fun entry hmem => (h entry hmem).2

theorem rows_outputs (commits : List PreparedCommit) :
    rows ((commits.map PreparedCommit.output).map (.room t)) = commits.map PreparedCommit.row := by
  induction commits with
  | nil => rfl
  | cons commit commits ih =>
    have hcons := congrArg (commit.row :: ·) ih
    exact hcons

theorem changedRevisions_outputs {revision last : Nat} (h : Numbered revision commits last) :
    changedRevisions ((commits.map PreparedCommit.output).map (.room t)) =
      List.range' (revision + 1) (last - revision) := by
  induction commits generalizing revision with
  | nil =>
    have hl : last = revision := h
    rw [hl, Nat.sub_self]
    rfl
  | cons commit commits ih =>
    obtain ⟨hc, hrest⟩ := h
    have hle := (numbered_le hrest).1
    have htail := ih hrest
    by_cases hch : commit.action.changes = true
    · rw [if_pos hch] at hc
      have hhead : changedRevisions (((commit :: commits).map PreparedCommit.output).map (.room t)) =
          commit.revision ::
            changedRevisions ((commits.map PreparedCommit.output).map (.room t)) := by
        simp only [map_cons, changedRevisions, PreparedCommit.output, hch]
        rfl
      have hcount : last - revision = last - commit.revision + 1 := by omega
      rw [hhead, htail, hcount, range'_succ, hc]
    · rw [if_neg hch] at hc
      have hskip : changedRevisions (((commit :: commits).map PreparedCommit.output).map (.room t)) =
          changedRevisions ((commits.map PreparedCommit.output).map (.room t)) := by
        have hfalse : commit.action.changes = false := by simpa using hch
        simp only [map_cons, changedRevisions, PreparedCommit.output, hfalse]
        rfl
      rw [hskip, htail, hc]

theorem acknowledged_append (h : Acknowledged log)
    (he : ∀ entry ∈ extra, ∀ u conn receipt, entry = .room u (.sent conn (.committed receipt)) →
      ∃ row ∈ rows log, row.messageId = receipt.id ∧ row.revision = receipt.revision) :
    Acknowledged (log ++ extra) := by
  intro before u conn receipt rest heq
  rcases append_eq_append_iff.mp heq with ⟨middle, hbefore, hextra⟩ | ⟨middle, hlog, hrest⟩
  · have hmem : Entry.room u (.sent conn (.committed receipt)) ∈ extra := by
      rw [hextra]
      exact mem_append_right _ mem_cons_self
    obtain ⟨row, hrow, hb⟩ := he _ hmem u conn receipt rfl
    refine ⟨row, ?_, hb⟩
    rw [hbefore, rows_append]
    exact mem_append_left _ hrow
  · cases middle with
    | nil =>
      have hmem : Entry.room u (.sent conn (.committed receipt)) ∈ extra := by
        rw [nil_append] at hrest
        rw [← hrest]
        exact mem_cons_self
      obtain ⟨row, hrow, hb⟩ := he _ hmem u conn receipt rfl
      rw [append_nil] at hlog
      exact ⟨row, by rw [← hlog]; exact hrow, hb⟩
    | cons entry middle =>
      obtain ⟨hentry, -⟩ := List.cons.inj hrest
      exact h before u conn receipt middle (by rw [hlog, ← hentry])

/-! ## The log and the store -/

structure LogOk (store : DocumentStore) (log : List Entry) : Prop where
  known : ∀ row ∈ store.commits, row ∈ rows log
  window : ∀ row ∈ rows log, row ∈ store.commits ∨
    row.revision + idempotencyReceiptWindow < store.revision
  bound : (rows log).Pairwise Spaced
  acknowledged : Acknowledged log
  consecutive : changedRevisions log = List.range' 1 store.revision

/-- An acknowledgement repeats one of `commits` or a row of the log. -/
def Repeated (log : List Entry) (commits : List PreparedCommit) (ack : PendingAck) : Prop :=
  (∃ commit ∈ commits, commit.id = ack.id ∧ commit.revision = ack.revision) ∨
    ∃ row ∈ rows log, row.messageId = ack.id ∧ row.revision = ack.revision

variable {store store' : DocumentStore} {acks : List PendingAck} {rest : List Output}

theorem acknowledged_made (h : Acknowledged log) (hrest : ∀ o ∈ rest, o.Acks commits acks)
    (hacks : ∀ ack ∈ acks, Repeated log commits ack) (hextra : ∀ entry ∈ extra, entry.isRoom = false) :
    Acknowledged (log ++ (commits.map PreparedCommit.output ++ rest).map (.room t) ++ extra) := by
  have hdurable : Acknowledged (log ++ (commits.map PreparedCommit.output).map (.room t)) := by
    refine acknowledged_append h fun entry hmem u conn receipt heq => ?_
    obtain ⟨o, ho, rfl⟩ := mem_map.mp hmem
    obtain ⟨commit, -, rfl⟩ := mem_map.mp ho
    exact absurd heq (by simp [PreparedCommit.output])
  have hsent : Acknowledged (log ++ (commits.map PreparedCommit.output).map (.room t) ++
      rest.map (.room t)) := by
    refine acknowledged_append hdurable fun entry hmem u conn receipt heq => ?_
    obtain ⟨o, ho, rfl⟩ := mem_map.mp hmem
    obtain ⟨-, rfl⟩ := Entry.room.inj heq
    have hcommit : ∀ commit ∈ commits, commit.id = receipt.id → commit.revision = receipt.revision →
        ∃ row ∈ rows (log ++ (commits.map PreparedCommit.output).map (.room t)),
          row.messageId = receipt.id ∧ row.revision = receipt.revision := by
      intro commit hc hid hrev
      refine ⟨commit.row, ?_, hid, hrev⟩
      rw [rows_append, rows_outputs]
      exact mem_append_right _ (mem_map.mpr ⟨commit, hc, rfl⟩)
    rcases hrest _ ho with hquiet | ⟨conn', receipt', heq', hb⟩
    · exact absurd hquiet (by simp [Output.quiet])
    obtain ⟨-, hreceipt⟩ := Output.sent.inj heq'
    have hr : receipt = receipt' := OutMsg.committed.inj hreceipt
    rw [← hr] at hb
    rcases hb with ⟨commit, hc, hid, hrev⟩ | ⟨ack, ha, hid, hrev⟩
    · exact hcommit commit hc hid hrev
    rcases hacks ack ha with ⟨commit, hc, hid', hrev'⟩ | ⟨row, hrow, hid', hrev'⟩
    · exact hcommit commit hc (hid'.trans hid) (hrev'.trans hrev)
    · refine ⟨row, ?_, hid'.trans hid, hrev'.trans hrev⟩
      rw [rows_append]
      exact mem_append_left _ hrow
  rw [map_append, ← append_assoc]
  refine acknowledged_append hsent fun entry hmem u conn receipt heq => ?_
  have hroom := hextra entry hmem
  rw [heq] at hroom
  exact absurd hroom (by simp [Entry.isRoom])

theorem LogOk.made (h : LogOk store log) (hn : Numbered store.revision commits store'.revision)
    (ha : Advanced store store' (commits.map PreparedCommit.row))
    (hrest : ∀ o ∈ rest, o.Acks commits acks) (hacks : ∀ ack ∈ acks, Repeated log commits ack)
    (hextra : ∀ entry ∈ extra, entry.isRoom = false) :
    LogOk store' (log ++ (commits.map PreparedCommit.output ++ rest).map (.room t) ++ extra) := by
  obtain ⟨hle, hrange⟩ := numbered_le hn
  have hsilent : ∀ entry ∈ rest.map (Entry.room t), entry.row = none ∧ entry.changedRevision = none := by
    intro entry hmem
    obtain ⟨o, ho, rfl⟩ := mem_map.mp hmem
    exact acks_row (hrest o ho)
  have hquiet : ∀ entry ∈ extra, entry.row = none ∧ entry.changedRevision = none :=
    fun entry hmem => not_room (hextra entry hmem)
  have hrows : rows (log ++ (commits.map PreparedCommit.output ++ rest).map (.room t) ++ extra) =
      rows log ++ commits.map PreparedCommit.row := by
    simp only [map_append, rows_append, rows_outputs, (rows_silent hsilent).1,
      (rows_silent hquiet).1, append_nil]
  have hrevs : changedRevisions
      (log ++ (commits.map PreparedCommit.output ++ rest).map (.room t) ++ extra) =
        changedRevisions log ++ List.range' (store.revision + 1) (store'.revision - store.revision) := by
    simp only [map_append, changedRevisions_append, changedRevisions_outputs hn,
      (rows_silent hsilent).2, (rows_silent hquiet).2, append_nil]
  have hlater : ∀ new ∈ commits.map PreparedCommit.row, store.revision ≤ new.revision := by
    intro new hnew
    obtain ⟨commit, hc, rfl⟩ := mem_map.mp hnew
    exact (hrange commit hc).1
  refine ⟨?_, ?_, ?_, acknowledged_made h.acknowledged hrest hacks hextra, ?_⟩
  · intro row hrow
    rw [hrows]
    rcases ha.sub row hrow with hrow | hrow
    · exact mem_append_left _ (h.known row hrow)
    · exact mem_append_right _ hrow
  · intro row hrow
    rw [hrows] at hrow
    rcases mem_append.mp hrow with hrow | hrow
    · rcases h.window row hrow with hkept | hgone
      · exact ha.window row (Or.inl hkept)
      · exact Or.inr (by omega)
    · exact ha.window row (Or.inr hrow)
  · rw [hrows]
    refine pairwise_append.mpr ⟨h.bound, ?_, ?_⟩
    · exact ha.fresh.1.imp fun hne heq => absurd heq hne
    intro row hrow new hnew heq
    rcases h.window row hrow with hkept | hgone
    · exact absurd heq (ha.fresh.2 row hkept new hnew)
    · have := hlater new hnew
      omega
  · rw [hrevs, h.consecutive, Nat.add_comm store.revision 1, range'_append_1]
    congr 1
    omega

/-! ## Every reachable state -/

structure BatchOk (log : List Entry) (batch : Batch) : Prop where
  seen : ∀ prior ∈ batch.seen, ∃ commit ∈ batch.prepared,
    commit.id = prior.id ∧ commit.revision = prior.revision
  acks : ∀ ack ∈ batch.pendingAcks, Repeated log batch.prepared ack

theorem repeated_mono {log' : List Entry} {commits' : List PreparedCommit} {ack : PendingAck}
    (hl : ∀ row ∈ rows log, row ∈ rows log') (hc : ∀ commit ∈ commits, commit ∈ commits')
    (h : Repeated log commits ack) : Repeated log' commits' ack := by
  rcases h with ⟨commit, hcommit, hb⟩ | ⟨row, hrow, hb⟩
  · exact Or.inl ⟨commit, hc commit hcommit, hb⟩
  · exact Or.inr ⟨row, hl row hrow, hb⟩

theorem BatchOk.mono {log' : List Entry} {batch : Batch} (h : BatchOk log batch)
    (hl : ∀ row ∈ rows log, row ∈ rows log') : BatchOk log' batch where
  seen := h.seen
  acks := fun ack ha => repeated_mono hl (fun _ hc => hc) (h.acks ack ha)

variable {env : Env} {e : Event}

theorem BatchOk.frame {db : Database} {room after : Room env.engine} {batch batch' : Batch}
    {frame : Inbound} (h : BatchOk log batch) (hk : ∀ row ∈ db.store.commits, row ∈ rows log)
    (step : FrameStep db room batch frame after batch') : BatchOk log batch' := by
  cases step with
  | kept keeps => exact h
  | poisoned keeps dead => exact h
  | acked keeps again =>
    refine ⟨h.seen, fun ack ha => ?_⟩
    rcases mem_append.mp ha with ha | ha
    · exact h.acks ack ha
    rw [mem_singleton.mp ha]
    rcases again with ⟨prior, hprior, hid, hrev⟩ | ⟨row, hrow, hb⟩
    · obtain ⟨commit, hc, hid', hrev'⟩ := h.seen prior hprior
      exact Or.inl ⟨commit, hc, hid'.trans hid, hrev'.trans hrev⟩
    · exact Or.inr ⟨row, hk row hrow, hb⟩
  | pushed alive carried keeps connected authorized unseen missing stages =>
    refine ⟨fun prior hprior => ?_, fun ack ha => ?_⟩
    · rcases mem_append.mp hprior with hprior | hprior
      · obtain ⟨commit, hc, hb⟩ := h.seen prior hprior
        exact ⟨commit, mem_append_left _ hc, hb⟩
      · rw [mem_singleton.mp hprior]
        exact ⟨_, mem_append_right _ (mem_singleton.mpr rfl), rfl, rfl⟩
    · exact repeated_mono (fun _ hr => hr) (fun _ hc => mem_append_left _ hc) (h.acks ack ha)

theorem TaskStep.batchOk {db db' : Database} {room after : Room env.engine} {phase phase' : Phase}
    (h : TaskStep e db room phase db' after phase') (hk : ∀ row ∈ db.store.commits, row ∈ rows log)
    (hb : ∀ frames batch, phase = .staging frames batch → BatchOk log batch)
    {frames : List (ConnId × Bytes)} {batch : Batch} (hp : phase' = .staging frames batch) :
    BatchOk log batch := by
  cases h with
  | loop calm calm' step =>
    rw [hp] at calm'
    exact absurd calm' (by simp [Phase.isStaging])
  | start calm step =>
    obtain ⟨-, rfl⟩ := Phase.staging.inj hp
    exact ⟨fun _ h => absurd h not_mem_nil, fun _ h => absurd h not_mem_nil⟩
  | stage step =>
    obtain ⟨-, rfl⟩ := Phase.staging.inj hp
    exact (hb _ _ rfl).frame hk step
  | finish cause step => cases hp

namespace Server

structure CommitInv (s : Server env.engine) : Prop extends Single s where
  log : LogOk s.db.store s.log
  batch : ∀ t room frames batch, Runs s t room (.staging frames batch) → room.dead = none →
    BatchOk s.log batch

variable {s s' : Server env.engine}

theorem Rest.logOk (h : Rest s s') (hs : s.db.store.Sound) (hl : LogOk s.db.store s.log) :
    LogOk s'.db.store s'.log := by
  obtain ⟨extra, hlog, hextra⟩ := h.log
  have hn : Numbered s.db.store.revision [] s.db.store.revision := rfl
  have hnone : ∀ o ∈ ([] : List Output), o.Acks [] [] := fun _ ho => by cases ho
  have hmade := LogOk.made (t := 0) hl hn (Advanced.refl hs) hnone (fun _ ha => by cases ha) hextra
  rw [h.store, hlog]
  simpa using hmade

theorem CommitInv.effect (h : CommitInv s) (hc : s.HydratesAlone e) (he : Effect s e s') :
    CommitInv s' := by
  have hsingle : Single s' := h.toSingle.effect hc he
  cases he with
  | aside aside reads =>
    obtain ⟨extra, hlog, -⟩ := aside.log
    refine ⟨hsingle, aside.logOk h.sound h.log, fun t room frames batch hr hd => ?_⟩
    refine (h.batch t room frames batch (aside.runs _ _ _ hr) hd).mono fun row hrow => ?_
    rw [hlog, rows_append]
    exact mem_append_left _ hrow
  | @hydrated t room cause store log hydrates fresh runs =>
    refine ⟨hsingle, by rw [store, log]; exact h.log, fun u r frames batch hr hd => ?_⟩
    rcases runs u r _ hr with ⟨-, -, hp⟩ | ⟨-, hold⟩
    · cases hp
    · rw [log]
      exact h.batch u r frames batch hold hd
  | @worked t db' room after phase phase' before step hdb log runs =>
    obtain ⟨extra, hlog, hanswered⟩ := log
    have hextra : ∀ entry ∈ extra, entry.isRoom = false :=
      fun entry hmem => not_room_of_answered (hanswered entry hmem)
    by_cases hlive : room.dead = none
    · obtain ⟨commits, acks, made, hwhich⟩ := h.made before hlive step
      obtain ⟨rest, hout, hrest⟩ := made.out
      rw [h.out t room phase before, nil_append] at hout
      have hacks : ∀ ack ∈ acks, Repeated s.log commits ack := by
        intro ack ha
        rcases hwhich with ⟨-, hnil⟩ | ⟨hcommits, hphase⟩
        · rw [hnil] at ha
          cases ha
        rw [hphase] at ha
        rw [hcommits]
        cases phase with
        | staging frames batch => exact (h.batch t room frames batch before hlive).acks ack ha
        | idle => cases ha
        | collecting frames => cases ha
      refine ⟨hsingle, ?_, ?_⟩
      · rw [hdb, hlog, hout]
        exact h.log.made made.numbered made.advanced hrest hacks hextra
      intro u r frames batch hr hd
      rcases runs u r _ hr with ⟨hu, hroom, hp⟩ | ⟨hne, hold⟩
      · rw [hroom] at hd
        refine (step.batchOk h.log.known (fun frames batch heq => ?_) hp.symm).mono ?_
        · rw [heq] at before
          exact h.batch t room frames batch before hlive
        · intro row hrow
          rw [hlog, append_assoc, rows_append]
          exact mem_append_left _ hrow
      · exact absurd (h.alone u r _ t room phase hold hd before hlive) hne
    · obtain ⟨hdead, hsame, rest, hout, hrest⟩ := step.dead (Option.isSome_iff_ne_none.mpr hlive)
      rw [h.out t room phase before, nil_append] at hout
      refine ⟨hsingle, ?_, ?_⟩
      · have hn : Numbered s.db.store.revision [] s.db.store.revision := rfl
        have hquiet : ∀ o ∈ rest, o.Acks [] [] := fun o ho => quiet_acks o (hrest o ho)
        rw [hdb, hsame, hlog, hout]
        exact LogOk.made h.log hn (Advanced.refl h.sound) hquiet (fun _ ha => by cases ha) hextra
      · intro u r frames batch hr hd
        rcases runs u r _ hr with ⟨-, hroom, -⟩ | ⟨-, hold⟩
        · rw [hroom] at hd
          exact absurd hd (Option.isSome_iff_ne_none.mp hdead)
        · refine (h.batch u r frames batch hold hd).mono fun row hrow => ?_
          rw [hlog, append_assoc, rows_append]
          exact mem_append_left _ hrow

theorem commitInv_init {db : Database} (h : Created db) : CommitInv (init env db) := by
  refine ⟨single_init h.sound, ⟨?_, ?_, List.Pairwise.nil, ?_, ?_⟩, ?_⟩
  · intro row hrow
    simp only [init, h.commits] at hrow
    exact absurd hrow not_mem_nil
  · exact fun row hrow => absurd hrow not_mem_nil
  · intro before t conn receipt rest heq
    exact absurd heq (by simp [init])
  · simp only [init, h.revision]
    rfl
  · rintro t room frames batch ⟨task, htask, -⟩
    exact absurd htask (by simp [init])

theorem commitInv_kept :
    Transition.Kept (fun s e => Server.step env s e) Server.HydratesAlone
      (CommitInv : Server env.engine → Prop) :=
  fun _ e h hc => h.effect hc (step_effect h.toTidy e)

end Server

/-- **Exactly-once commit**, for every run in which no room is hydrated beside a live one. -/
theorem commit_exactly_once (env : Env) (db : Database) (hdb : Created db) (events : List Event)
    (halone : Transition.Along (fun s e => Server.step env s e) Server.HydratesAlone
      (Server.init env db) events) :
    ExactlyOnce (Server.after env db events).log := by
  have hinv := Transition.run_inv Server.commitInv_kept (Server.commitInv_init hdb) halone
  exact ⟨hinv.log.bound, hinv.log.acknowledged, _, hinv.log.consecutive⟩

def retrying : List Event :=
  asking 1 0 ++ opening 0 0 ++ staging 0 1 [updateFrame 1 2 0 97, updateFrame 1 2 0 97] ++
    [.commit 0 .ok 0] ++ staging 0 1 [updateFrame 1 2 0 97] ++ [.commit 0 .ok 0]

theorem retrying_exactly_once : ExactlyOnce (Server.after (smallEnv 4) ownedDocument retrying).log :=
  commit_exactly_once (smallEnv 4) ownedDocument ownedDocument_created retrying (by decide +kernel)

/-- Both rooms commit revision 1. -/
theorem overlapping_not_exactly_once :
    Created ownedDocument ∧ ¬ ExactlyOnce (Server.after (smallEnv 4) ownedDocument overlapping).log := by
  refine ⟨ownedDocument_created, fun h => ?_⟩
  have hrevisions : changedRevisions (Server.after (smallEnv 4) ownedDocument overlapping).log =
      [1, 2, 3, 4, 1] := by decide +kernel
  obtain ⟨last, hlast⟩ := h.consecutive
  rw [hrevisions] at hlast
  have hlen : last = 5 := by simpa using (congrArg List.length hlast).symm
  rw [hlen] at hlast
  cases hlast

end Marks
