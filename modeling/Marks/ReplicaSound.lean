import Marks.LiveSound
import Marks.OpLog

/-! # The live replica is the durable one

Under the laws of the engine the store hydrates to the content a live room had before its open batch,
and replaying the batch gives the content it has now. So a room without one agrees with the database,
and so does what it answers to a read. -/

namespace Marks

open Room DocumentStore

variable {prepared : List PreparedCommit}

section
variable {env : Env} {κ : Type} {content : env.engine.Doc → κ} (laws : env.engine.Lawful content)
include laws

/-! ## Staging -/

variable {batch : Batch} {site : SiteId}

variable {payload : Bytes} {document : env.engine.Doc}

theorem stageUpdate_replays {room : Room env.engine}
    {staged : Staged}
    (h : room.stageUpdate env batch site payload = .staged document staged) :
    ActionReplays env.engine content room.document staged.action document := by
  unfold stageUpdate at h
  simp only at h
  split at h
  · rename_i update hdecode
    split at h
    · cases ha : env.engine.applyUpdate room.document update with
      | none => rw [ha] at h; cases h
      | some result =>
        obtain ⟨after, receipt⟩ := result
        rw [ha] at h
        simp only at h
        cases hj : receipt.journalBytes with
        | none =>
          rw [hj] at h
          obtain ⟨rfl, rfl⟩ := Staging.staged.inj h
          exact laws.update_unchanged _ _ _ _ ha hj
        | some journal =>
          rw [hj] at h
          simp only at h
          split at h
          · cases h
          · obtain ⟨rfl, rfl⟩ := Staging.staged.inj h
            exact laws.update_journal _ _ _ _ _ ha hj
    · cases h
  · cases h

theorem stageSnapshot_replays {room : Room env.engine}
    {staged : Staged}
    (h : room.stageSnapshot env batch site payload = .staged document staged) :
    ActionReplays env.engine content room.document staged.action document := by
  unfold stageSnapshot at h
  simp only at h
  split at h
  · cases h
  split at h
  · cases h
  cases ha : env.engine.applySnapshotBytes room.document payload with
  | none => rw [ha] at h; cases h
  | some result =>
    obtain ⟨after, version⟩ := result
    rw [ha] at h
    simp only at h
    split at h
    · rename_i hv
      obtain ⟨rfl, rfl⟩ := Staging.staged.inj h
      exact laws.snapshot_unchanged _ _ _ _ ha hv
    cases he : env.engine.exportCompactSnapshot after with
    | none => rw [he] at h; cases h
    | some compact =>
      rw [he] at h
      simp only at h
      split at h
      · cases h
      · obtain ⟨rfl, rfl⟩ := Staging.staged.inj h
        exact laws.compact_rebuilds _ _ he

theorem stageMutation_replays {room : Room env.engine}
    {mutation : Mutation} {staged : Staged}
    (h : room.stageMutation env batch site mutation = .staged document staged) :
    ActionReplays env.engine content room.document staged.action document := by
  unfold stageMutation at h
  cases hk : mutation.kind with
  | update =>
    rw [hk] at h
    exact stageUpdate_replays laws h
  | snapshot =>
    rw [hk] at h
    exact stageSnapshot_replays laws h

theorem prune_content (room : Room env.engine) :
    content (room.prune env).document = content room.document := by
  unfold prune
  split
  · rename_i document hp
    exact laws.prune_content _ _ _ hp
  · rfl

theorem settle_content (room : Room env.engine) (compact : Option Bytes) (batch : Batch) :
    content (room.settle env compact batch).document = content room.document := by
  unfold settle
  simp only
  split
  · exact prune_content laws _
  · rfl

/-! ## One step -/

/-- The store hydrates to what the room had before `prepared`, which replays to what it has. -/
def Mirrors (content : env.engine.Doc → κ) (store : DocumentStore) (room : Room env.engine)
    (prepared : List PreparedCommit) : Prop :=
  ∃ before, HydratesTo env.engine content store (content before) ∧
    Replays env.engine content before prepared room.document

variable {db db' : Database} {room after : Room env.engine}

omit laws in
theorem Mirrors.congr {store : DocumentStore}
    (h : Mirrors content store room prepared) (hc : content after.document = content room.document) :
    Mirrors content store after prepared := by
  obtain ⟨before, hh, hr⟩ := h
  exact ⟨before, hh, replays_content hr hc⟩

omit laws in
theorem Mirrors.hydrates {store : DocumentStore} (h : Mirrors content store room []) :
    HydratesTo env.engine content store (content room.document) := by
  obtain ⟨before, hh, hr⟩ := h
  have hc : content room.document = content before := hr
  rw [hc]
  exact hh

omit laws in
theorem mirrors_of_hydrates {store : DocumentStore}
    (h : HydratesTo env.engine content store (content room.document)) : Mirrors content store room [] :=
  ⟨room.document, h, rfl⟩

theorem compact_mirrors (hs : db.store.Sound) (hr : room.revision = db.store.revision)
    (h : Mirrors content db.store room []) (step : CompactStep db room db' after) :
    Mirrors content db'.store after [] := by
  cases step with
  | skipped => exact h
  | moved export_ tx after_eq =>
    rw [hr] at tx
    have hh := compactTx_hydrates hs (laws.compact_rebuilds _ _ export_) tx
    refine (mirrors_of_hydrates hh).congr ?_
    rcases after_eq with heq | heq
    · rw [heq]
    · rw [heq]
      exact prune_content laws _

theorem control_mirrors (hs : db.store.Sound) (hr : room.revision = db.store.revision)
    (h : Mirrors content db.store room []) (step : ControlStep db room db' after) :
    Mirrors content db'.store after [] := by
  cases step with
  | same same => exact h.congr (by rw [same.document])
  | compacted keeps alive step keeps' =>
    have hmid := compact_mirrors laws hs (keeps.revision.trans hr) (h.congr (by rw [keeps.document])) step
    exact hmid.congr (by rw [keeps'.document])

theorem commit_mirrors {now : Millis} (hs : db.store.Sound)
    (hn : Numbered db.store.revision batch.prepared batch.nextRevision)
    (h : Mirrors content db.store room batch.prepared) (step : CommitStep db room now batch db' after)
    (hd : after.dead = none) : Mirrors content db'.store after [] := by
  obtain ⟨before, hh, hreplays⟩ := h
  cases step with
  | aborted keeps dead => exact absurd hd (Option.isSome_iff_ne_none.mp dead)
  | lost export_ tx keeps dead => exact absurd hd (Option.isSome_iff_ne_none.mp dead)
  | done export_ tx keeps =>
    rename_i compact
    have hdoc : ∀ snapshot, compact = some snapshot → env.engine.Rebuilds content snapshot room.document := by
      intro snapshot heq
      rw [heq] at export_
      unfold batchSnapshot at export_
      split at export_
      · obtain ⟨bytes, hb, hsome⟩ := Option.map_eq_some_iff.mp export_
        cases hsome
        exact laws.compact_rebuilds _ _ hb
      · cases export_
    have hstore := commitTx_hydrates hs hn hh hreplays hdoc tx
    refine (mirrors_of_hydrates hstore).congr ?_
    rw [keeps.document]
    exact settle_content laws _ _ batch

theorem TaskStep.mirrors {e : Event} {phase phase' : Phase} (step : TaskStep e db room phase db' after phase')
    (hs : db.store.Sound) (hr : room.revision = db.store.revision)
    (hn : ∀ frames batch, phase = .staging frames batch →
      Numbered room.revision batch.prepared batch.nextRevision)
    (h : Mirrors content db.store room phase.prepared) (hd : after.dead = none) :
    Mirrors content db'.store after phase'.prepared := by
  have hcalm : ∀ phase : Phase, phase.isStaging = false → phase.prepared = [] := by
    intro phase hp
    cases phase with
    | idle => rfl
    | collecting frames => rfl
    | staging frames batch => exact absurd hp (by simp [Phase.isStaging])
  cases step with
  | loop calm calm' step =>
    rw [hcalm _ calm] at h
    rw [hcalm _ calm']
    exact control_mirrors laws hs hr h step
  | start calm step =>
    rw [hcalm _ calm] at h
    exact control_mirrors laws hs hr h step
  | stage step =>
    cases step with
    | kept keeps => exact h.congr (by rw [keeps.document])
    | acked keeps again => exact h.congr (by rw [keeps.document])
    | poisoned keeps dead => exact absurd hd (Option.isSome_iff_ne_none.mp dead)
    | pushed alive carried keeps connected authorized unseen missing stages =>
      obtain ⟨before, hh, hreplays⟩ := h
      refine ⟨before, hh, replays_content ?_ (by rw [keeps.document])⟩
      exact replays_snoc hreplays (stageMutation_replays laws stages)
  | finish cause step =>
    cases step with
    | dead dead => exact absurd hd (Option.isSome_iff_ne_none.mp dead)
    | acked alive empty keeps =>
      have hp : Mirrors content db.store room [] := by
        have hprepared := h
        simp only [Phase.prepared, empty] at hprepared
        exact hprepared
      exact hp.congr (by rw [keeps.document])
    | committed alive step =>
      have hnum := hn _ _ rfl
      rw [hr] at hnum
      exact commit_mirrors laws hs hnum h step hd

end

/-! ## Every reachable state -/

namespace Server

variable {env : Env} {κ : Type}

structure MirrorInv (content : env.engine.Doc → κ) (s : Server env.engine) : Prop extends Single s where
  mirrors : ∀ t room phase, Runs s t room phase → room.dead = none →
    Mirrors content s.db.store room phase.prepared

variable {content : env.engine.Doc → κ} {s s' : Server env.engine} {e : Event}

theorem Mirrors.store {room : Room env.engine}
    (h : Mirrors content s.db.store room prepared) (hs : s'.db.store = s.db.store) :
    Mirrors content s'.db.store room prepared := by
  rw [hs]
  exact h

theorem MirrorInv.effect (laws : env.engine.Lawful content) (h : MirrorInv content s)
    (hc : s.HydratesAlone e) (he : Effect s e s') : MirrorInv content s' := by
  have hsingle : Single s' := h.toSingle.effect hc he
  refine ⟨hsingle, ?_⟩
  cases he with
  | aside aside reads =>
    intro t room phase hr hd
    exact Mirrors.store (h.mirrors t room phase (aside.runs _ _ _ hr) hd) aside.store
  | @hydrated t room cause store log hydrates fresh runs =>
    intro u r p hr hd
    rcases runs u r p hr with ⟨-, hroom, hp⟩ | ⟨-, hold⟩
    · rw [hroom, hp, store]
      apply mirrors_of_hydrates
      refine ⟨room.document, ?_, rfl⟩
      rw [← hydrateDocument_revision h.sound hydrates]
      exact hydrates
    · exact Mirrors.store (h.mirrors u r p hold hd) (congrArg Database.store store)
  | @worked t db' room after phase phase' before step hdb log runs =>
    intro u r p hr hd
    rcases runs u r p hr with ⟨-, hroom, hp⟩ | ⟨hne, hold⟩
    · rw [hroom] at hd ⊢
      rw [hp, hdb]
      have hlive : room.dead = none := step.alive hd
      have hmirror := step.mirrors laws h.sound (h.revision t room phase before hlive)
        (h.numberedPhase before hlive) (h.mirrors t room phase before hlive) hd
      exact hmirror.congr rfl
    · by_cases hlive : room.dead = none
      · exact absurd (h.alone u r p t room phase hold hd before hlive) hne
      · have hsame := (step.dead (Option.isSome_iff_ne_none.mpr hlive)).2.1
        exact Mirrors.store (h.mirrors u r p hold hd) (congrArg Database.store (hdb.trans hsame))

theorem mirrorInv_init {db : Database} (h : Created db) : MirrorInv content (init env db) := by
  refine ⟨single_init h.sound, ?_⟩
  intro t room phase ⟨task, htask, _⟩
  cases htask

theorem mirrorInv_kept (laws : env.engine.Lawful content) :
    Transition.Kept (fun s e => Server.step env s e) Server.HydratesAlone (MirrorInv content) :=
  fun _ e h hc => h.effect laws hc (step_effect h.toTidy e)

theorem mirrorInv_after (laws : env.engine.Lawful content) {db : Database} (hdb : Created db)
    {events : List Event}
    (halone : Transition.Along (fun s e => Server.step env s e) Server.HydratesAlone
      (Server.init env db) events) : MirrorInv content (Server.after env db events) :=
  Transition.run_inv (mirrorInv_kept laws) (mirrorInv_init hdb) halone

end Server

/-- What the store hydrates to is indistinguishable from the room's replica. -/
def Agrees (env : Env) (store : DocumentStore) (room : Room env.engine) : Prop :=
  ∃ doc, hydrateDocument env.engine store = some (doc, room.revision) ∧
    env.engine.version doc = env.engine.version room.document ∧
    env.engine.text doc = env.engine.text room.document

/-- **The live replica equals the durable one**, for every run in which no room is hydrated beside a live
one. -/
theorem live_replica_hydrates (env : Env) {κ : Type} (content : env.engine.Doc → κ)
    (laws : env.engine.Lawful content) (db : Database) (hdb : Created db) (events : List Event)
    (halone : Transition.Along (fun s e => Server.step env s e) Server.HydratesAlone
      (Server.init env db) events)
    (t : TaskId) (room : Room env.engine) (phase : Phase)
    (hruns : Server.Runs (Server.after env db events) t room phase) (hlive : room.dead = none)
    (hquiet : phase.prepared = []) : Agrees env (Server.after env db events).db.store room := by
  have hinv := Server.mirrorInv_after laws hdb halone
  have hmirror := hinv.mirrors t room phase hruns hlive
  rw [hquiet] at hmirror
  obtain ⟨doc, hdoc, hcontent⟩ := hmirror.hydrates
  refine ⟨doc, ?_, laws.version_congr _ _ hcontent, laws.text_congr _ _ hcontent⟩
  rw [hinv.revision t room phase hruns hlive]
  exact hdoc

/-- The room task `t` runs. -/
def Server.running {E : Engine} (s : Server E) (t : TaskId) : Option (Room E × Phase) :=
  s.tasks[t]?.bind fun task =>
    match task.body with
    | .running room phase => some (room, phase)
    | _ => none

variable {t : TaskId}

theorem Server.runs_of_running {env : Env} {s : Server env.engine} {room : Room env.engine}
    {phase : Phase} (h : s.running t = some (room, phase)) : Runs s t room phase := by
  obtain ⟨task, htask, hbody⟩ := Option.bind_eq_some_iff.mp h
  refine ⟨task, htask, ?_⟩
  cases hb : task.body with
  | running found stage =>
    rw [hb] at hbody
    cases hbody
    rfl
  | starting => rw [hb] at hbody; cases hbody
  | refusing => rw [hb] at hbody; cases hbody
  | exited => rw [hb] at hbody; cases hbody
  | gone => rw [hb] at hbody; cases hbody

def compacting : List Event :=
  asking 1 0 ++ opening 0 0 ++
    staging 0 1 [updateFrame 1 2 0 97, updateFrame 2 2 1 98, updateFrame 3 2 2 99, updateFrame 4 2 3 100] ++
    [.commit 0 .ok 0] ++ staging 0 1 [updateFrame 5 2 4 101] ++ [.commit 0 .ok 0]

theorem compacting_hydrates : ∃ room, Server.Runs (Server.after (smallEnv 4) ownedDocument compacting) 0
    room .idle ∧
      Agrees (smallEnv 4) (Server.after (smallEnv 4) ownedDocument compacting).db.store room := by
  have hroom : ((Server.after (smallEnv 4) ownedDocument compacting).running 0).any
      (fun found => found.1.dead.isNone && found.2 == .idle) = true := by decide +kernel
  obtain ⟨⟨room, phase⟩, hfound, hok⟩ := (Option.any_eq_true _ _).mp hroom
  obtain ⟨hlive, hidle⟩ := Bool.and_eq_true_iff.mp hok
  have hphase : phase = .idle := by simpa using hidle
  rw [hphase] at hfound
  refine ⟨room, Server.runs_of_running hfound, ?_⟩
  exact live_replica_hydrates (smallEnv 4) id opLog_lawful ownedDocument ownedDocument_created compacting
    (by decide +kernel) 0 room .idle (Server.runs_of_running hfound) (Option.isNone_iff_eq_none.mp hlive) rfl

/-- The second room is live at revision 1 while the store hydrates to the first one's snapshot. -/
theorem overlapping_disagrees : Created ownedDocument ∧
    ∃ room, Server.Runs (Server.after (smallEnv 4) ownedDocument overlapping) 1 room .idle ∧
      room.dead = none ∧
        ¬ Agrees (smallEnv 4) (Server.after (smallEnv 4) ownedDocument overlapping).db.store room := by
  have hroom : ((Server.after (smallEnv 4) ownedDocument overlapping).running 1).any
      (fun found => found.1.dead.isNone && found.2 == .idle && found.1.revision == 1) = true := by
    decide +kernel
  have hstore : (hydrateDocument (smallEnv 4).engine
      (Server.after (smallEnv 4) ownedDocument overlapping).db.store).map (·.2) = some 4 := by
    decide +kernel
  obtain ⟨⟨room, phase⟩, hfound, hok⟩ := (Option.any_eq_true _ _).mp hroom
  simp only [Bool.and_eq_true, beq_iff_eq, Option.isNone_iff_eq_none] at hok
  obtain ⟨⟨hlive, hphase⟩, hrev⟩ := hok
  rw [hphase] at hfound
  refine ⟨ownedDocument_created, room, Server.runs_of_running hfound, hlive, ?_⟩
  intro ⟨doc, hdoc, _⟩
  rw [hdoc, hrev] at hstore
  cases hstore

/-! ## Reads -/

def Task.answersDead {E : Engine} (task : Task E) (reads : List Nat) : Bool :=
  match task.body, task.inbox with
  | .running room .idle, .read reader :: _ => room.dead.isSome && reads.contains reader
  | _, _ => false

def Server.ReadsLive {E : Engine} (s : Server E) : Event → Prop
  | .receive t .. => ∀ task ∈ s.tasks[t]?, task.answersDead s.reads = false
  | _ => True

instance {E : Engine} (s : Server E) : ∀ e, Decidable (s.ReadsLive e) := fun e => by
  unfold Server.ReadsLive
  split <;> infer_instance

theorem Server.Answers.live {env : Env} {s : Server env.engine} {e : Event}
    {room : Room env.engine} (h : Answers s e t room) (hl : s.ReadsLive e) : room.dead = none := by
  obtain ⟨storage, now, rfl⟩ := h.cause
  obtain ⟨task, htask, hbody⟩ := h.runs
  obtain ⟨found, reader, inbox, hfound, hinbox, hwaiting⟩ := h.waiting
  rw [htask] at hfound
  cases hfound
  have hnot := hl task htask
  unfold Task.answersDead at hnot
  simp only [hbody, hinbox, hwaiting, Bool.and_true] at hnot
  simpa using hnot

/-- A snapshot gives a fresh replica the version and the text of `doc`. -/
def Reproduces (E : Engine) (snapshot : Bytes) (doc : E.Doc) : Prop :=
  ∃ copy v, E.applySnapshotBytes E.new snapshot = some (copy, v) ∧ E.version copy = E.version doc ∧
    E.text copy = E.text doc

/-- An answer shows what the store hydrates to, at the revision of the room that gave it. -/
def Serves (env : Env) (store : DocumentStore) (room : Room env.engine) (answer : RoomRead) : Prop :=
  ∃ doc, hydrateDocument env.engine store = some (doc, room.revision) ∧
    answer.text = env.engine.text doc ∧
    (∀ bytes, answer.compactSnapshot = some bytes → Reproduces env.engine bytes doc) ∧
    ∀ bytes, answer.fullSnapshot = some bytes → Reproduces env.engine bytes doc

theorem reproduces_of_rebuilds {E : Engine} {κ : Type} {content : E.Doc → κ} (laws : E.Lawful content)
    {bytes : Bytes} {replica doc : E.Doc} (h : E.Rebuilds content bytes replica)
    (hc : content doc = content replica) : Reproduces E bytes doc := by
  obtain ⟨copy, v, happly, hcopy⟩ := h
  have heq : content copy = content doc := hcopy.trans hc.symm
  exact ⟨copy, v, happly, laws.version_congr _ _ heq, laws.text_congr _ _ heq⟩

/-- **Reads serve durable text**, for every run in which dead rooms answer no read and no room is hydrated
beside a live one. -/
theorem reads_serve_durable (env : Env) {κ : Type} (content : env.engine.Doc → κ)
    (laws : env.engine.Lawful content) (db : Database) (hdb : Created db) (events : List Event)
    (e : Event)
    (hcond : Transition.Along (fun s e => Server.step env s e)
      (fun s e => s.HydratesAlone e ∧ s.ReadsLive e) (Server.init env db) (events ++ [e]))
    (new : List Entry) (t : TaskId) (answer : RoomRead)
    (hnew : (Server.after env db (events ++ [e])).log = (Server.after env db events).log ++ new)
    (hread : .read t answer ∈ new) :
    ∃ room, Server.Runs (Server.after env db events) t room .idle ∧
      Serves env (Server.after env db events).db.store room answer := by
  obtain ⟨hbefore, hlast⟩ := Transition.along_append.mp hcond
  have hinv := Server.mirrorInv_after laws hdb (Transition.along_mono (fun _ _ h => h.1) hbefore)
  unfold Server.after at hnew
  rw [Transition.run_snoc] at hnew
  obtain ⟨room, hanswers, rfl⟩ := (Server.step_effect hinv.toTidy e).reads hnew t answer hread
  have hlive := hanswers.live hlast.1.2
  obtain ⟨doc, hdoc, hcontent⟩ := (hinv.mirrors t room .idle hanswers.runs hlive).hydrates
  refine ⟨room, hanswers.runs, doc, ?_, ?_, ?_, ?_⟩
  · rw [hinv.revision t room .idle hanswers.runs hlive]
    exact hdoc
  · exact (laws.text_congr _ _ hcontent).symm
  · exact fun bytes hb => reproduces_of_rebuilds laws (laws.compact_rebuilds _ _ hb) hcontent
  · exact fun bytes hb => reproduces_of_rebuilds laws (laws.full_rebuilds _ _ hb) hcontent

/-- An edit is staged, its commit ends as `storage` says, and a reader asks for the room. -/
def editThenRead (storage : Storage) : List Event :=
  asking 1 0 ++ opening 0 0 ++ staging 0 1 [updateFrame 1 2 0 97] ++ [.commit 0 storage 0, .read 7]

theorem committed_read_serves :
    ∃ room, Server.Runs (Server.after (smallEnv 4) ownedDocument (editThenRead .ok)) 0 room .idle ∧
      Serves (smallEnv 4) (Server.after (smallEnv 4) ownedDocument (editThenRead .ok)).db.store room
        ⟨['a'], some [3, 2, 0, 97], some [2, 2, 0, 97], 1⟩ :=
  reads_serve_durable (smallEnv 4) id opLog_lawful ownedDocument ownedDocument_created
    (editThenRead .ok) (.receive 0 .ok 0) (by decide +kernel)
    [.read 0 ⟨['a'], some [3, 2, 0, 97], some [2, 2, 0, 97], 1⟩] 0 _ (by decide +kernel)
    (List.mem_singleton.mpr rfl)

/-- The commit failed, the room is dead, and it answers with the edit nobody stored. -/
theorem failed_read_serves_lost_edit : Created ownedDocument ∧
    (Server.after (smallEnv 4) ownedDocument (editThenRead .failed ++ [.receive 0 .ok 0])).log =
      (Server.after (smallEnv 4) ownedDocument (editThenRead .failed)).log ++
        [.read 0 ⟨['a'], some [3, 2, 0, 97], some [2, 2, 0, 97], 0⟩] ∧
      ∀ room, ¬ Serves (smallEnv 4)
        (Server.after (smallEnv 4) ownedDocument (editThenRead .failed)).db.store room
        ⟨['a'], some [3, 2, 0, 97], some [2, 2, 0, 97], 0⟩ := by
  refine ⟨ownedDocument_created, by decide +kernel, ?_⟩
  have htext : (hydrateDocument (smallEnv 4).engine
      (Server.after (smallEnv 4) ownedDocument (editThenRead .failed)).db.store).map
        (fun found => (smallEnv 4).engine.text found.1) = some [] := by decide +kernel
  intro room ⟨doc, hdoc, hserved, _⟩
  rw [hdoc, Option.map_some, ← hserved] at htext
  cases htext

end Marks
