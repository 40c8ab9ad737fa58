import Marks.Rooms
import Marks.StoreSound

/-! # What a step of the server does to the replicas

Seen from the durable state a step does one of three things: it leaves every running room as it is, it
moves one room, or it hydrates a new one. The invariants of the durable state are shown against these
three, not against the events. -/

namespace Marks

open Room List

def Entry.isRoom : Entry → Bool
  | .room .. => true
  | _ => false

def Entry.isAnswered : Entry → Bool
  | .answered .. => true
  | _ => false

def Phase.isStaging : Phase → Bool
  | .staging .. => true
  | _ => false

def Phase.prepared : Phase → List PreparedCommit
  | .staging _ batch => batch.prepared
  | _ => []

variable {env : Env}

inductive TaskStep (e : Event) (db : Database) (room : Room env.engine) :
    Phase → Database → Room env.engine → Phase → Prop
  | loop {db' after phase phase'} (calm : phase.isStaging = false) (calm' : phase'.isStaging = false)
    (step : ControlStep db room db' after) : TaskStep e db room phase db' after phase'
  | start {db' after phase frames} (calm : phase.isStaging = false)
    (step : ControlStep db room db' after) :
    TaskStep e db room phase db' after (.staging frames (after.startBatch env))
  | stage {after frames frames' batch batch' frame} (step : FrameStep db room batch frame after batch') :
    TaskStep e db room (.staging frames batch) db after (.staging frames' batch')
  | finish {db' after now batch} (cause : ∃ t storage, e = .commit t storage now)
    (step : FinishStep db room now batch db' after) :
    TaskStep e db room (.staging [] batch) db' after .idle

namespace Server

/-- Task `t` is running `room`, at `phase`. -/
def Runs (s : Server env.engine) (t : TaskId) (room : Room env.engine) (phase : Phase) : Prop :=
  ∃ task, s.tasks[t]? = some task ∧ task.body = .running room phase

variable {s s' s'' : Server env.engine} {e : Event}

structure Rest (s s' : Server env.engine) : Prop where
  store : s'.db.store = s.db.store
  log : ∃ extra, s'.log = s.log ++ extra ∧ ∀ e ∈ extra, e.isRoom = false
  runs : ∀ t room phase, Runs s' t room phase → Runs s t room phase

structure Aside (s s' : Server env.engine) : Prop where
  store : s'.db.store = s.db.store
  log : ∃ extra, s'.log = s.log ++ extra ∧ ∀ e ∈ extra, e.isAnswered = true
  runs : ∀ t room phase, Runs s' t room phase → Runs s t room phase

/-- Task `t`, idle, has a read at the head of its queue whose caller still waits. -/
structure Answers (s : Server env.engine) (e : Event) (t : TaskId) (room : Room env.engine) : Prop where
  cause : ∃ storage now, e = .receive t storage now
  runs : Runs s t room .idle
  waiting : ∃ task reader inbox, s.tasks[t]? = some task ∧ task.inbox = .read reader :: inbox ∧
    s.reads.contains reader

/-- Reads among new entries of the log are answers of `e`. -/
def Reads (s : Server env.engine) (e : Event) (new : List Entry) : Prop :=
  ∀ t answer, .read t answer ∈ new → ∃ room, Answers s e t room ∧ answer = room.read env

inductive Effect (s : Server env.engine) (e : Event) : Server env.engine → Prop
  | aside {next} (aside : Rest s next) (reads : ∃ new, next.log = s.log ++ new ∧ Reads s e new) :
    Effect s e next
  | worked {next} (t : TaskId) {db' room after phase phase'} (before : Runs s t room phase)
    (step : TaskStep e s.db room phase db' after phase') (hdb : next.db = db')
    (log : ∃ extra, next.log = s.log ++ after.out.map (.room t) ++ extra ∧
      ∀ e ∈ extra, e.isAnswered = true)
    (runs : ∀ u r p, Runs next u r p →
      (u = t ∧ r = { after with out := [] } ∧ p = phase') ∨ (u ≠ t ∧ Runs s u r p)) : Effect s e next
  | hydrated {next} (t : TaskId) {room : Room env.engine} (cause : ∃ storage, e = .hydrate t storage)
    (store : next.db = s.db) (log : next.log = s.log)
    (hydrates : hydrateDocument env.engine s.db.store = some (room.document, room.revision))
    (fresh : room.dead = none ∧ room.out = [] ∧ room.epoch = s.db.auth.epoch ∧ room.sockets = [])
    (runs : ∀ u r p, Runs next u r p → (u = t ∧ r = room ∧ p = .idle) ∨ (u ≠ t ∧ Runs s u r p)) :
    Effect s e next

/-! ## Building blocks -/

theorem Aside.refl (s : Server env.engine) : Aside s s where
  store := rfl
  log := ⟨[], by rw [append_nil], fun _ h => by cases h⟩
  runs := fun _ _ _ h => h

theorem Aside.trans (h : Aside s s') (h' : Aside s' s'') : Aside s s'' where
  store := h'.store.trans h.store
  log := by
    obtain ⟨extra, he, hp⟩ := h.log
    obtain ⟨extra', he', hp'⟩ := h'.log
    refine ⟨extra ++ extra', by rw [he', he, append_assoc], ?_⟩
    intro e hmem
    rcases mem_append.mp hmem with hmem | hmem
    · exact hp e hmem
    · exact hp' e hmem
  runs := fun t room phase hr => h.runs t room phase (h'.runs t room phase hr)

theorem aside_of_eq (hs : s'.db.store = s.db.store) (hl : s'.log = s.log) (ht : s'.tasks = s.tasks) :
    Aside s s' where
  store := hs
  log := ⟨[], by rw [append_nil, hl], fun _ h => by cases h⟩
  runs := by
    intro t room phase ⟨task, htask, hbody⟩
    exact ⟨task, by rw [← ht]; exact htask, hbody⟩

variable {t : TaskId}

variable {task : Task env.engine}

variable {u : TaskId}

theorem runs_setTask {room : Room env.engine} {phase : Phase}
    (h : Runs (s.setTask env t task) u room phase) :
    (u = t ∧ task.body = .running room phase) ∨ (u ≠ t ∧ Runs s u room phase) := by
  obtain ⟨found, hfound, hbody⟩ := h
  simp only [setTask, getElem?_set] at hfound
  split at hfound
  · rename_i heq
    split at hfound
    · rw [← Option.some.inj hfound] at hbody
      exact Or.inl ⟨heq.symm, hbody⟩
    · cases hfound
  · rename_i hne
    exact Or.inr ⟨fun heq => hne heq.symm, found, hfound, hbody⟩

variable {task' : Task env.engine}

theorem setTask_aside (h : s.tasks[t]? = some task)
    (hb : ∀ room phase, task'.body = .running room phase → task.body = .running room phase) :
    Aside s (s.setTask env t task') where
  store := rfl
  log := ⟨[], by simp only [setTask, append_nil], fun _ h => by cases h⟩
  runs := by
    intro u room phase hr
    rcases runs_setTask hr with ⟨rfl, hbody⟩ | ⟨-, hr⟩
    · exact ⟨task, h, hb room phase hbody⟩
    · exact hr

theorem abort_body (task : Task env.engine) (room : Room env.engine) (phase : Phase)
    (h : task.abort.body = .running room phase) : task.body = .running room phase := by
  unfold Task.abort at h
  split at h
  · exact h
  · exact h
  · cases h

theorem abortTask_aside (t : TaskId) : Aside s (s.abortTask env t) := by
  unfold abortTask
  cases ht : s.tasks[t]? with
  | none => exact Aside.refl s
  | some task => exact setTask_aside ht (abort_body task)

theorem evictTask_aside (t : TaskId) : Aside s (s.evictTask env t) := by
  unfold evictTask
  split
  · exact (aside_of_eq rfl rfl rfl : Aside s { s with entry := none }).trans (abortTask_aside t)
  · exact Aside.refl s

theorem sendControl_aside {control : RoomControl}
    (h : s.sendControl env t control = some s') : Aside s s' := by
  unfold sendControl at h
  split at h
  · rename_i task ht
    split at h
    · cases h
      exact setTask_aside ht fun _ _ hb => hb
    · cases h
  · cases h

theorem sendMessage_aside {message : RoomMsg}
    (h : s.sendMessage env t message = some s') : Aside s s' := by
  unfold sendMessage at h
  split at h
  · rename_i task ht
    split at h
    · cases h
      exact setTask_aside ht fun _ _ hb => hb
    · cases h
  · cases h

theorem answer_aside (call : Nat) (join : JoinCall) (result : Except JoinRefusal (TaskId × ConnId)) :
    Aside s (s.answer env call join result) where
  store := rfl
  log := by
    refine ⟨[.answered call result s.db.auth.live], rfl, fun e he => ?_⟩
    rw [mem_singleton.mp he]
    rfl
  runs := fun _ _ _ h => h

theorem setJoin_aside (call : Nat) (join : JoinCall) (phase : JoinPhase) :
    Aside s (s.setJoin env call join phase) := aside_of_eq rfl rfl rfl

theorem spawn_aside : Aside s (s.spawn env) where
  store := rfl
  log := ⟨[], by simp only [spawn, append_nil], fun _ h => by cases h⟩
  runs := by
    intro t room phase ⟨task, htask, hbody⟩
    simp only [spawn, getElem?_append] at htask
    split at htask
    · exact ⟨task, htask, hbody⟩
    rcases Nat.eq_zero_or_pos (t - s.tasks.length) with h0 | hpos
    · rw [h0] at htask
      rw [← Option.some.inj htask] at hbody
      cases hbody
    · rw [getElem?_eq_none (by simp only [length_singleton]; omega)] at htask
      cases htask

theorem lookupEntry_aside {call : Nat} {join : JoinCall} {crowded : Bool}
    {vacant : Server env.engine → Server env.engine} (hv : ∀ s, Aside s (vacant s)) :
    Aside s (s.lookupEntry env call join crowded vacant) := by
  unfold lookupEntry
  split
  · exact setJoin_aside _ _ _
  refine (aside_of_eq rfl rfl rfl : Aside s { s with entry := none }).trans ?_
  simp only
  split
  · exact answer_aside _ _ _
  · exact hv _

theorem stepJoin_aside {call : Nat} {f : JoinCall → Server env.engine} (hf : ∀ join, Aside s (f join)) :
    Aside s (s.stepJoin env call f) := by
  unfold stepJoin
  split
  · exact hf _
  · exact Aside.refl s

theorem finishTask_aside {body : Body env.engine}
    (h : s.tasks[t]? = some task) (hb : ∀ room phase, body ≠ .running room phase) :
    Aside s (s.finishTask env t task' body) :=
  setTask_aside h fun room phase hbody => absurd hbody (hb room phase)

theorem putRoom_runs {room r : Room env.engine}
    {phase p : Phase} (h : Runs (s.putRoom env t task room phase) u r p) :
    (u = t ∧ r = { room with out := [] } ∧ p = phase) ∨ (u ≠ t ∧ Runs s u r p) := by
  rcases runs_setTask (s := { s with log := s.log ++ room.out.map (.room t) }) h with ⟨hu, hb⟩ | ⟨hu, hr⟩
  · obtain ⟨hr, hp⟩ := Body.running.inj hb
    exact Or.inl ⟨hu, hr.symm, hp.symm⟩
  · exact Or.inr ⟨hu, hr⟩

theorem putRoom_finish_aside {task'' : Task env.engine} {room : Room env.engine}
    {phase : Phase} {body : Body env.engine} (h : s.tasks[t]? = some task)
    (hb : ∀ room phase, body ≠ .running room phase) :
    Aside (s.putRoom env t task' room phase)
      ((s.putRoom env t task' room phase).finishTask env t task'' body) := by
  have hlt : t < s.tasks.length := (List.getElem?_eq_some_iff.mp h).1
  have hput : (s.putRoom env t task' room phase).tasks[t]? =
      some { task' with body := .running { room with out := [] } phase } := by
    simp only [putRoom, getElem?_set, if_true, if_pos hlt]
  exact finishTask_aside hput hb

theorem putRoom_effect {db' : Database}
    {room after : Room env.engine} {phase phase' : Phase} (ht : s.tasks[t]? = some task)
    (hbody : task.body = .running room phase) (step : TaskStep e s.db room phase db' after phase')
    (h : Aside ({ s with db := db' }.putRoom env t task' after phase') s') (hdb : s'.db = db') :
    Effect s e s' := by
  obtain ⟨extra, he, hp⟩ := h.log
  refine .worked t ⟨task, ht, hbody⟩ step hdb ⟨extra, he, hp⟩ ?_
  intro u r p hr
  rcases putRoom_runs (h.runs u r p hr) with h1 | ⟨hu, hr'⟩
  · exact Or.inl h1
  · exact Or.inr ⟨hu, hr'⟩

theorem not_room_of_answered {entry : Entry} (h : entry.isAnswered = true) : entry.isRoom = false := by
  cases entry with
  | answered call result live => rfl
  | room task output => exact absurd h (by simp [Entry.isAnswered])
  | read task answer => rfl

theorem Aside.rest (h : Aside s s') : Rest s s' where
  store := h.store
  log := by
    obtain ⟨extra, hlog, hextra⟩ := h.log
    exact ⟨extra, hlog, fun entry hmem => not_room_of_answered (hextra entry hmem)⟩
  runs := h.runs

theorem reads_answered {new : List Entry} (h : ∀ entry ∈ new, entry.isAnswered = true) :
    Reads s e new := by
  intro t answer hmem
  exact absurd (h _ hmem) (by simp [Entry.isAnswered])

theorem effect_of_aside (h : Aside s s') : Effect s e s' := by
  obtain ⟨extra, hlog, hextra⟩ := h.log
  exact .aside h.rest ⟨extra, hlog, reads_answered hextra⟩

theorem Effect.reads (h : Effect s e s') {new : List Entry} (hnew : s'.log = s.log ++ new) :
    Reads s e new := by
  have hunique : ∀ {other}, s'.log = s.log ++ other → Reads s e other → Reads s e new := by
    intro other hother hreads
    have heq : new = other := append_cancel_left (hnew.symm.trans hother)
    rw [heq]
    exact hreads
  cases h with
  | aside aside reads =>
    obtain ⟨other, hother, hreads⟩ := reads
    exact hunique hother hreads
  | hydrated t cause store log hydrates fresh runs =>
    refine hunique (by rw [log, append_nil]) ?_
    exact fun _ _ hmem => by cases hmem
  | worked t before step hdb log runs =>
    obtain ⟨extra, hlog, hextra⟩ := log
    refine hunique (by rw [hlog, append_assoc]) fun u answer hmem => ?_
    rcases mem_append.mp hmem with hmem | hmem
    · obtain ⟨o, -, ho⟩ := mem_map.mp hmem
      cases ho
    · exact reads_answered hextra u answer hmem

/-! ## Every event -/

theorem applyRoute_aside (route : Route) : Aside s (s.applyRoute env route) := by
  unfold applyRoute
  split
  · split
    · exact Aside.refl s
    · exact aside_of_eq rfl rfl rfl
  · exact Aside.refl s

theorem admission_aside (ticketId : TicketId) (secretMatches : Bool)
    (cookie : Option AuthenticatedSession) (now : Millis) :
    Aside s (s.admission env ticketId secretMatches cookie now) := by
  unfold admission
  split
  · split
    · exact Aside.refl s
    · exact aside_of_eq rfl rfl rfl
  · exact Aside.refl s

theorem dispatchControl_aside (control : Control) : Aside s (s.dispatchControl env control) := by
  unfold dispatchControl
  split
  · exact Aside.refl s
  split
  · rename_i sent hsent
    split
    · exact (sendControl_aside hsent).trans (aside_of_eq rfl rfl rfl)
    · exact sendControl_aside hsent
  · exact evictTask_aside _

theorem joinSend_aside (call : Nat) : Aside s (s.joinSend env call) := by
  refine stepJoin_aside fun join => ?_
  split
  · split
    · rename_i sent hsent
      exact (sendMessage_aside hsent).trans (setJoin_aside _ _ _)
    · exact answer_aside _ _ _
  · exact Aside.refl s

theorem hydrate_effect (t : TaskId) (storage : Storage) :
    Effect s (.hydrate t storage) (s.hydrate env t storage) := by
  unfold hydrate stepTask
  cases ht : s.tasks[t]? with
  | none => exact effect_of_aside (Aside.refl s)
  | some task =>
    simp only
    split
    · split
      · rename_i document revision hydrated
        split at hydrated
        · let room : Room env.engine := ⟨t, document, revision, 0, s.db.auth.epoch, [], 1, none, 0, []⟩
          refine @Effect.hydrated env s (.hydrate t storage) _ t room
            ⟨storage, rfl⟩ rfl rfl hydrated ⟨rfl, rfl, rfl, rfl⟩ ?_
          intro u r p hr
          rcases runs_setTask hr with ⟨hu, hb⟩ | h
          · obtain ⟨hr', hp⟩ := Body.running.inj hb
            exact Or.inl ⟨hu, hr'.symm, hp.symm⟩
          · exact Or.inr h
        · cases hydrated
      · exact effect_of_aside (setTask_aside ht fun _ _ hb => absurd hb (by simp))
    · exact effect_of_aside (Aside.refl s)

theorem control_effect (t : TaskId) (storage : Storage) (now : Millis) :
    Effect s e (s.control env t storage now) := by
  unfold control stepTask
  cases ht : s.tasks[t]? with
  | none => exact effect_of_aside (Aside.refl s)
  | some task =>
    simp only
    split
    · rename_i room control lane hbody hlane
      exact putRoom_effect ht hbody (.loop rfl rfl (control_step s.db storage now control))
        (Aside.refl _) rfl
    · exact effect_of_aside (Aside.refl s)

theorem receiveJoin_effect {room : Room env.engine}
    (ht : s.tasks[t]? = some task) (hbody : task.body = .running room .idle)
    (hb : task'.body = task.body) (call : Nat) (now : Millis) :
    Effect s e (s.receiveJoin env t task' room call now) := by
  have hsame : Aside s (s.setTask env t task') := setTask_aside ht fun _ _ h => hb ▸ h
  unfold receiveJoin
  split
  · split
    · exact putRoom_effect ht hbody (.loop rfl rfl (.same (join_same _ _ now)))
        (answer_aside _ _ _) rfl
    · exact effect_of_aside hsame
  · exact effect_of_aside hsame

theorem receiveRunning_effect {room : Room env.engine}
    (ht : s.tasks[t]? = some task) (hbody : task.body = .running room .idle)
    (hb : task'.body = task.body) {message : RoomMsg} {inbox : List RoomMsg}
    (hinbox : task.inbox = message :: inbox) (storage : Storage) (now : Millis) :
    Effect s (.receive t storage now) (s.receiveRunning env t task' room message storage now) := by
  have hsame : Aside s (s.setTask env t task') := setTask_aside ht fun _ _ h => hb ▸ h
  cases message with
  | join call => exact receiveJoin_effect ht hbody hb call now
  | frame conn data =>
    exact putRoom_effect ht hbody (.loop rfl rfl (.same (SameReplica.refl room))) (Aside.refl _) rfl
  | read reader =>
    simp only [receiveRunning]
    split
    · rename_i hwaiting
      refine .aside ⟨rfl, ⟨[.read t (room.read env)], rfl, ?_⟩, hsame.runs⟩ ⟨_, rfl, ?_⟩
      · intro entry hmem
        rw [mem_singleton.mp hmem]
        rfl
      · intro u answer hmem
        obtain ⟨rfl, rfl⟩ := Entry.read.inj (mem_singleton.mp hmem)
        exact ⟨room, ⟨⟨storage, now, rfl⟩, ⟨task, ht, hbody⟩, task, reader, inbox, ht, hinbox, hwaiting⟩, rfl⟩
    · exact effect_of_aside hsame
  | shutdown =>
    simp only [receiveRunning]
    have hput : ∀ (db : Database) (after : Room env.engine),
        Aside ({ s with db }.putRoom env t task' after .idle)
          (({ s with db }.putRoom env t task' after .idle).finishTask env t task' .exited) :=
      fun db after => putRoom_finish_aside (s := { s with db }) ht fun _ _ h => by simp at h
    by_cases hd : room.dead = none
    · simp only [if_pos hd]
      refine putRoom_effect ht hbody (.loop rfl rfl ?_) (hput _ _) rfl
      exact .compacted (Keeps.refl room) hd (compact_step _ s.db storage)
        (closeAll_keeps (fun _ h => h) _)
    · simp only [if_neg hd]
      refine putRoom_effect ht hbody (.loop rfl rfl (.same ?_)) (hput _ _) rfl
      exact (closeAll_keeps (fun _ h => h) _).toSameReplica

theorem receiveRefusing_aside
    (ht : s.tasks[t]? = some task) (hb : task'.body = task.body) (message : RoomMsg) :
    Aside s (s.receiveRefusing env t task' message) := by
  have hsame : Aside s (s.setTask env t task') := setTask_aside ht fun _ _ h => hb ▸ h
  cases message with
  | join call =>
    refine hsame.trans (stepJoin_aside fun join => ?_)
    split
    · exact answer_aside _ _ _
    · exact Aside.refl _
  | shutdown => exact finishTask_aside ht fun _ _ h => by simp at h
  | frame conn data => exact hsame
  | read reader => exact hsame

theorem receive_effect (t : TaskId) (storage : Storage) (now : Millis) :
    Effect s (.receive t storage now) (s.receive env t storage now) := by
  unfold receive stepTask
  cases ht : s.tasks[t]? with
  | none => exact effect_of_aside (Aside.refl s)
  | some task =>
    simp only
    split
    · rename_i room message inbox hbody hinbox
      split
      · exact receiveRunning_effect ht hbody (by rfl) hinbox storage now
      · exact effect_of_aside (Aside.refl s)
    · rename_i message inbox hbody hinbox
      exact effect_of_aside (receiveRefusing_aside ht (by rfl) message)
    · exact effect_of_aside (Aside.refl s)

theorem collect_effect (t : TaskId) : Effect s e (s.collect env t) := by
  unfold collect stepTask
  cases ht : s.tasks[t]? with
  | none => exact effect_of_aside (Aside.refl s)
  | some task =>
    simp only
    split
    · rename_i room frames conn data inbox hbody hinbox
      split
      · exact putRoom_effect ht hbody (.loop rfl rfl (.same (SameReplica.refl room)))
          (Aside.refl _) rfl
      · exact effect_of_aside (Aside.refl s)
    · exact effect_of_aside (Aside.refl s)

theorem process_effect (t : TaskId) (storage : Storage) (now : Millis) :
    Effect s e (s.process env t storage now) := by
  unfold process stepTask
  cases ht : s.tasks[t]? with
  | none => exact effect_of_aside (Aside.refl s)
  | some task =>
    simp only
    split
    · rename_i room frames hbody
      have hquiet : Effect s e (s.putRoom env t task room (.staging frames (room.startBatch env))) :=
        putRoom_effect ht hbody (.start rfl (.same (SameReplica.refl room))) (Aside.refl _) rfl
      split
      · rename_i control lane hlane
        split
        · exact putRoom_effect ht hbody (.start rfl (control_step s.db storage now control))
            (Aside.refl _) rfl
        · exact hquiet
      · exact hquiet
    · exact effect_of_aside (Aside.refl s)

theorem stage_effect (t : TaskId) (storage : Storage) (now : Millis) :
    Effect s e (s.stage env t storage now) := by
  unfold stage stepTask
  cases ht : s.tasks[t]? with
  | none => exact effect_of_aside (Aside.refl s)
  | some task =>
    simp only
    split
    · rename_i room conn data frames batch hbody
      exact putRoom_effect ht hbody (.stage (stageFrame_step s.db storage room batch _))
        (Aside.refl _) rfl
    · exact effect_of_aside (Aside.refl s)

theorem idle_effect (t : TaskId) (storage : Storage)
    (hout : ∀ room phase, Runs s t room phase → room.out = []) : Effect s e (s.idle env t storage) := by
  unfold idle stepTask
  cases ht : s.tasks[t]? with
  | none => exact effect_of_aside (Aside.refl s)
  | some task =>
    simp only
    split
    · rename_i room hbody
      split
      · rename_i hidle
        have hstep := compact_step room s.db storage
        have hempty : (room.compact env s.db storage).2.out = [] := by
          rw [hstep.fields.2.2.2.1]
          exact hout room .idle ⟨task, ht, hbody⟩
        have hwork : TaskStep e s.db room .idle (room.compact env s.db storage).1
            (room.compact env s.db storage).2 .idle :=
          .loop rfl rfl (.compacted (Keeps.refl room) hidle.2.1 hstep (Keeps.refl _))
        refine .worked t ⟨task, ht, hbody⟩ hwork rfl ⟨[], ?_, fun _ h => by cases h⟩ ?_
        · simp only [hempty, map_nil, append_nil, finishTask, setTask]
        intro u r p hr
        rcases runs_setTask (s := { s with db := (room.compact env s.db storage).1 }) hr with
          ⟨hu, hb⟩ | h
        · cases hb
        · exact Or.inr h
      · exact effect_of_aside (Aside.refl s)
    · exact effect_of_aside (Aside.refl s)

theorem cleanup_aside (t : TaskId) : Aside s (s.cleanup env t) := by
  unfold cleanup stepTask
  cases ht : s.tasks[t]? with
  | none => exact Aside.refl s
  | some task =>
    simp only
    split
    · refine Aside.trans (setTask_aside ht ?_) (aside_of_eq rfl rfl rfl)
      exact fun _ _ hb => by cases hb
    · exact Aside.refl s

theorem abandon_aside (t : TaskId) : Aside s (s.abandon env t) := by
  unfold abandon stepTask
  cases ht : s.tasks[t]? with
  | none => exact Aside.refl s
  | some task =>
    simp only
    split
    · exact setTask_aside ht (abort_body task)
    · exact Aside.refl s

theorem shutdown_aside : Aside s (s.shutdown env) := by
  unfold shutdown
  split
  · exact Aside.refl s
  rename_i t _
  have hentry : Aside s { s with entry := none } := aside_of_eq rfl rfl rfl
  simp only
  split
  · rename_i sent hsent
    exact hentry.trans (sendMessage_aside hsent)
  · exact hentry.trans (abortTask_aside t)

theorem crash_aside : Aside s (s.crash env) where
  store := rfl
  log := ⟨[], by simp only [crash, append_nil], fun _ h => by cases h⟩
  runs := by
    intro t room phase ⟨task, htask, hbody⟩
    simp only [crash, getElem?_map] at htask
    cases hs : s.tasks[t]? with
    | none => rw [hs] at htask; cases htask
    | some old =>
      rw [hs] at htask
      rw [← Option.some.inj htask] at hbody
      cases hbody

structure Tidy (s : Server env.engine) : Prop where
  out : ∀ t room phase, Runs s t room phase → room.out = []
  relays : ∀ t room frames batch, Runs s t room (.staging frames batch) → QuietRelays batch

theorem commit_effect (ht : Tidy s) (t : TaskId) (storage : Storage) (now : Millis) :
    Effect s (.commit t storage now) (s.commit env t storage now) := by
  unfold commit stepTask
  cases htask : s.tasks[t]? with
  | none => exact effect_of_aside (Aside.refl s)
  | some task =>
    simp only
    split
    · rename_i room batch hbody
      have hr : QuietRelays batch := ht.relays t room [] batch ⟨task, htask, hbody⟩
      have hstep := TaskStep.finish ⟨t, storage, rfl⟩ (finishFrames_step room s.db storage now batch hr)
      split
      · exact putRoom_effect htask hbody hstep (putRoom_finish_aside htask fun _ _ h => by simp at h) rfl
      · exact putRoom_effect htask hbody hstep (Aside.refl _) rfl
    · exact effect_of_aside (Aside.refl s)

theorem step_effect (ht : Tidy s) (e : Event) : Effect s e (s.step env e) := by
  cases e with
  | authenticate sessionId now =>
    refine effect_of_aside ?_
    simp only [step]
    split
    · exact aside_of_eq rfl rfl rfl
    · exact Aside.refl s
  | authenticateScratch scratchId now =>
    refine effect_of_aside ?_
    simp only [step]
    split
    · exact aside_of_eq rfl rfl rfl
    · exact Aside.refl s
  | route route => exact effect_of_aside (applyRoute_aside route)
  | admission ticketId secretMatches cookie now => exact effect_of_aside (admission_aside _ _ _ now)
  | dispatch notice =>
    refine effect_of_aside ?_
    simp only [step]
    split
    · exact (aside_of_eq rfl rfl rfl : Aside s { s with notices := s.notices.eraseIdx notice }).trans
        (dispatchControl_aside _)
    · exact Aside.refl s
  | lose notice => exact effect_of_aside (aside_of_eq rfl rfl rfl)
  | join actor clientVersion =>
    refine effect_of_aside ?_
    simp only [step]
    split
    · exact aside_of_eq rfl rfl rfl
    · exact Aside.refl s
  | joinLookup call crowded =>
    refine effect_of_aside (stepJoin_aside fun join => ?_)
    split
    · exact lookupEntry_aside fun s => setJoin_aside _ _ _
    · exact Aside.refl s
  | joinCheck call storage =>
    refine effect_of_aside (stepJoin_aside fun join => ?_)
    split
    · exact Aside.refl s
    split
    · exact answer_aside _ _ _
    · split
      · exact setJoin_aside _ _ _
      · exact answer_aside _ _ _
  | joinInsert call crowded =>
    refine effect_of_aside (stepJoin_aside fun join => ?_)
    split
    · exact lookupEntry_aside fun s => spawn_aside.trans (setJoin_aside _ _ _)
    · exact Aside.refl s
  | joinSend call => exact effect_of_aside (joinSend_aside call)
  | joinTimeout call =>
    refine effect_of_aside (stepJoin_aside fun join => ?_)
    split
    · exact answer_aside _ _ _
    · exact Aside.refl s
  | joinDropped call =>
    refine effect_of_aside (stepJoin_aside fun join => ?_)
    split
    · split
      · exact answer_aside _ _ _
      · exact Aside.refl s
    · exact Aside.refl s
  | frame t conn data =>
    refine effect_of_aside ?_
    simp only [step]
    cases hs : s.sendMessage env t (.frame conn data) with
    | none => exact Aside.refl s
    | some sent => exact sendMessage_aside hs
  | read reader =>
    refine effect_of_aside ?_
    simp only [step]
    split
    · rename_i sent hsent
      obtain ⟨t, -, hs⟩ := Option.bind_eq_some_iff.mp hsent
      exact (sendMessage_aside hs).trans (aside_of_eq rfl rfl rfl)
    · exact Aside.refl s
  | readTimeout reader => exact effect_of_aside (aside_of_eq rfl rfl rfl)
  | leave t conn =>
    refine effect_of_aside ?_
    simp only [step]
    split
    · cases hs : s.sendControl env t (.leave conn) with
      | none => exact evictTask_aside t
      | some sent => exact sendControl_aside hs
    · exact Aside.refl s
  | evict t => exact effect_of_aside (evictTask_aside t)
  | abandon t => exact effect_of_aside (abandon_aside t)
  | hydrate t storage => exact hydrate_effect t storage
  | control t storage now => exact control_effect t storage now
  | receive t storage now => exact receive_effect t storage now
  | collect t => exact collect_effect t
  | process t storage now => exact process_effect t storage now
  | stage t storage now => exact stage_effect t storage now
  | commit t storage now => exact commit_effect ht t storage now
  | idle t storage => exact idle_effect t storage (ht.out t)
  | cleanup t => exact effect_of_aside (cleanup_aside t)
  | shutdown => exact effect_of_aside shutdown_aside
  | crash => exact effect_of_aside crash_aside

end Server

/-! ## Facts about one task's step -/

variable {db db' : Database} {room after : Room env.engine} {phase phase' : Phase}

theorem TaskStep.dead (h : TaskStep e db room phase db' after phase') (hd : room.dead.isSome) :
    after.dead.isSome ∧ db' = db ∧
      ∃ rest, after.out = room.out ++ rest ∧ ∀ o ∈ rest, Output.quiet o := by
  have hcontrol : ControlStep db room db' after → after.dead.isSome ∧ db' = db ∧
      ∃ rest, after.out = room.out ++ rest ∧ ∀ o ∈ rest, Output.quiet o := by
    intro hc
    cases hc with
    | same same => exact ⟨same.dead hd, rfl, same.out⟩
    | compacted keeps alive step keeps' =>
      have hmid := keeps.dead hd
      rw [alive] at hmid
      cases hmid
  cases h with
  | loop calm calm' step => exact hcontrol step
  | start calm step => exact hcontrol step
  | stage step =>
    cases step with
    | kept keeps => exact ⟨keeps.dead hd, rfl, keeps.out⟩
    | acked keeps again => exact ⟨keeps.dead hd, rfl, keeps.out⟩
    | poisoned keeps dead => exact ⟨dead, rfl, keeps.out⟩
    | pushed alive carried keeps connected authorized unseen missing stages =>
      rw [alive] at hd
      cases hd
  | finish cause step =>
    cases step with
    | dead dead =>
      refine ⟨dead, rfl, [], ?_, fun _ ho => by cases ho⟩
      rw [append_nil]
    | acked alive empty keeps =>
      rw [alive] at hd
      cases hd
    | committed alive step =>
      rw [alive] at hd
      cases hd

theorem TaskStep.alive (h : TaskStep e db room phase db' after phase') (ha : after.dead = none) :
    room.dead = none := by
  cases hd : room.dead with
  | none => rfl
  | some code =>
    have := (h.dead (by rw [hd]; rfl)).1
    rw [ha] at this
    cases this

variable {batch : Batch} {mutation : Mutation}

theorem stageMutation_staged {site : SiteId}
    {document : env.engine.Doc} {staged : Staged}
    (h : room.stageMutation env batch site mutation = .staged document staged) :
    staged.revision = (if staged.action.changes then batch.nextRevision + 1 else batch.nextRevision) ∧
      ∀ message, staged.relay = some message → ∀ conn, Output.quiet (.sent conn message) := by
  have hnext : ∀ {n m : Nat}, nextRevision n = some m → m = n + 1 := by
    intro n m hn
    unfold nextRevision at hn
    split at hn
    · exact (Option.some.inj hn).symm
    · cases hn
  unfold stageMutation at h
  cases hk : mutation.kind with
  | update =>
    rw [hk] at h
    simp only [stageUpdate] at h
    split at h
    · split at h
      · split at h
        · cases h
        split at h
        · split at h
          · cases h
          rename_i revision hrev
          obtain ⟨-, hst⟩ := Staging.staged.inj h
          rw [← hst]
          refine ⟨hnext hrev, fun message hm conn => ?_⟩
          cases hm
          trivial
        · obtain ⟨-, hst⟩ := Staging.staged.inj h
          rw [← hst]
          exact ⟨rfl, fun message hm => absurd hm (by simp)⟩
      · cases h
    · cases h
  | snapshot =>
    rw [hk] at h
    simp only [stageSnapshot] at h
    split at h
    · cases h
    split at h
    · cases h
    split at h
    · cases h
    split at h
    · obtain ⟨-, hst⟩ := Staging.staged.inj h
      rw [← hst]
      exact ⟨rfl, fun message hm => absurd hm (by simp)⟩
    split at h
    · cases h
    split at h
    · cases h
    rename_i revision hrev
    obtain ⟨-, hst⟩ := Staging.staged.inj h
    rw [← hst]
    refine ⟨hnext hrev, fun message hm conn => ?_⟩
    cases hm
    trivial

theorem quietRelays_pushCommit {conn : ConnId} {digest : Bytes}
    {actor : ActorReceipt} {now : Millis} {staged : Staged} (h : QuietRelays batch)
    (hr : ∀ message, staged.relay = some message → ∀ conn, Output.quiet (.sent conn message)) :
    QuietRelays (pushCommit batch conn mutation digest actor now staged) := by
  intro commit hc
  rcases mem_append.mp hc with hc | hc
  · exact h commit hc
  · rw [mem_singleton.mp hc]
    exact hr

theorem Server.Tidy.effect {s s' : Server env.engine} {e : Event} (ht : Tidy s) (h : Effect s e s') : Tidy s' := by
  cases h with
  | aside aside reads =>
    exact ⟨fun t room phase hr => ht.out t room phase (aside.runs t room phase hr),
      fun t room frames batch hr => ht.relays t room frames batch (aside.runs t room _ hr)⟩
  | hydrated t cause store log hydrates fresh runs =>
    refine ⟨fun u r p hr => ?_, fun u r frames batch hr => ?_⟩
    · rcases runs u r p hr with ⟨-, rfl, -⟩ | ⟨-, hr'⟩
      · exact fresh.2.1
      · exact ht.out u r p hr'
    · rcases runs u r _ hr with ⟨-, -, hp⟩ | ⟨-, hr'⟩
      · cases hp
      · exact ht.relays u r frames batch hr'
  | worked t before step hdb log runs =>
    refine ⟨fun u r p hr => ?_, fun u r frames batch hr => ?_⟩
    · rcases runs u r p hr with ⟨-, rfl, -⟩ | ⟨-, hr'⟩
      · rfl
      · exact ht.out u r p hr'
    rcases runs u r _ hr with ⟨-, -, hp⟩ | ⟨-, hr'⟩
    · cases step with
      | loop calm calm' step => rw [← hp] at calm'; exact absurd calm' (by simp [Phase.isStaging])
      | start calm step =>
        obtain ⟨-, hb⟩ := Phase.staging.inj hp
        rw [hb]
        exact fun commit hc => by cases hc
      | stage step =>
        obtain ⟨-, hb⟩ := Phase.staging.inj hp
        have hold := ht.relays t _ _ _ before
        rw [hb]
        cases step with
        | kept keeps => exact hold
        | acked keeps again => exact hold
        | poisoned keeps dead => exact hold
        | pushed alive carried keeps connected authorized unseen missing stages =>
          exact quietRelays_pushCommit hold (stageMutation_staged stages).2
      | finish cause step => cases hp
    · exact ht.relays u r frames batch hr'

end Marks
