import Mathlib.Data.List.Induction
import Marks.AuthoritySound
import Marks.LiveSound
import Marks.OpLog

/-! # No durable write without current authority

Wherever the server holds an actor (a ticket, an admitted upgrade, a call, a socket, a staged commit) it
holds it under an epoch at which the tables granted what the actor may do. A commit goes through only
under the current epoch and after a check of the actor's liveness, so its author has authority then. -/

namespace Marks

open Room List

variable {env : Env}

/-! ## Rooms -/

structure RoomHeld (S : PreparedCommit → RoomActor → Prop) (auth : AuthorityTables)
    (room : Room env.engine) (phase : Phase) : Prop where
  epoch : room.epoch ≤ auth.epoch
  actors : ∀ entry ∈ room.actors, Held auth room.epoch entry.2
  prepared : ∀ commit ∈ phase.prepared, ∃ actor, commit.actor = actorReceipt actor ∧
    authorizeRoomAction actor .editText = true ∧ Held auth room.epoch actor ∧ S commit actor

variable {S S' : PreparedCommit → RoomActor → Prop} {auth auth' : AuthorityTables} {room after : Room env.engine} {phase phase' : Phase}
  {P : Output → Prop}

section

variable (h : RoomHeld S auth room phase)
include h

theorem RoomHeld.grows (hg : Grows auth auth') :
    RoomHeld S auth' room phase where
  epoch := Nat.le_trans h.epoch hg.epoch
  actors := fun entry hmem => (h.actors entry hmem).grows hg
  prepared := by
    intro commit hmem
    obtain ⟨actor, hactor, hedit, hheld, hs⟩ := h.prepared commit hmem
    exact ⟨actor, hactor, hedit, hheld.grows hg, hs⟩

theorem RoomHeld.mono (hS : ∀ commit actor, S commit actor → S' commit actor) :
    RoomHeld S' auth room phase where
  epoch := h.epoch
  actors := h.actors
  prepared := by
    intro commit hmem
    obtain ⟨actor, hactor, hedit, hheld, hs⟩ := h.prepared commit hmem
    exact ⟨actor, hactor, hedit, hheld, hS commit actor hs⟩

theorem RoomHeld.fewer (he : after.epoch = room.epoch)
    (ha : after.actors ⊆ room.actors)
    (hp : ∀ commit ∈ phase'.prepared, commit ∈ phase.prepared) : RoomHeld S auth after phase' where
  epoch := by
    rw [he]
    exact h.epoch
  actors := by
    intro entry hmem
    rw [he]
    exact h.actors entry (ha hmem)
  prepared := by
    intro commit hmem
    rw [he]
    exact h.prepared commit (hp commit hmem)

theorem RoomHeld.keeps (hk : Keeps P room after) :
    RoomHeld S auth after phase :=
  h.fewer hk.epoch hk.actors fun _ hc => hc

theorem RoomHeld.settled : RoomHeld S auth room .idle :=
  h.fewer rfl (fun _ hx => hx) fun _ hc => by cases hc

end

theorem actors_of_sockets (h : after.sockets = room.sockets) : after.actors = room.actors := by
  unfold Room.actors
  rw [h]

variable {now : Millis}

theorem RoomHeld.join (h : RoomHeld S auth room .idle) {actor : RoomActor} {clientVersion : Option Version}
    (ha : Held auth actor.authorizationEpoch actor) :
    RoomHeld S auth (room.join env actor clientVersion now).1 .idle := by
  have hsend : ∀ (conn : ConnId) (frames : List OutMsg) (room : Room env.engine),
      Keeps (fun _ => True) room (sendInitial env conn frames room).1 := by
    intro conn frames
    induction frames with
    | nil => exact fun room => Keeps.refl room
    | cons message messages ih =>
      intro room
      have hs : Keeps (fun _ => True) room (room.trySend env conn message).1 := trySend_keeps trivial
      unfold sendInitial
      simp only
      split
      · exact hs.trans (ih _)
      · exact hs
  unfold Room.join
  split
  · exact h
  split
  · exact h
  rename_i hepoch
  split
  · exact h
  cases room.initialFrames env clientVersion with
  | none => exact h
  | some frames =>
    have hk := hsend room.nextConn frames room
    simp only
    split
    · have hsent := h.keeps hk
      refine ⟨hsent.epoch, fun entry hmem => ?_, fun _ hc => by cases hc⟩
      simp only [Room.actors, map_append, mem_append, map_cons, map_nil,
        mem_singleton] at hmem
      rcases hmem with hmem | rfl
      · exact hsent.actors entry hmem
      have heq : actor.authorizationEpoch = room.epoch := by simpa using hepoch
      show Held auth (sendInitial env room.nextConn frames room).1.epoch actor
      rw [hk.epoch, ← heq]
      exact ha
    · exact h.keeps hk

/-! ## Re-resolution -/

theorem reresolveActor_held {actor resolved : RoomActor} (he : room.epoch ≤ auth.epoch)
    (hb : Bound auth actor) (h : room.reresolveActor env auth now actor = some resolved) :
    Held auth room.epoch resolved := by
  cases actor with
  | principal actor =>
    obtain ⟨role, hrole, rfl⟩ := Option.map_eq_some_iff.mp h
    exact ⟨he, hb, fun _ hedit => ⟨role, hrole, hedit⟩⟩
  | scratch actor =>
    obtain ⟨hlive, heq⟩ := Option.ite_none_right_eq_some.mp h
    cases heq
    exact ⟨he, trivial, fun _ _ => hlive.2⟩

theorem socket_ne {conn : ConnId} (h : ¬ (room.socket env conn).isSome) :
    ∀ entry ∈ room.sockets, entry.1 ≠ conn := by
  intro entry hmem heq
  have hnone : room.socket env conn = none := by simpa using h
  have hall := lookup_eq_none_iff.mp hnone entry hmem
  simp [heq] at hall

theorem closeOne_socket (conn : ConnId) (code : CloseCode) :
    (room.closeOne env conn code).epoch = room.epoch ∧
      ∀ entry ∈ (room.closeOne env conn code).sockets, entry ∈ room.sockets ∧ entry.1 ≠ conn := by
  unfold closeOne
  split
  · refine ⟨(trySend_keeps (P := fun _ => True) trivial).epoch, fun entry hmem => ?_⟩
    have hsame : (((room.removeSocket env conn).trySend env conn (.close code)).1).sockets =
        (room.removeSocket env conn).sockets := by
      unfold trySend
      split <;> rfl
    rw [hsame] at hmem
    obtain ⟨hin, hne⟩ := mem_filter.mp hmem
    exact ⟨hin, by simpa using hne⟩
  · rename_i hnone
    exact ⟨rfl, fun entry hmem => ⟨hmem, socket_ne hnone entry hmem⟩⟩

theorem closeAll_sockets (code : CloseCode) : (room.closeAll env code).sockets = [] := by
  have hfold : ∀ (conns : List ConnId) (start : Room env.engine),
      ∀ entry ∈ (start.closeEach env conns code).sockets, entry ∈ start.sockets ∧ entry.1 ∉ conns := by
    intro conns
    induction conns with
    | nil => exact fun start entry hmem => ⟨hmem, not_mem_nil⟩
    | cons conn conns ih =>
      intro start entry hmem
      obtain ⟨hin, hout⟩ := ih (start.closeOne env conn code) entry hmem
      obtain ⟨hstart, hne⟩ := (closeOne_socket conn code).2 entry hin
      refine ⟨hstart, fun hcons => ?_⟩
      rcases mem_cons.mp hcons with heq | hrest
      · exact hne heq
      · exact hout hrest
  refine eq_nil_iff_forall_not_mem.mpr fun entry hmem => ?_
  obtain ⟨hin, hout⟩ := hfold _ room entry hmem
  exact hout (mem_map.mpr ⟨entry, hin, rfl⟩)

/-- The sockets of `done` are held, and the others are as they were. -/
structure Resolved (auth : AuthorityTables) (before room : Room env.engine) (done : List ConnId) :
    Prop where
  epoch : room.epoch = before.epoch
  sockets : ∀ entry ∈ room.sockets, Held auth before.epoch entry.2.actor ∨
    (entry ∈ before.sockets ∧ entry.1 ∉ done)

theorem Resolved.step {before : Room env.engine} {done : List ConnId} (h : Resolved auth before room done)
    {entry : ConnId × Option RoomActor}
    (he : ∀ actor, entry.2 = some actor → Held auth before.epoch actor) :
    Resolved auth before (applyResolved env room entry) (done ++ [entry.1]) := by
  have hother : ∀ known ∈ room.sockets, known.1 ≠ entry.1 →
      Held auth before.epoch known.2.actor ∨ (known ∈ before.sockets ∧ known.1 ∉ done ++ [entry.1]) := by
    intro known hmem hne
    rcases h.sockets known hmem with hheld | ⟨hbefore, hdone⟩
    · exact Or.inl hheld
    refine Or.inr ⟨hbefore, fun hin => ?_⟩
    rcases mem_append.mp hin with hin | hin
    · exact hdone hin
    · exact hne (mem_singleton.mp hin)
  obtain ⟨conn, resolved⟩ := entry
  unfold applyResolved
  cases resolved with
  | none =>
    obtain ⟨hepoch, hsockets⟩ := closeOne_socket conn closeUnauthorized
    refine ⟨hepoch.trans h.epoch, fun known hmem => ?_⟩
    obtain ⟨hin, hne⟩ := hsockets known hmem
    exact hother known hin hne
  | some actor =>
    cases hs : room.socket env conn with
    | none =>
      refine ⟨h.epoch, fun known hmem => ?_⟩
      exact hother known hmem (socket_ne (by rw [hs]; simp) known hmem)
    | some socket =>
      refine ⟨h.epoch, fun known hmem => ?_⟩
      simp only [setSocket, mem_map] at hmem
      obtain ⟨old, hold, hmap⟩ := hmem
      by_cases hc : old.1 = conn
      · rw [if_pos hc] at hmap
        rw [← hmap]
        exact Or.inl (he actor rfl)
      · rw [if_neg hc] at hmap
        rw [← hmap]
        exact hother old hold hc

theorem Resolved.fold {before : Room env.engine} {done : List ConnId}
    (entries : List (ConnId × Option RoomActor)) (h : Resolved auth before room done)
    (he : ∀ entry ∈ entries, ∀ actor, entry.2 = some actor → Held auth before.epoch actor) :
    Resolved auth before (entries.foldl (applyResolved env) room) (done ++ entries.map (·.1)) := by
  induction entries generalizing room done with
  | nil =>
    rw [map_nil, append_nil]
    exact h
  | cons entry entries ih =>
    have hstep := h.step (he entry mem_cons_self)
    have hrest := ih hstep fun other hmem => he other (mem_cons_of_mem _ hmem)
    rw [append_assoc, singleton_append] at hrest
    exact hrest

theorem reresolveSockets_held (he : room.epoch ≤ auth.epoch)
    (hb : ∀ entry ∈ room.actors, Bound auth entry.2) (storage : Storage) (now : Millis) :
    (room.reresolveSockets env auth storage now).epoch = room.epoch ∧
      ∀ entry ∈ (room.reresolveSockets env auth storage now).actors, Held auth room.epoch entry.2 := by
  have hmem : ∀ {entry}, entry ∈ room.sockets → (entry.1, entry.2.actor) ∈ room.actors :=
    fun hin => mem_map.mpr ⟨_, hin, rfl⟩
  unfold reresolveSockets
  split
  · have hempty : (room.closeAll env closeInternal).sockets = [] := closeAll_sockets closeInternal
    refine ⟨(closeAll_keeps (P := fun _ => True) (fun _ _ => trivial) closeInternal).epoch, ?_⟩
    intro entry hin
    simp only [Room.actors, hempty, map_nil] at hin
    cases hin
  · have hstart : Resolved auth room room [] := ⟨rfl, fun entry hin => Or.inr ⟨hin, not_mem_nil⟩⟩
    have hfold := hstart.fold (room.sockets.map fun entry =>
      (entry.1, if auth.live then room.reresolveActor env auth now entry.2.actor else none)) ?_
    · refine ⟨hfold.epoch, fun entry hin => ?_⟩
      obtain ⟨known, hknown, rfl⟩ := mem_map.mp hin
      rcases hfold.sockets known hknown with hheld | ⟨hbefore, hdone⟩
      · exact hheld
      · refine absurd ?_ hdone
        rw [nil_append, map_map]
        exact mem_map.mpr ⟨known, hbefore, rfl⟩
    · intro entry hin actor hactor
      obtain ⟨known, hknown, rfl⟩ := mem_map.mp hin
      obtain ⟨-, hresolved⟩ := Option.ite_none_right_eq_some.mp hactor
      exact reresolveActor_held he (hb _ (hmem hknown)) hresolved

/-! ## What a step does to what is held -/

def ControlHeld (auth : AuthorityTables) : RoomControl → Prop
  | .authority (.epochChanged epoch) => epoch ≤ auth.epoch
  | _ => True

variable {db : Database}

theorem RoomHeld.control (h : RoomHeld S db.auth room phase) (hphase : phase.prepared = [])
    (storage : Storage) (now : Millis) {control : RoomControl} (hc : ControlHeld db.auth control) :
    RoomHeld S db.auth (room.control env db storage now control).2 phase := by
  have hquiet : ∀ {after : Room env.engine}, Keeps (fun _ => True) room after →
      RoomHeld S db.auth after phase := fun hk => h.keeps hk
  cases control with
  | leave conn =>
    have hleft := hquiet (removeSocket_keeps conn)
    simp only [Room.control]
    split
    · obtain ⟨-, -, -, -, hepoch, hsockets⟩ :=
        (compact_step (room.removeSocket env conn) db storage).fields
      refine hleft.fewer hepoch ?_ fun _ hc => hc
      rw [actors_of_sockets hsockets]
      exact fun _ hx => hx
    · exact hleft
  | authority control =>
    cases control with
    | deleted =>
      exact hquiet (kill_keeps closeDocumentDeleted
        (closeAll_keeps (fun _ _ => trivial) closeDocumentDeleted))
    | sessionRevoked sessionId => exact hquiet (closeEach_keeps (fun _ _ => trivial) _ _)
    | deviceRevoked deviceId => exact hquiet (closeEach_keeps (fun _ _ => trivial) _ _)
    | epochChanged epoch =>
      have hbound : ∀ entry ∈ { room with epoch }.actors, Bound db.auth entry.2 :=
        fun entry hmem => (h.actors entry hmem).bound
      have hle : ({ room with epoch } : Room env.engine).epoch ≤ db.auth.epoch := hc
      obtain ⟨hepoch, hactors⟩ := reresolveSockets_held hle hbound storage now
      refine ⟨?_, ?_, ?_⟩
      · simp only [Room.control]
        rw [hepoch]
        exact hc
      · simp only [Room.control]
        rw [hepoch]
        exact hactors
      · rw [hphase]
        exact fun _ hmem => by cases hmem

variable {batch : Batch}

theorem RoomHeld.frame {frames frames' : List (ConnId × Bytes)} {batch' : Batch}
    {frame : Inbound} (h : RoomHeld S auth room (.staging frames batch))
    (hnew : ∀ commit actor mutation, commit.conn = frame.conn → (frame.conn, actor) ∈ room.actors →
      frame.carries mutation → mutation.id = commit.id → S commit actor)
    (step : FrameStep db room batch frame after batch') : RoomHeld S auth after (.staging frames' batch') := by
  have hsame : ∀ {document : env.engine.Doc}, Keeps Output.quiet { room with document } after →
      batch'.prepared = batch.prepared → RoomHeld S auth after (.staging frames' batch') := by
    intro document hk hp
    refine h.fewer hk.epoch hk.actors fun commit hc => ?_
    simp only [Phase.prepared, hp] at hc
    exact hc
  cases step with
  | kept keeps => exact hsame keeps rfl
  | acked keeps again => exact hsame keeps rfl
  | poisoned keeps dead => exact hsame keeps rfl
  | pushed alive carried keeps connected authorized unseen missing stages =>
    rename_i document actor mutation staged
    have hk : after.epoch = room.epoch := keeps.epoch
    refine ⟨by rw [hk]; exact h.epoch, ?_, ?_⟩
    · intro entry hmem
      rw [hk]
      exact h.actors entry (keeps.actors hmem)
    intro commit hc
    rw [hk]
    rcases mem_append.mp hc with hc | hc
    · exact h.prepared commit hc
    · rw [mem_singleton.mp hc]
      refine ⟨actor, rfl, authorized, h.actors _ connected, ?_⟩
      exact hnew _ actor mutation rfl connected carried rfl

variable {db' : Database}

theorem RoomHeld.finish
    (h : RoomHeld S auth room (.staging [] batch)) (step : FinishStep db room now batch db' after) :
    RoomHeld S auth after .idle := by
  have hsettled : ∀ compact, RoomHeld S auth
      ((room.recordDurable env true batch.prepared).settle env compact batch) .idle := by
    intro compact
    unfold settle
    simp only
    split
    · unfold Room.prune
      split <;> exact h.settled.fewer rfl (fun _ hx => hx) fun _ hc => hc
    · exact h.settled.fewer rfl (fun _ hx => hx) fun _ hc => hc
  cases step with
  | dead dead => exact h.settled
  | acked alive empty keeps => exact h.settled.keeps keeps
  | committed alive step =>
    cases step with
    | aborted keeps dead => exact h.settled.keeps keeps
    | lost export_ tx keeps dead =>
      have hrecorded : RoomHeld S auth (room.recordDurable env true batch.prepared) .idle :=
        h.settled.fewer rfl (fun _ hx => hx) fun _ hc => hc
      exact hrecorded.keeps keeps
    | done export_ tx keeps => exact (hsettled _).keeps keeps

/-! ## The server -/

structure TaskHeld (S : PreparedCommit → RoomActor → Prop) (auth : AuthorityTables)
    (task : Task env.engine) : Prop where
  lane : ∀ control ∈ task.lane, ControlHeld auth control
  body : ∀ room phase, task.body = .running room phase → RoomHeld S auth room phase

variable {task task' : Task env.engine}

theorem TaskHeld.quiet (h : TaskHeld S auth task) (hl : ∀ control ∈ task'.lane, control ∈ task.lane)
    (hb : ∀ room phase, task'.body = .running room phase → task.body = .running room phase) :
    TaskHeld S auth task' where
  lane := fun control hmem => h.lane control (hl control hmem)
  body := fun room phase hbody => h.body room phase (hb room phase hbody)

theorem controlHeld_grows {control : RoomControl} (h : ControlHeld auth control) (hg : Grows auth auth') :
    ControlHeld auth' control := by
  cases control with
  | leave conn => trivial
  | authority control =>
    cases control with
    | epochChanged epoch => exact Nat.le_trans h hg.epoch
    | deleted => trivial
    | sessionRevoked sessionId => trivial
    | deviceRevoked deviceId => trivial

theorem TaskHeld.grows (h : TaskHeld S auth task) (hg : Grows auth auth') : TaskHeld S auth' task where
  lane := fun control hmem => controlHeld_grows (h.lane control hmem) hg
  body := fun room phase hbody => (h.body room phase hbody).grows hg

theorem notices_held (route : Route) : ∀ control ∈ route.notices auth auth',
    ControlHeld auth' (.authority control) := by
  have hself : ControlHeld auth' (.authority (.epochChanged auth'.epoch)) := Nat.le_refl _
  intro control hmem
  cases route with
  | sessionDelete caller now => rw [mem_singleton.mp hmem]; trivial
  | deviceRevoke caller target now => rw [mem_singleton.mp hmem]; trivial
  | delete caller now => rw [mem_singleton.mp hmem]; trivial
  | sharePut caller grantee role now => rw [mem_singleton.mp hmem]; exact hself
  | shareDelete caller grantee now => rw [mem_singleton.mp hmem]; exact hself
  | linkCreate caller role tokenHash ttl now => rw [mem_singleton.mp hmem]; exact hself
  | linkRevoke caller now => rw [mem_singleton.mp hmem]; exact hself
  | claim scratchId principalId deviceId now =>
    simp only [Route.notices] at hmem
    split at hmem
    · rw [mem_singleton.mp hmem]
      exact hself
    · cases hmem
  | _ => cases hmem

theorem compact_auth (room : Room env.engine) (db : Database) (storage : Storage) :
    (room.compact env db storage).1.auth = db.auth := by
  have hauth : ∀ {db' : Database} {after : Room env.engine}, CompactStep db room db' after →
      db'.auth = db.auth := by
    intro db' after step
    cases step with
    | skipped => rfl
    | moved export_ tx after_eq => rw [(compactTx_ok tx).2]
  exact hauth (compact_step room db storage)

theorem control_auth (room : Room env.engine) (db : Database) (storage : Storage) (now : Millis)
    (control : RoomControl) :
    (room.control env db storage now control).1.auth = db.auth := by
  cases control with
  | leave conn =>
    simp only [Room.control]
    split
    · exact compact_auth _ db storage
    · rfl
  | authority control => cases control <;> rfl

theorem finish_auth
    (h : FinishStep db room now batch db' after) : db'.auth = db.auth := by
  cases h with
  | dead dead => rfl
  | acked alive empty keeps => rfl
  | committed alive step =>
    cases step with
    | aborted keeps dead => rfl
    | lost export_ tx keeps dead => exact (commitTx_ok tx).2.1
    | done export_ tx keeps => exact (commitTx_ok tx).2.1

namespace Server

/-- Every actor the server holds is held under its epoch. -/
structure Guarded (S : PreparedCommit → RoomActor → Prop) (s : Server env.engine) : Prop where
  tickets : TicketsHeld s.db.auth
  callers : ∀ caller ∈ s.callers, CallerBound s.db.auth caller
  admitted : ∀ actor ∈ s.admitted, Held s.db.auth actor.authorizationEpoch actor
  joins : ∀ join ∈ s.joins, Held s.db.auth join.actor.authorizationEpoch join.actor
  notices : ∀ control ∈ s.notices, ControlHeld s.db.auth (.authority control)
  tasks : ∀ task ∈ s.tasks, TaskHeld S s.db.auth task

variable {s s' : Server env.engine} {t : TaskId}

def Submits (s : Server env.engine) (e : Event) (commit : PreparedCommit) (actor : RoomActor) : Prop :=
  ∃ t storage now room data frames batch mutation, e = .stage t storage now ∧
    Runs s t room (.staging ((commit.conn, data) :: frames) batch) ∧ (commit.conn, actor) ∈ room.actors ∧
    Inbound.carries ⟨commit.conn, data, now⟩ mutation ∧ mutation.id = commit.id

section

variable (h : Guarded S s)
include h

theorem Guarded.fewer (ha : s'.db.auth = s.db.auth)
    (hc : s'.callers ⊆ s.callers) (hd : s'.admitted ⊆ s.admitted) (hj : s'.joins ⊆ s.joins)
    (hn : s'.notices ⊆ s.notices) (ht : ∀ task ∈ s'.tasks, TaskHeld S s.db.auth task) : Guarded S s' := by
  refine ⟨?_, ?_, ?_, ?_, ?_, ?_⟩ <;> rw [ha]
  · exact h.tickets
  · exact fun caller hmem => h.callers caller (hc hmem)
  · exact fun actor hmem => h.admitted actor (hd hmem)
  · exact fun join hmem => h.joins join (hj hmem)
  · exact fun control hmem => h.notices control (hn hmem)
  · exact ht

theorem Guarded.same (ha : s'.db.auth = s.db.auth) (hc : s'.callers = s.callers)
    (hd : s'.admitted = s.admitted) (hj : s'.joins = s.joins) (hn : s'.notices = s.notices)
    (ht : s'.tasks = s.tasks) : Guarded S s' := by
  refine h.fewer ha ?_ ?_ ?_ ?_ ?_
  · rw [hc]; exact fun _ hx => hx
  · rw [hd]; exact fun _ hx => hx
  · rw [hj]; exact fun _ hx => hx
  · rw [hn]; exact fun _ hx => hx
  · rw [ht]; exact h.tasks

theorem Guarded.heldAt (ht : s.tasks[t]? = some task) : TaskHeld S s.db.auth task :=
  h.tasks task (mem_of_getElem? ht)

theorem Guarded.setTask (ht : TaskHeld S s.db.auth task) : Guarded S (s.setTask env t task) := by
  refine h.fewer rfl (fun _ hx => hx) (fun _ hx => hx) (fun _ hx => hx) (fun _ hx => hx) ?_
  intro other hmem
  rcases mem_or_eq_of_mem_set hmem with hmem | rfl
  · exact h.tasks other hmem
  · exact ht

theorem Guarded.putRoom (hl : ∀ control ∈ task.lane, ControlHeld s.db.auth control)
    (hr : RoomHeld S s.db.auth room phase) : Guarded S (s.putRoom env t task room phase) := by
  have hroom : RoomHeld S s.db.auth { room with out := [] } phase :=
    hr.fewer rfl (fun _ hx => hx) fun _ hc => hc
  have hset : Guarded S (s.setTask env t { task with body := .running { room with out := [] } phase }) := by
    refine h.setTask ⟨hl, fun r p hbody => ?_⟩
    obtain ⟨rfl, rfl⟩ := Body.running.inj hbody
    exact hroom
  exact hset.same rfl rfl rfl rfl rfl rfl

theorem Guarded.store (ha : db.auth = s.db.auth) :
    Guarded S { s with db } := by
  refine h.fewer ha (fun _ hx => hx) (fun _ hx => hx) (fun _ hx => hx) (fun _ hx => hx) h.tasks

theorem Guarded.finishTask {body : Body env.engine}
    (hb : ∀ room phase, body ≠ .running room phase) : Guarded S (s.finishTask env t task body) :=
  h.setTask ⟨fun _ hmem => absurd hmem not_mem_nil, fun room phase hbody => absurd hbody (hb room phase)⟩

end

theorem abort_held (h : TaskHeld S auth task) : TaskHeld S auth task.abort := by
  refine h.quiet ?_ (abort_body task)
  intro control hmem
  unfold Task.abort at hmem
  split at hmem
  · exact hmem
  · exact hmem
  · cases hmem

theorem Guarded.abortTask (h : Guarded S s) : Guarded S (s.abortTask env t) := by
  unfold Server.abortTask
  cases ht : s.tasks[t]? with
  | none => exact h
  | some task => exact h.setTask (abort_held (h.heldAt ht))

theorem Guarded.evictTask (h : Guarded S s) : Guarded S (s.evictTask env t) := by
  unfold Server.evictTask
  split
  · exact (h.same rfl rfl rfl rfl rfl rfl : Guarded S { s with entry := none }).abortTask
  · exact h

theorem Guarded.sendControl (h : Guarded S s) {control : RoomControl} (hc : ControlHeld s.db.auth control)
    (hs : s.sendControl env t control = some s') : Guarded S s' ∧ s'.db = s.db := by
  unfold Server.sendControl at hs
  split at hs
  · rename_i task ht
    split at hs
    · cases hs
      refine ⟨h.setTask ⟨fun other hmem => ?_, (h.heldAt ht).body⟩, rfl⟩
      rcases mem_append.mp hmem with hmem | hmem
      · exact (h.heldAt ht).lane other hmem
      · rw [mem_singleton.mp hmem]
        exact hc
    · cases hs
  · cases hs

variable {message : RoomMsg}

theorem Guarded.sendMessage (h : Guarded S s)
    (hs : s.sendMessage env t message = some s') : Guarded S s' := by
  unfold Server.sendMessage at hs
  split at hs
  · rename_i task ht
    split at hs
    · cases hs
      exact h.setTask ((h.heldAt ht).quiet (fun _ hx => hx) fun _ _ hb => hb)
    · cases hs
  · cases hs

theorem sendMessage_joins (hs : s.sendMessage env t message = some s') :
    s.joins = s'.joins := by
  unfold Server.sendMessage at hs
  split at hs
  · split at hs
    · cases hs
      rfl
    · cases hs
  · cases hs

variable {call : Nat} {join : JoinCall}

theorem Guarded.setJoin (h : Guarded S s) (hj : join ∈ s.joins)
    (phase : JoinPhase) : Guarded S (s.setJoin env call join phase) := by
  refine ⟨h.tickets, h.callers, h.admitted, fun other hmem => ?_, h.notices, h.tasks⟩
  rcases mem_or_eq_of_mem_set hmem with hmem | rfl
  · exact h.joins other hmem
  · exact h.joins join hj

theorem Guarded.answer (h : Guarded S s) (hj : join ∈ s.joins)
    (result : Except JoinRefusal (TaskId × ConnId)) : Guarded S (s.answer env call join result) :=
  (h.setJoin hj .answered).same rfl rfl rfl rfl rfl rfl

theorem Guarded.spawn (h : Guarded S s) : Guarded S (s.spawn env) := by
  refine h.fewer rfl (fun _ hx => hx) (fun _ hx => hx) (fun _ hx => hx) (fun _ hx => hx) ?_
  intro task hmem
  rcases mem_append.mp hmem with hmem | hmem
  · exact h.tasks task hmem
  · rw [mem_singleton.mp hmem]
    exact ⟨fun _ hl => absurd hl not_mem_nil, fun _ _ hb => absurd hb (by simp)⟩

theorem Guarded.lookupEntry (h : Guarded S s) (hj : join ∈ s.joins)
    {crowded : Bool} {vacant : Server env.engine → Server env.engine}
    (hv : Guarded S { s with entry := none } → Guarded S (vacant { s with entry := none })) :
    Guarded S (s.lookupEntry env call join crowded vacant) := by
  have hnone : Guarded S { s with entry := none } := h.same rfl rfl rfl rfl rfl rfl
  unfold Server.lookupEntry
  split
  · exact h.setJoin hj _
  simp only
  split
  · exact hnone.answer hj _
  · exact hv hnone

theorem Guarded.stepJoin (h : Guarded S s) {f : JoinCall → Server env.engine}
    (hf : ∀ join ∈ s.joins, Guarded S (f join)) : Guarded S (s.stepJoin env call f) := by
  unfold Server.stepJoin
  split
  · rename_i join hjoin
    exact hf join (mem_of_getElem? hjoin)
  · exact h

theorem Guarded.stepTask (h : Guarded S s) {f : Task env.engine → Server env.engine}
    (hf : ∀ task, s.tasks[t]? = some task → Guarded S (f task)) : Guarded S (s.stepTask env t f) := by
  unfold Server.stepTask
  split
  · rename_i task htask
    exact hf task htask
  · exact h

/-! ## Every event -/

theorem cookieSession_bound {sessionId : SessionId} {session : AuthenticatedSession}
    (h : cookieSession auth sessionId now = some session) : CallerBound auth (.principal session) := by
  unfold cookieSession at h
  cases hs : auth.loadSession sessionId with
  | none => rw [hs] at h; cases h
  | some row =>
    rw [hs] at h
    simp only at h
    split at h
    · obtain ⟨-, heq⟩ := Option.ite_none_right_eq_some.mp h
      have hid : row.id = sessionId := by simpa using find?_some hs
      cases heq
      exact ⟨row, hid ▸ hs, rfl, rfl⟩
    · cases h

section

variable (h : Guarded S s)
include h

theorem Guarded.applyRoute (route : Route) : Guarded S (s.applyRoute env route) := by
  unfold Server.applyRoute
  split
  · rename_i hauth
    cases hok : route.apply s.db.auth with
    | error error => exact h
    | ok auth =>
      have hcaller : ∀ caller, route.caller = some caller → CallerBound s.db.auth caller := by
        intro caller hc
        unfold authenticated at hauth
        rw [hc] at hauth
        exact h.callers caller (by simpa using hauth)
      obtain ⟨hg, htickets⟩ := route_step h.tickets hcaller hok
      refine ⟨htickets, ?_, ?_, ?_, ?_, ?_⟩
      · exact fun caller hmem => (h.callers caller hmem).grows hg
      · exact fun actor hmem => (h.admitted actor hmem).grows hg
      · exact fun join hmem => (h.joins join hmem).grows hg
      · intro control hmem
        rcases mem_append.mp hmem with hmem | hmem
        · exact controlHeld_grows (h.notices control hmem) hg
        · exact notices_held route control hmem
      · exact fun task hmem => (h.tasks task hmem).grows hg
  · exact h

theorem Guarded.admission (ticketId : TicketId) (secretMatches : Bool)
    (cookie : Option AuthenticatedSession) (now : Millis) :
    Guarded S (s.admission env ticketId secretMatches cookie now) := by
  unfold Server.admission
  split
  · cases hok : admitTicket s.db.auth ticketId secretMatches cookie now with
    | error error => exact h
    | ok result =>
      obtain ⟨hg, htickets, hactor⟩ := admitTicket_step h.tickets hok
      refine ⟨htickets, ?_, ?_, ?_, ?_, ?_⟩
      · exact fun caller hmem => (h.callers caller hmem).grows hg
      · intro actor hmem
        rcases mem_append.mp hmem with hmem | hmem
        · exact (h.admitted actor hmem).grows hg
        · rw [mem_singleton.mp hmem]
          exact hactor
      · exact fun join hmem => (h.joins join hmem).grows hg
      · exact fun control hmem => controlHeld_grows (h.notices control hmem) hg
      · exact fun task hmem => (h.tasks task hmem).grows hg
  · exact h

theorem Guarded.dispatchControl {control : Control}
    (hc : ControlHeld s.db.auth (.authority control)) : Guarded S (s.dispatchControl env control) := by
  unfold Server.dispatchControl
  split
  · exact h
  split
  · rename_i sent hsent
    have hs := (h.sendControl hc hsent).1
    split
    · exact hs.same rfl rfl rfl rfl rfl rfl
    · exact hs
  · exact h.evictTask

theorem Guarded.receiveRunning (hl : ∀ c ∈ task.lane,
    ControlHeld s.db.auth c) (hb : task.body = .running room .idle)
    (hr : RoomHeld S s.db.auth room .idle) (storage : Storage) (now : Millis) :
    Guarded S (s.receiveRunning env t task room message storage now) := by
  have hset : Guarded S (s.setTask env t task) := by
    refine h.setTask ⟨hl, fun r p hbody => ?_⟩
    rw [hb] at hbody
    obtain ⟨rfl, rfl⟩ := Body.running.inj hbody
    exact hr
  cases message with
  | join call =>
    simp only [Server.receiveRunning, Server.receiveJoin]
    split
    · rename_i join hjoin
      have hmem : join ∈ s.joins := mem_of_getElem? hjoin
      split
      · exact (h.putRoom hl (hr.join (h.joins join hmem))).answer hmem _
      · exact hset
    · exact hset
  | frame conn data => exact h.putRoom hl (hr.fewer rfl (fun _ hx => hx) fun _ hc => hc)
  | read reader =>
    simp only [Server.receiveRunning]
    split
    · exact hset.same rfl rfl rfl rfl rfl rfl
    · exact hset
  | shutdown =>
    simp only [Server.receiveRunning]
    refine Guarded.finishTask ?_ (fun _ _ hbody => by simp at hbody)
    by_cases hd : room.dead = none
    · simp only [if_pos hd]
      have hstep := compact_step room s.db storage
      have hcompact : RoomHeld S s.db.auth (room.compact env s.db storage).2 .idle := by
        refine hr.fewer hstep.fields.2.2.2.2.1 ?_ fun _ hc => hc
        rw [actors_of_sockets hstep.fields.2.2.2.2.2]
        exact fun _ hx => hx
      have hclosed := hcompact.keeps (closeAll_keeps (P := fun _ => True) (fun _ _ => trivial) closeInternal)
      have hauth := compact_auth room s.db storage
      exact (h.store hauth).putRoom (by rw [show _ = s.db.auth from hauth]; exact hl)
        (by rw [show _ = s.db.auth from hauth]; exact hclosed)
    · simp only [if_neg hd]
      exact (h.store rfl).putRoom hl
        (hr.keeps (closeAll_keeps (P := fun _ => True) (fun _ _ => trivial) closeInternal))

theorem Guarded.applyControl {control : RoomControl} {lane : List RoomControl}
    (hl : ∀ c ∈ control :: lane, ControlHeld s.db.auth c) (hr : RoomHeld S s.db.auth room phase)
    (hphase : phase.prepared = []) (storage : Storage) (now : Millis) (next : Phase)
    (hnext : next.prepared = []) :
    Guarded S ({ s with db := (room.control env s.db storage now control).1 }.putRoom env t
      { task with lane } (room.control env s.db storage now control).2 next) := by
  have hauth := control_auth room s.db storage now control
  have hheld := hr.control hphase storage now (hl control mem_cons_self)
  refine (h.store hauth).putRoom ?_ ?_
  · intro c hmem
    show ControlHeld (room.control env s.db storage now control).1.auth c
    rw [hauth]
    exact hl c (mem_cons_of_mem _ hmem)
  · show RoomHeld S (room.control env s.db storage now control).1.auth _ _
    rw [hauth]
    refine hheld.fewer rfl (fun _ hx => hx) fun _ hc => ?_
    rw [hnext] at hc
    cases hc

theorem Guarded.receive (storage : Storage) (now : Millis) :
    Guarded S (s.receive env t storage now) := by
  refine h.stepTask fun task htask => ?_
  have hheld := h.heldAt htask
  split
  · rename_i room message inbox hbody hinbox
    split
    · refine h.receiveRunning ?_ ?_ (hheld.body _ _ hbody) storage now
      · exact hheld.lane
      · exact hbody
    · exact h
  · rename_i message inbox hbody hinbox
    have hset : Guarded S (s.setTask env t { task with inbox }) :=
      h.setTask (hheld.quiet (fun _ hx => hx) fun _ _ hb => hb)
    cases message with
    | join call =>
      refine hset.stepJoin fun join hmem => ?_
      split
      · exact hset.answer hmem _
      · exact hset
    | shutdown => exact h.finishTask fun _ _ hb => by simp at hb
    | frame conn data => exact hset
    | read reader => exact hset
  · exact h

theorem Guarded.process (storage : Storage) (now : Millis) :
    Guarded S (s.process env t storage now) := by
  refine h.stepTask fun task htask => ?_
  have hheld := h.heldAt htask
  split
  · rename_i room frames hbody
    have hr := hheld.body _ _ hbody
    have hstart : Guarded S (s.putRoom env t task room (.staging frames (room.startBatch env))) :=
      h.putRoom hheld.lane (hr.fewer rfl (fun _ hx => hx) fun _ hc => by cases hc)
    split
    · rename_i control lane hlane
      split
      · exact h.applyControl (by rw [← hlane]; exact hheld.lane) hr rfl storage now _ rfl
      · exact hstart
    · exact hstart
  · exact h

theorem Guarded.commit (htidy : Tidy s) (storage : Storage) (now : Millis) :
    Guarded S (s.commit env t storage now) := by
  refine h.stepTask fun task htask => ?_
  have hheld := h.heldAt htask
  split
  · rename_i room batch hbody
    have hquiet : QuietRelays batch := htidy.relays t room [] batch ⟨task, htask, hbody⟩
    have hstep := finishFrames_step room s.db storage now batch hquiet
    have hauth := finish_auth hstep
    have hr := (hheld.body _ _ hbody).finish hstep
    have hput : Guarded S ({ s with db := (room.finishFrames env s.db storage now batch).1 }.putRoom env t
        task (room.finishFrames env s.db storage now batch).2 .idle) := (h.store hauth).putRoom
      (by rw [show _ = s.db.auth from hauth]; exact hheld.lane)
      (by rw [show _ = s.db.auth from hauth]; exact hr)
    simp only
    split
    · exact hput.finishTask fun _ _ hb => by simp at hb
    · exact hput
  · exact h

theorem Guarded.step (htidy : Tidy s) (e : Event)
    (hnew : ∀ commit actor, Submits s e commit actor → S commit actor) : Guarded S (s.step env e) := by
  cases e with
  | authenticate sessionId now =>
    simp only [Server.step]
    split
    · rename_i session hsession
      refine ⟨h.tickets, fun caller hmem => ?_, h.admitted, h.joins, h.notices, h.tasks⟩
      rcases mem_append.mp hmem with hmem | hmem
      · exact h.callers caller hmem
      · rw [mem_singleton.mp hmem]
        exact cookieSession_bound hsession
    · exact h
  | authenticateScratch scratchId now =>
    simp only [Server.step]
    split
    · refine ⟨h.tickets, fun caller hmem => ?_, h.admitted, h.joins, h.notices, h.tasks⟩
      rcases mem_append.mp hmem with hmem | hmem
      · exact h.callers caller hmem
      · rw [mem_singleton.mp hmem]
        trivial
    · exact h
  | route route => exact h.applyRoute route
  | admission ticketId secretMatches cookie now => exact h.admission ticketId secretMatches cookie now
  | dispatch notice =>
    simp only [Server.step]
    split
    · rename_i control hcontrol
      have herased : Guarded S { s with notices := s.notices.eraseIdx notice } :=
        h.fewer rfl (fun _ hx => hx) (fun _ hx => hx) (fun _ hx => hx)
          (fun _ hx => mem_of_mem_eraseIdx hx) h.tasks
      exact herased.dispatchControl (h.notices control (mem_of_getElem? hcontrol))
    · exact h
  | lose notice =>
    exact h.fewer rfl (fun _ hx => hx) (fun _ hx => hx) (fun _ hx => hx)
      (fun _ hx => mem_of_mem_eraseIdx hx) h.tasks
  | join actor clientVersion =>
    simp only [Server.step]
    split
    · rename_i found hfound
      refine ⟨h.tickets, h.callers, ?_, fun join hmem => ?_, h.notices, h.tasks⟩
      · exact fun other hmem => h.admitted other (mem_of_mem_eraseIdx hmem)
      rcases mem_append.mp hmem with hmem | hmem
      · exact h.joins join hmem
      · rw [mem_singleton.mp hmem]
        exact h.admitted found (mem_of_getElem? hfound)
    · exact h
  | joinLookup call crowded =>
    refine h.stepJoin fun join hj => ?_
    split
    · exact h.lookupEntry hj fun hn => hn.setJoin hj _
    · exact h
  | joinCheck call storage =>
    refine h.stepJoin fun join hj => ?_
    split
    · exact h
    split
    · exact h.answer hj _
    · split
      · exact h.setJoin hj _
      · exact h.answer hj _
  | joinInsert call crowded =>
    refine h.stepJoin fun join hj => ?_
    split
    · exact h.lookupEntry hj fun hn => hn.spawn.setJoin hj _
    · exact h
  | joinSend call =>
    refine h.stepJoin fun join hj => ?_
    split
    · split
      · rename_i sent hsent
        exact (h.sendMessage hsent).setJoin (sendMessage_joins hsent ▸ hj) _
      · exact h.answer hj _
    · exact h
  | joinTimeout call =>
    refine h.stepJoin fun join hj => ?_
    split
    · exact h.answer hj _
    · exact h
  | joinDropped call =>
    refine h.stepJoin fun join hj => ?_
    split
    · split
      · exact h.answer hj _
      · exact h
    · exact h
  | frame t conn data =>
    simp only [Server.step]
    cases hs : s.sendMessage env t (.frame conn data) with
    | none => exact h
    | some sent => exact h.sendMessage hs
  | read reader =>
    simp only [Server.step]
    split
    · rename_i sent hsent
      obtain ⟨t, -, hs⟩ := Option.bind_eq_some_iff.mp hsent
      exact (h.sendMessage hs).same rfl rfl rfl rfl rfl rfl
    · exact h
  | readTimeout reader => exact h.same rfl rfl rfl rfl rfl rfl
  | leave t conn =>
    simp only [Server.step]
    split
    · cases hs : s.sendControl env t (.leave conn) with
      | none => exact h.evictTask
      | some sent => exact (h.sendControl (by trivial) hs).1
    · exact h
  | evict t => exact h.evictTask
  | abandon t =>
    refine h.stepTask fun task htask => ?_
    split
    · exact h.setTask (abort_held (h.heldAt htask))
    · exact h
  | hydrate t storage =>
    refine h.stepTask fun task htask => ?_
    have hheld := h.heldAt htask
    split
    · simp only
      split
      · refine h.setTask ⟨hheld.lane, fun room phase hbody => ?_⟩
        obtain ⟨rfl, rfl⟩ := Body.running.inj hbody
        exact ⟨Nat.le_refl _, fun _ hmem => absurd hmem not_mem_nil,
          fun _ hmem => absurd hmem not_mem_nil⟩
      · exact h.setTask ⟨hheld.lane, fun _ _ hbody => absurd hbody (by simp)⟩
    · exact h
  | control t storage now =>
    refine h.stepTask fun task htask => ?_
    have hheld := h.heldAt htask
    split
    · rename_i room control lane hbody hlane
      exact h.applyControl (by rw [← hlane]; exact hheld.lane) (hheld.body _ _ hbody) rfl storage now
        .idle rfl
    · exact h
  | receive t storage now => exact h.receive storage now
  | collect t =>
    refine h.stepTask fun task htask => ?_
    have hheld := h.heldAt htask
    split
    · rename_i room frames conn data inbox hbody hinbox
      split
      · exact h.putRoom hheld.lane ((hheld.body _ _ hbody).fewer rfl (fun _ hx => hx) fun _ hc => hc)
      · exact h
    · exact h
  | process t storage now => exact h.process storage now
  | stage t storage now =>
    refine h.stepTask fun task htask => ?_
    have hheld := h.heldAt htask
    split
    · rename_i room conn data frames batch hbody
      refine h.putRoom hheld.lane ((hheld.body _ _ hbody).frame ?_
        (stageFrame_step s.db storage room batch ⟨conn, data, now⟩))
      intro commit actor mutation hconn hconnected hcarries hid
      have hconn' : commit.conn = conn := hconn
      refine hnew commit actor ⟨t, storage, now, room, data, frames, batch, mutation, rfl, ?_, ?_, ?_, hid⟩
      · rw [hconn']
        exact ⟨task, htask, hbody⟩
      · rw [hconn']
        exact hconnected
      · rw [hconn']
        exact hcarries
    · exact h
  | commit t storage now => exact h.commit htidy storage now
  | idle t storage =>
    refine h.stepTask fun task htask => ?_
    split
    · rename_i room hbody
      split
      · exact (h.store (compact_auth room s.db storage)).finishTask fun _ _ hb => by simp at hb
      · exact h
    · exact h
  | cleanup t =>
    refine h.stepTask fun task htask => ?_
    split
    · have hset : Guarded S (s.setTask env t { task with body := .gone }) :=
        h.setTask ⟨(h.heldAt htask).lane, fun _ _ hb => absurd hb (by simp)⟩
      exact hset.same rfl rfl rfl rfl rfl rfl
    · exact h
  | shutdown =>
    simp only [Server.step, Server.shutdown]
    have hnone : Guarded S { s with entry := none } := h.same rfl rfl rfl rfl rfl rfl
    split
    · exact h
    split
    · rename_i sent hsent
      exact hnone.sendMessage hsent
    · exact hnone.abortTask
  | crash =>
    refine ⟨h.tickets, fun _ hmem => absurd hmem not_mem_nil,
      fun _ hmem => absurd hmem not_mem_nil, fun join hmem => ?_,
      fun _ hmem => absurd hmem not_mem_nil, fun task hmem => ?_⟩
    · obtain ⟨old, hold, rfl⟩ := mem_map.mp hmem
      exact h.joins old hold
    · obtain ⟨old, -, rfl⟩ := mem_map.mp hmem
      exact ⟨fun _ hl => absurd hl not_mem_nil, fun _ _ hb => absurd hb (by simp)⟩

theorem Guarded.mono (hS : ∀ commit actor, S commit actor → S' commit actor) :
    Guarded S' s where
  tickets := h.tickets
  callers := h.callers
  admitted := h.admitted
  joins := h.joins
  notices := h.notices
  tasks := fun task hmem => ⟨(h.tasks task hmem).lane,
    fun room phase hbody => ((h.tasks task hmem).body room phase hbody).mono hS⟩

end

theorem guarded_init (hdb : Created db) : Guarded S (init env db) := by
  refine ⟨fun ticket hmem => ?_, ?_, ?_, ?_, ?_, ?_⟩
  · have hmem' : ticket ∈ db.auth.tickets := hmem
    rw [hdb.tickets] at hmem'
    cases hmem'
  all_goals exact fun _ hmem => by cases hmem

theorem tidy_init : Tidy (init env db) where
  out := fun t room phase ⟨task, htask, _⟩ => by cases htask
  relays := fun t room frames batch ⟨task, htask, _⟩ => by cases htask

def Submitted (env : Env) (db : Database) (events : List Event) (commit : PreparedCommit)
    (actor : RoomActor) : Prop :=
  ∃ before e rest, events = before ++ e :: rest ∧ Submits (Server.after env db before) e commit actor

theorem guarded_after (hdb : Created db) (events : List Event) :
    Tidy (Server.after env db events) ∧
      Guarded (Submitted env db events) (Server.after env db events) := by
  induction events using List.reverseRecOn with
  | nil => exact ⟨tidy_init, guarded_init hdb⟩
  | append_singleton events e ih =>
    obtain ⟨htidy, hguarded⟩ := ih
    have hsnoc : Server.after env db (events ++ [e]) = (Server.after env db events).step env e :=
      Transition.run_snoc _ _ _
    rw [hsnoc]
    refine ⟨htidy.effect (step_effect htidy e), ?_⟩
    have hlonger : Guarded (Submitted env db (events ++ [e])) (Server.after env db events) := by
      refine hguarded.mono fun commit actor hsub => ?_
      obtain ⟨before, e', rest, heq, hs⟩ := hsub
      exact ⟨before, e', rest ++ [e], by rw [heq, append_assoc, cons_append], hs⟩
    refine hlonger.step htidy e fun commit actor hs => ?_
    exact ⟨events, e, [], rfl, hs⟩

end Server

/-! ## Durable rows -/

theorem writeCommits_live {validated : List Author} {commits : List PreparedCommit}
    {store store' : DocumentStore}
    (hv : ∀ author ∈ validated, requireLiveActor auth author now = true)
    (h : writeCommits auth now validated commits store = .ok store') :
    ∀ commit ∈ commits, requireLiveActor auth commit.actor.author now = true := by
  induction commits generalizing validated store with
  | nil => exact fun _ hmem => by cases hmem
  | cons commit commits ih =>
    unfold writeCommits at h
    split at h
    · cases h
    rename_i hcheck
    have hlive : requireLiveActor auth commit.actor.author now = true := by
      by_cases hin : commit.actor.author ∈ validated
      · exact hv _ hin
      · simpa [hin] using hcheck
    cases hw : writeAction commit store with
    | error error => rw [hw] at h; cases h
    | ok mid =>
      rw [hw] at h
      simp only at h
      cases hi : mid.insertCommit commit.row with
      | error error => rw [hi] at h; cases h
      | ok inserted =>
        rw [hi] at h
        intro other hmem
        rcases mem_cons.mp hmem with rfl | hmem
        · exact hlive
        refine ih (fun author hin => ?_) h other hmem
        rcases mem_cons.mp hin with rfl | hin
        · exact hlive
        · exact hv author hin

theorem control_out (h : ControlStep db room db' after) :
    ∃ rest, after.out = room.out ++ rest ∧ ∀ o ∈ rest, Output.quiet o := by
  cases h with
  | same same => exact same.out
  | compacted keeps alive step keeps' =>
    obtain ⟨first, hfirst, hp⟩ := keeps.out
    obtain ⟨last, hlast, hq⟩ := keeps'.out
    refine ⟨first ++ last, ?_, fun o ho => ?_⟩
    · rw [hlast, step.fields.2.2.2.1, hfirst, append_assoc]
    · rcases mem_append.mp ho with ho | ho
      · exact hp o ho
      · exact hq o ho

theorem requireLiveEpoch_ok {epoch : Nat} (h : requireLiveEpoch auth epoch = .ok ()) :
    auth.live = true ∧ auth.epoch = epoch := by
  unfold requireLiveEpoch at h
  split at h
  · cases h
  rename_i hlive
  split at h
  · cases h
  · rename_i hsame
    exact ⟨by simpa using hlive, by simpa using hsame⟩

theorem Server.Effect.durable {s s' : Server env.engine} {e : Event} (h : Effect s e s')
    {new : List Entry} {t : TaskId} {row : CommitRow} {changed : Bool} (hnew : s'.log = s.log ++ new)
    (hrow : .room t (.durable row changed) ∈ new) :
    ∃ task room phase after db' phase', Runs s task room phase ∧
      TaskStep e s.db room phase db' after phase' ∧ .durable row changed ∈ after.out := by
  have hnone : ∀ {extra : List Entry}, s'.log = s.log ++ extra → (∀ entry ∈ extra, entry.isRoom = false) →
      False := by
    intro extra hlog hextra
    rw [append_cancel_left (hnew.symm.trans hlog)] at hrow
    exact absurd (hextra _ hrow) (by simp [Entry.isRoom])
  cases h with
  | aside aside reads =>
    obtain ⟨extra, hlog, hextra⟩ := aside.log
    exact absurd hextra (hnone hlog)
  | hydrated t cause store log hydrates fresh runs =>
    refine absurd (fun _ hmem => absurd hmem not_mem_nil) (hnone ?_)
    rw [log, append_nil]
  | worked t before step hdb log runs =>
    obtain ⟨extra, hlog, hextra⟩ := log
    rw [append_assoc] at hlog
    rw [append_cancel_left (hnew.symm.trans hlog)] at hrow
    rcases mem_append.mp hrow with hrow | hrow
    · obtain ⟨o, ho, heq⟩ := mem_map.mp hrow
      obtain ⟨-, rfl⟩ := Entry.room.inj heq
      exact ⟨t, _, _, _, _, _, before, step, ho⟩
    · exact absurd (hextra _ hrow) (by simp [Entry.isAnswered])

theorem TaskStep.durable {e : Event} {row : CommitRow} {changed : Bool}
    (h : TaskStep e db room phase db' after phase') (hempty : room.out = [])
    (ho : .durable row changed ∈ after.out) :
    ∃ t storage now compact last, e = .commit t storage now ∧ row ∈ phase.prepared.map PreparedCommit.row ∧
      commitTx db room.epoch now phase.prepared compact last = .ok db' := by
  have hquiet : (∃ rest, after.out = room.out ++ rest ∧ ∀ o ∈ rest, Output.quiet o) → False := by
    intro ⟨rest, hout, hrest⟩
    rw [hout, hempty, nil_append] at ho
    exact hrest _ ho
  cases h with
  | loop calm calm' step => exact absurd (control_out step) hquiet
  | start calm step => exact absurd (control_out step) hquiet
  | stage step =>
    cases step with
    | kept keeps => exact absurd keeps.out hquiet
    | acked keeps again => exact absurd keeps.out hquiet
    | poisoned keeps dead => exact absurd keeps.out hquiet
    | pushed alive carried keeps connected authorized unseen missing stages =>
      exact absurd keeps.out hquiet
  | finish cause step =>
    obtain ⟨t, storage, he⟩ := cause
    have hrecorded : ∀ {batch : Batch} {mid : Room env.engine} {P : Output → Prop},
        mid.out = (room.recordDurable env true batch.prepared).out → Keeps P mid after →
          (∀ row changed, ¬ P (.durable row changed)) → row ∈ batch.prepared.map PreparedCommit.row := by
      intro batch mid P hmid keeps hp
      obtain ⟨rest, hout, hrest⟩ := keeps.out
      have hrecord : mid.out = batch.prepared.map PreparedCommit.output := by
        rw [hmid]
        show room.out ++ _ = _
        rw [hempty, nil_append]
        rfl
      rw [hout, hrecord] at ho
      rcases mem_append.mp ho with ho | ho
      · obtain ⟨commit, hc, heq⟩ := mem_map.mp ho
        obtain ⟨hrow, -⟩ := Output.durable.inj heq
        exact mem_map.mpr ⟨commit, hc, hrow⟩
      · exact absurd (hrest _ ho) (hp row changed)
    have hannounce : ∀ (batch : Batch) row changed, ¬ Announces batch (.durable row changed) := by
      intro batch row changed hann
      rcases hann with hq | ⟨conn, receipt, heq, -⟩
      · exact hq
      · cases heq
    cases step with
    | dead dead => rw [hempty] at ho; cases ho
    | acked alive empty keeps =>
      obtain ⟨rest, hout, hrest⟩ := keeps.out
      rw [hout, hempty, nil_append] at ho
      exact absurd (hrest _ ho) (hannounce _ row changed)
    | committed alive step =>
      cases step with
      | aborted keeps dead => exact absurd keeps.out hquiet
      | lost export_ tx keeps dead =>
        exact ⟨t, storage, _, _, _, he, hrecorded rfl keeps (fun _ _ hq => hq), tx⟩
      | done export_ tx keeps =>
        exact ⟨t, storage, _, _, _, he, hrecorded (settle_fields _ _).2.1 keeps (hannounce _), tx⟩

def Authorized (auth : AuthorityTables) (now : Millis) (author : Author) (actor : RoomActor) : Prop :=
  author = (actorReceipt actor).author ∧ auth.live = true ∧ Live auth now actor ∧ Permits auth actor

/-- **No durable write without current authority.** In every run, a row that becomes durable does so in a
commit, was submitted on a connection of an actor, and in the tables the commit reads the document and the
actor are live and the actor's role lets it edit. -/
theorem durable_write_authorized (env : Env) (db : Database) (hdb : Created db) (events : List Event)
    (e : Event) (new : List Entry) (t : TaskId) (row : CommitRow) (changed : Bool)
    (hnew : (Server.after env db (events ++ [e])).log = (Server.after env db events).log ++ new)
    (hrow : .room t (.durable row changed) ∈ new) :
    ∃ task storage now commit actor, e = .commit task storage now ∧ commit.row = row ∧
      Server.Submitted env db events commit actor ∧
      Authorized (Server.after env db events).db.auth now row.author actor := by
  obtain ⟨htidy, hguarded⟩ := Server.guarded_after hdb events
  unfold Server.after at hnew
  rw [Transition.run_snoc] at hnew
  obtain ⟨task, room, phase, after, db', phase', hruns, step, hout⟩ :=
    (Server.step_effect htidy e).durable hnew hrow
  obtain ⟨u, storage, now, compact, last, he, hmem, htx⟩ :=
    step.durable (htidy.out task room phase hruns) hout
  obtain ⟨commit, hc, hcrow⟩ := mem_map.mp hmem
  obtain ⟨running, hrunning, hbody⟩ := hruns
  obtain ⟨actor, hactor, hedit, hheld, hsubmitted⟩ :=
    ((hguarded.heldAt hrunning).body room phase hbody).prepared commit hc
  obtain ⟨hepoch, -, written, -, hw, -⟩ := commitTx_ok htx
  have hlive : requireLiveActor (Server.after env db events).db.auth commit.actor.author now = true :=
    writeCommits_live (fun _ hin => by cases hin) hw commit hc
  obtain ⟨hdocument, hsame⟩ := requireLiveEpoch_ok hepoch
  rw [hactor] at hlive
  refine ⟨u, storage, now, commit, actor, he, hcrow, hsubmitted, ?_, hdocument, ?_, ?_⟩
  · rw [← hcrow, ← hactor]
    rfl
  · exact requireLiveActor_live hlive hheld.bound
  · exact hheld.permits hsame.symm hedit

def editing : List Event := asking 1 0 ++ opening 0 0 ++ staging 0 1 [updateFrame 1 2 0 97]

theorem editing_authorized : ∃ task storage now commit actor,
    Event.commit 0 .ok 0 = .commit task storage now ∧
      commit.row = ⟨List.replicate 16 1, [1, 1, 2, 0, 97], .update, 1, ⟨.principal, 1, some 1⟩, 0⟩ ∧
      Server.Submitted (smallEnv 4) ownedDocument editing commit actor ∧
      Authorized (Server.after (smallEnv 4) ownedDocument editing).db.auth now ⟨.principal, 1, some 1⟩ actor :=
  durable_write_authorized (smallEnv 4) ownedDocument ownedDocument_created editing (.commit 0 .ok 0)
    ((Server.after (smallEnv 4) ownedDocument (editing ++ [.commit 0 .ok 0])).log.drop
      (Server.after (smallEnv 4) ownedDocument editing).log.length) 0
    ⟨List.replicate 16 1, [1, 1, 2, 0, 97], .update, 1, ⟨.principal, 1, some 1⟩, 0⟩ true
    (by decide +kernel) (by decide +kernel)

end Marks
