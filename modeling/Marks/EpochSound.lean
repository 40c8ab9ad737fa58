import Marks.RegistrySound

/-! # The epoch of a room

A room takes whatever epoch a control carries, and a control is sent after its transaction. The room's
epoch grows and reaches the database's where no control comes to the lane behind that of a later
transaction, and a room is hydrated with no earlier control waiting for it. -/

namespace Marks

open Room List

def Task.epochs {E : Engine} (task : Task E) : List Nat :=
  task.lane.filterMap fun control =>
    match control with
    | .authority (.epochChanged epoch) => some epoch
    | _ => none

/-- The room's epoch and those that wait for it are not above `epoch`. -/
def Task.notAbove {E : Engine} (task : Task E) (epoch : Nat) : Bool :=
  task.epochs.all (· ≤ epoch) &&
    match task.body with
    | .running room _ => room.epoch ≤ epoch
    | _ => true

/-- A control is sent, and reaches the registry's task behind none of a later transaction; a room is
hydrated with no control of an earlier transaction in its lane. -/
def Server.inOrder {E : Engine} (s : Server E) : Event → Bool
  | .dispatch notice =>
    match s.notices[notice]? with
    | some (.epochChanged epoch) => (s.entry.bind fun t => s.tasks[t]?).all fun task => task.notAbove epoch
    | _ => true
  | .lose notice =>
    match s.notices[notice]? with
    | some (.epochChanged _) => false
    | some .deleted => false
    | _ => true
  | .hydrate t _ =>
    s.tasks[t]?.all fun task => task.epochs.all fun epoch => s.db.auth.epoch ≤ epoch
  | _ => true

/-! ## What leaves a room's epoch alone -/

variable {db : Database} {now : Millis} {control : RoomControl}

section
variable {env : Env} {room after : Room env.engine}

theorem sendInitial_epoch (conn : ConnId) (frames : List OutMsg) (room : Room env.engine) :
    (sendInitial env conn frames room).1.epoch = room.epoch := by
  induction frames generalizing room with
  | nil => rfl
  | cons message messages ih =>
    have hs : (room.trySend env conn message).1.epoch = room.epoch :=
      (trySend_keeps (P := fun _ => True) trivial).epoch
    unfold sendInitial
    simp only
    split
    · exact (ih _).trans hs
    · exact hs

theorem join_epoch (actor : RoomActor) (clientVersion : Option Version) (now : Millis) :
    (room.join env actor clientVersion now).1.epoch = room.epoch := by
  unfold Room.join
  split
  · rfl
  split
  · rfl
  split
  · rfl
  cases room.initialFrames env clientVersion with
  | none => rfl
  | some frames =>
    simp only
    split
    · exact sendInitial_epoch _ _ _
    · exact sendInitial_epoch _ _ _

theorem frame_epoch {batch batch' : Batch} {frame : Inbound}
    (h : FrameStep db room batch frame after batch') : after.epoch = room.epoch := by
  cases h with
  | kept keeps => exact keeps.epoch
  | acked keeps again => exact keeps.epoch
  | poisoned keeps dead => exact keeps.epoch
  | pushed alive carried keeps connected authorized unseen missing stages => exact keeps.epoch

theorem settle_epoch (compact : Option Bytes) (batch : Batch) :
    (room.settle env compact batch).epoch = room.epoch := by
  unfold settle
  simp only
  split
  · unfold Room.prune
    split
    · rfl
    · rfl
  · rfl

theorem finish_epoch {db' : Database} {batch : Batch}
    (h : FinishStep db room now batch db' after) : after.epoch = room.epoch := by
  cases h with
  | dead dead => rfl
  | acked alive empty keeps => exact keeps.epoch
  | committed alive step =>
    cases step with
    | aborted keeps dead => exact keeps.epoch
    | lost export_ tx keeps dead => exact keeps.epoch
    | done export_ tx keeps => exact keeps.epoch.trans (settle_epoch _ _)

theorem control_epoch (db : Database) (storage : Storage) (now : Millis)
    (hc : ∀ epoch, control ≠ .authority (.epochChanged epoch)) :
    (room.control env db storage now control).2.epoch = room.epoch := by
  cases control with
  | leave conn =>
    simp only [Room.control]
    split
    · exact (compact_step (room.removeSocket env conn) db storage).fields.2.2.2.2.1
    · rfl
  | authority control =>
    cases control with
    | deleted =>
      exact (kill_keeps closeDocumentDeleted
        (closeAll_keeps (P := fun _ => True) (fun _ _ => trivial) closeDocumentDeleted)).epoch
    | sessionRevoked sessionId => exact (closeEach_keeps (P := fun _ => True) (fun _ _ => trivial) _ _).epoch
    | deviceRevoked deviceId => exact (closeEach_keeps (P := fun _ => True) (fun _ _ => trivial) _ _).epoch
    | epochChanged epoch => exact absurd rfl (hc epoch)

theorem applyResolved_epoch (room : Room env.engine) (entry : ConnId × Option RoomActor) :
    (applyResolved env room entry).epoch = room.epoch := by
  unfold applyResolved
  split
  · rfl
  · rfl
  · exact (closeOne_keeps (P := fun _ => True) (fun _ _ => trivial) _ _).epoch

theorem epochChanged_epoch (db : Database) (storage : Storage) (now : Millis) (epoch : Nat) :
    (room.control env db storage now (.authority (.epochChanged epoch))).2.epoch = epoch := by
  have hfold : ∀ (entries : List (ConnId × Option RoomActor)) (room : Room env.engine),
      (entries.foldl (applyResolved env) room).epoch = room.epoch := by
    intro entries
    induction entries with
    | nil => exact fun _ => rfl
    | cons entry entries ih => exact fun room => (ih _).trans (applyResolved_epoch room entry)
  simp only [Room.control, reresolveSockets]
  split
  · exact (poison_keeps (P := fun _ => True) (fun _ _ => trivial) _).epoch
  · exact hfold _ _

end

/-! ## Tasks -/

variable {lane : List RoomControl} {e : Nat}

section
variable {E : Engine} {task task' : Task E} {epoch floor : Nat}

structure TaskOrdered (epoch floor : Nat) (task : Task E) : Prop where
  sorted : task.epochs.Pairwise (· ≤ ·)
  bound : ∀ e ∈ task.epochs, e ≤ epoch
  started : floor = 0 ∨ task.body ≠ .starting
  room : ∀ room phase, task.body = .running room phase →
    floor ≤ room.epoch ∧ room.epoch ≤ epoch ∧ ∀ e ∈ task.epochs, room.epoch ≤ e

structure Follows (task task' : Task E) : Prop where
  epochs : task'.epochs = task.epochs ∨ (task'.epochs = [] ∧ ∀ room phase, task'.body ≠ .running room phase)
  room : ∀ room' phase', task'.body = .running room' phase' →
    ∃ room phase, task.body = .running room phase ∧ room'.epoch = room.epoch
  started : task'.body = .starting → task.body = .starting

theorem TaskOrdered.follows (h : TaskOrdered epoch floor task) (hf : Follows task task') :
    TaskOrdered epoch floor task' := by
  have hstarted : floor = 0 ∨ task'.body ≠ .starting :=
    h.started.imp id fun hs hstart => hs (hf.started hstart)
  rcases hf.epochs with hsame | ⟨hnone, hidle⟩
  · refine ⟨hsame ▸ h.sorted, hsame ▸ h.bound, hstarted, fun room' phase' hbody => ?_⟩
    obtain ⟨room, phase, hold, heq⟩ := hf.room room' phase' hbody
    rw [heq, hsame]
    exact h.room room phase hold
  · refine ⟨?_, ?_, hstarted, fun room' phase' hbody => absurd hbody (hidle room' phase')⟩
    · rw [hnone]
      exact List.Pairwise.nil
    · rw [hnone]
      exact fun _ he => by cases he

theorem TaskOrdered.mono {epoch' : Nat} (h : TaskOrdered epoch floor task) (he : epoch ≤ epoch') :
    TaskOrdered epoch' floor task :=
  ⟨h.sorted, fun e hmem => Nat.le_trans (h.bound e hmem) he, h.started, fun room phase hbody =>
    ⟨(h.room room phase hbody).1, Nat.le_trans (h.room room phase hbody).2.1 he, (h.room room phase hbody).2.2⟩⟩

theorem Follows.refl (task : Task E) : Follows task task :=
  ⟨Or.inl rfl, fun room phase h => ⟨room, phase, h, rfl⟩, id⟩

theorem abort_follows (task : Task E) : Follows task task.abort := by
  unfold Task.abort
  split
  · exact ⟨Or.inl rfl, fun room phase h => ⟨room, phase, h, rfl⟩, id⟩
  · exact Follows.refl task
  · exact ⟨Or.inr ⟨rfl, fun _ _ h => by simp at h⟩, fun _ _ h => by simp at h, fun h => by simp at h⟩

theorem epochs_cons
    (hc : ∀ epoch, control ≠ .authority (.epochChanged epoch)) (hl : task.lane = control :: lane) :
    ({ task with lane } : Task E).epochs = task.epochs := by
  unfold Task.epochs
  rw [hl, filterMap_cons]
  cases control with
  | leave conn => rfl
  | authority control =>
    cases control with
    | epochChanged epoch => exact absurd rfl (hc epoch)
    | deleted => rfl
    | sessionRevoked sessionId => rfl
    | deviceRevoked deviceId => rfl

theorem epochs_last (hc : ∀ epoch, control ≠ .authority (.epochChanged epoch)) :
    ({ task with lane := task.lane ++ [control] } : Task E).epochs = task.epochs := by
  unfold Task.epochs
  rw [filterMap_append]
  cases control with
  | leave conn => exact append_nil _
  | authority control =>
    cases control with
    | epochChanged epoch => exact absurd rfl (hc epoch)
    | deleted => exact append_nil _
    | sessionRevoked sessionId => exact append_nil _
    | deviceRevoked deviceId => exact append_nil _

theorem epochs_head
    (hl : task.lane = .authority (.epochChanged e) :: lane) :
    task.epochs = e :: ({ task with lane } : Task E).epochs := by
  unfold Task.epochs
  rw [hl, filterMap_cons]

end

/-! ## Routes -/

section
variable {auth auth' : AuthorityTables}

/-- What the room of a document has to hear of a route: a new epoch is announced, and so is a deletion; a
restored document was a deleted one. -/
structure Hears (route : Route) (auth auth' : AuthorityTables) : Prop where
  epoch : auth'.epoch = auth.epoch ∨ (auth.epoch < auth'.epoch ∧
    (.epochChanged auth'.epoch ∈ route.notices auth auth' ∨ .deleted ∈ route.notices auth auth' ∨
      auth.live = false))
  live : auth'.live = false → auth.live = false ∨ .deleted ∈ route.notices auth auth'
  notices : ∀ e, .epochChanged e ∈ route.notices auth auth' → e = auth'.epoch

theorem notices_epoch (route : Route) (h : .epochChanged e ∈ route.notices auth auth') :
    e = auth'.epoch := by
  have hone : ∀ {control : Control}, Control.epochChanged e ∈ [control] → Control.epochChanged e = control :=
    fun hmem => mem_singleton.mp hmem
  cases route with
  | sessionDelete caller now => cases hone h
  | deviceRevoke caller target now => cases hone h
  | delete caller now => cases hone h
  | sharePut caller grantee role now => exact Control.epochChanged.inj (hone h)
  | shareDelete caller grantee now => exact Control.epochChanged.inj (hone h)
  | linkCreate caller role tokenHash ttl now => exact Control.epochChanged.inj (hone h)
  | linkRevoke caller now => exact Control.epochChanged.inj (hone h)
  | claim scratchId principalId deviceId now =>
    simp only [Route.notices] at h
    split at h
    · exact Control.epochChanged.inj (hone h)
    · cases h
  | _ => cases h

variable {route : Route}

theorem hears_same (hd : auth'.document = auth.document) : Hears route auth auth' where
  epoch := Or.inl (by simp only [AuthorityTables.epoch, hd])
  live := by
    intro hl
    have hsame : auth'.live = auth.live := live_of_document (by rw [hd])
    exact Or.inl (hsame ▸ hl)
  notices := fun _ => notices_epoch route

theorem hears_bump {mid : AuthorityTables} (hd : mid.document = auth.document)
    (hn : .epochChanged (bumpEpoch mid now).epoch ∈ route.notices auth (bumpEpoch mid now)) :
    Hears route auth (bumpEpoch mid now) where
  epoch := by
    refine Or.inr ⟨?_, Or.inl hn⟩
    show auth.document.record.authorizationEpoch < mid.document.record.authorizationEpoch + 1
    rw [hd]
    exact Nat.lt_succ_self _
  live := by
    intro hl
    have hsame : (bumpEpoch mid now).live = auth.live := live_of_document (by rw [← hd]; rfl)
    exact Or.inl (hsame ▸ hl)
  notices := fun _ => notices_epoch route

theorem claim_hears {scratchId : ScratchId} {principalId : PrincipalId} {device : DeviceId}
    (h : claim auth scratchId principalId device now = .ok auth') :
    Hears (.claim scratchId principalId device now) auth auth' where
  epoch := by
    obtain hrecord : auth'.document = (claimScratchDocuments auth scratchId principalId device now).document := by
      simp only [claim, persistScratchClaim] at h
      split at h
      · simp at h
      split at h
      · simp at h
      split at h
      · split at h
        · rw [← Except.ok.inj h]
        · simp at h
      · rw [← Except.ok.inj h]
    have hepoch : auth'.epoch = (claimScratchDocuments auth scratchId principalId device now).epoch := by
      simp only [AuthorityTables.epoch, hrecord]
    by_cases howner : auth.document.record.owner = .scratch scratchId
    · refine Or.inr ⟨?_, Or.inl ?_⟩
      · rw [hepoch]
        simp only [claimScratchDocuments, if_pos howner]
        split <;> exact Nat.lt_succ_self _
      · simp only [Route.notices, if_pos howner, mem_singleton]
    · refine Or.inl (hepoch.trans ?_)
      simp only [claimScratchDocuments, if_neg howner]
  live := fun hl => Or.inl (claim_live h ▸ hl)
  notices := fun _ => notices_epoch _

theorem route_hears (h : route.apply auth = .ok auth') : Hears route auth auth' := by
  cases route_document h with
  | same hd _ => exact hears_same hd
  | bumped hd hafter hnotices =>
    rw [hafter] at hnotices ⊢
    exact hears_bump hd (by rw [hnotices]; exact mem_singleton.mpr rfl)
  | deleted _ hepoch hnotices =>
    have hmem : .deleted ∈ route.notices auth auth' := by
      rw [hnotices]
      exact mem_singleton.mpr rfl
    exact ⟨Or.inr ⟨hepoch, Or.inr (Or.inl hmem)⟩, fun _ => Or.inr hmem, fun _ => notices_epoch _⟩
  | restored _ hgone hepoch =>
    exact ⟨Or.inr ⟨hepoch, Or.inr (Or.inr hgone)⟩, fun _ => Or.inl hgone, fun _ => notices_epoch _⟩
  | claimed hroute hclaim =>
    rw [hroute]
    exact claim_hears hclaim

end

/-! ## The server -/

namespace Server

variable {env : Env}

def Announced (s : Server env.engine) (task : Task env.engine) (room : Room env.engine) : Prop :=
  room.epoch = s.db.auth.epoch ∨ s.db.auth.epoch ∈ task.epochs ∨
    .epochChanged s.db.auth.epoch ∈ s.notices ∨ .deleted ∈ s.notices

structure Ordered (floor : TaskId → Nat) (s : Server env.engine) : Prop where
  tasks : ∀ t task, s.tasks[t]? = some task → TaskOrdered s.db.auth.epoch (floor t) task
  fresh : ∀ t, s.tasks.length ≤ t → floor t = 0
  notices : ∀ e, .epochChanged e ∈ s.notices → e ≤ s.db.auth.epoch
  current : ∀ t task room phase, s.entry = some t → s.tasks[t]? = some task →
    task.body = .running room phase → Announced s task room
  deleted : s.db.auth.live = false → ∀ t task room phase, s.entry = some t → s.tasks[t]? = some task →
    task.body = .running room phase → .deleted ∈ s.notices

variable {s s' : Server env.engine} {floor : TaskId → Nat} {t : TaskId} {task task' : Task env.engine}
  {room : Room env.engine} {phase : Phase}

theorem Ordered.same (h : Ordered floor s) (ha : s'.db.auth = s.db.auth) (ht : s'.tasks = s.tasks)
    (hn : s'.notices = s.notices) (he : ∀ t, s'.entry = some t → s.entry = some t) : Ordered floor s' where
  tasks := by
    rw [ha, ht]
    exact h.tasks
  fresh := ht ▸ h.fresh
  notices := by
    rw [ha, hn]
    exact h.notices
  current := by
    intro t task room phase hentry htask hbody
    have hc := h.current t task room phase (he t hentry) (ht ▸ htask) hbody
    unfold Announced at hc ⊢
    rw [ha, hn]
    exact hc
  deleted := by
    intro hl t task room phase hentry htask hbody
    rw [ha] at hl
    rw [hn]
    exact h.deleted hl t task room phase (he t hentry) (ht ▸ htask) hbody

theorem getElem?_setTask (h : s.tasks[t]? = some task) {u : TaskId} {found : Task env.engine}
    (hf : (s.setTask env t task').tasks[u]? = some found) :
    (u = t ∧ found = task') ∨ (u ≠ t ∧ s.tasks[u]? = some found) := by
  simp only [Server.setTask, getElem?_set] at hf
  by_cases hu : t = u
  · have hlt : t < s.tasks.length := (List.getElem?_eq_some_iff.mp h).1
    rw [if_pos hu, if_pos hlt] at hf
    exact Or.inl ⟨hu.symm, (Option.some.inj hf).symm⟩
  · rw [if_neg hu] at hf
    exact Or.inr ⟨fun heq => hu heq.symm, hf⟩

section

variable (h : Ordered floor s)
include h

theorem Ordered.put (ht : s.tasks[t]? = some task)
    (ho : TaskOrdered s.db.auth.epoch (floor t) task')
    (hc : ∀ room phase, s.entry = some t → task'.body = .running room phase → Announced s task' room)
    (hd : s.db.auth.live = false → ∀ room phase, s.entry = some t → task'.body = .running room phase →
      .deleted ∈ s.notices) :
    Ordered floor (s.setTask env t task') where
  tasks := by
    intro u found hf
    rcases getElem?_setTask ht hf with ⟨rfl, rfl⟩ | ⟨hne, hold⟩
    · exact ho
    · exact h.tasks u found hold
  fresh := by
    intro u hu
    refine h.fresh u ?_
    simpa [Server.setTask] using hu
  notices := h.notices
  current := by
    intro u found room phase hentry hf hbody
    rcases getElem?_setTask ht hf with ⟨rfl, rfl⟩ | ⟨hne, hold⟩
    · exact hc room phase hentry hbody
    · exact h.current u found room phase hentry hold hbody
  deleted := by
    intro hl u found room phase hentry hf hbody
    rcases getElem?_setTask ht hf with ⟨rfl, rfl⟩ | ⟨hne, hold⟩
    · exact hd hl room phase hentry hbody
    · exact h.deleted hl u found room phase hentry hold hbody

theorem Ordered.setTask (ht : s.tasks[t]? = some task) (hf : Follows task task') :
    Ordered floor (s.setTask env t task') := by
  refine h.put ht ((h.tasks t task ht).follows hf) ?_ ?_
  · intro room' phase' hentry hbody
    obtain ⟨room, phase, hold, heq⟩ := hf.room room' phase' hbody
    have hc := h.current t task room phase hentry ht hold
    unfold Announced at hc ⊢
    rw [heq]
    rcases hf.epochs with hsame | ⟨-, hidle⟩
    · rw [hsame]
      exact hc
    · exact absurd hbody (hidle room' phase')
  · intro hl room' phase' hentry hbody
    obtain ⟨room, phase, hold, -⟩ := hf.room room' phase' hbody
    exact h.deleted hl t task room phase hentry ht hold

theorem Ordered.putRoom (task' : Task env.engine) (ht : s.tasks[t]? = some task) {before : Room env.engine}
    {old : Phase} (hb : task.body = .running before old) (he : room.epoch = before.epoch)
    (hl : task'.epochs = task.epochs) : Ordered floor (s.putRoom env t task' room phase) := by
  have hf : Follows task { task' with body := .running { room with out := [] } phase } := {
    epochs := Or.inl hl
    room := fun room' phase' hbody => by
      obtain ⟨rfl, rfl⟩ := Body.running.inj hbody
      exact ⟨before, old, hb, he⟩
    started := fun hbody => by simp at hbody }
  exact (h.setTask ht hf).same rfl rfl rfl fun _ heq => heq

theorem Ordered.finishTask (ht : s.tasks[t]? = some task) {body : Body env.engine}
    (hb : ∀ room phase, body ≠ .running room phase) (hs : body ≠ .starting) :
    Ordered floor (s.finishTask env t task' body) :=
  h.setTask ht ⟨Or.inr ⟨rfl, hb⟩, fun room phase hbody => absurd hbody (hb room phase),
    fun hbody => absurd hbody hs⟩

theorem Ordered.abortTask : Ordered floor (s.abortTask env t) := by
  unfold Server.abortTask
  cases ht : s.tasks[t]? with
  | none => exact h
  | some task => exact h.setTask ht (abort_follows task)

theorem Ordered.unlisted : Ordered floor { s with entry := none } :=
  h.same rfl rfl rfl fun _ heq => by cases heq

theorem Ordered.evictTask : Ordered floor (s.evictTask env t) := by
  unfold Server.evictTask
  split
  · exact h.unlisted.abortTask
  · exact h

theorem Ordered.sendMessage {message : RoomMsg}
    (hs : s.sendMessage env t message = some s') : Ordered floor s' := by
  unfold Server.sendMessage at hs
  split at hs
  · next task ht =>
    split at hs
    · cases hs
      exact h.setTask ht ⟨Or.inl rfl, fun room phase hb => ⟨room, phase, hb, rfl⟩, id⟩
    · simp at hs
  · simp at hs

theorem Ordered.sendControl
    (hc : ∀ epoch, control ≠ .authority (.epochChanged epoch))
    (hs : s.sendControl env t control = some s') : Ordered floor s' := by
  unfold Server.sendControl at hs
  split at hs
  · next task ht =>
    split at hs
    · cases hs
      refine h.setTask ht ⟨Or.inl ?_, fun room phase hb => ⟨room, phase, hb, rfl⟩, id⟩
      exact epochs_last hc
    · simp at hs
  · simp at hs

theorem Ordered.setJoin (call : Nat) (join : JoinCall) (phase : JoinPhase) :
    Ordered floor (s.setJoin env call join phase) :=
  h.same rfl rfl rfl fun _ heq => heq

theorem Ordered.answer (call : Nat) (join : JoinCall)
    (result : Except JoinRefusal (TaskId × ConnId)) : Ordered floor (s.answer env call join result) :=
  h.same rfl rfl rfl fun _ heq => heq

theorem Ordered.spawn : Ordered floor (s.spawn env) := by
  have hget : ∀ {u : TaskId} {other}, (s.spawn env).tasks[u]? = some other →
      s.tasks[u]? = some other ∨ (u = s.tasks.length ∧ other = ⟨.starting, [], [], false⟩) := by
    intro u other hother
    simp only [Server.spawn, getElem?_append] at hother
    split at hother
    · exact Or.inl hother
    next hge =>
    rcases Nat.eq_zero_or_pos (u - s.tasks.length) with h0 | hpos
    · rw [h0] at hother
      exact Or.inr ⟨Nat.le_antisymm (Nat.sub_eq_zero_iff_le.mp h0) (Nat.not_lt.mp hge),
        (Option.some.inj hother).symm⟩
    · rw [getElem?_eq_none hpos] at hother
      simp at hother
  -- the registry names the new task, and the new task runs no room
  have hnew : ∀ {u : TaskId} {other : Task env.engine} {room phase}, (s.spawn env).entry = some u →
      (s.spawn env).tasks[u]? = some other → other.body ≠ .running room phase := by
    intro u other room phase hentry hother
    rcases hget hother with hold | ⟨-, rfl⟩
    · have hlt := (List.getElem?_eq_some_iff.mp hold).1
      have hu : s.tasks.length = u := Option.some.inj hentry
      omega
    · simp
  refine ⟨?_, ?_, h.notices, ?_, ?_⟩
  · intro u other hother
    rcases hget hother with hold | ⟨hu, rfl⟩
    · exact h.tasks u other hold
    · exact ⟨List.Pairwise.nil, fun _ he => absurd he not_mem_nil,
        Or.inl (h.fresh u (Nat.le_of_eq hu.symm)), fun _ _ hb => by simp at hb⟩
  · intro u hu
    refine h.fresh u ?_
    simp only [Server.spawn, length_append] at hu
    omega
  · exact fun u other room phase hentry hother hbody => absurd hbody (hnew hentry hother)
  · exact fun _ u other room phase hentry hother hbody => absurd hbody (hnew hentry hother)

theorem Ordered.lookupEntry {call : Nat} {join : JoinCall} {crowded : Bool}
    {vacant : Server env.engine → Server env.engine}
    (hv : Ordered floor { s with entry := none } → Ordered floor (vacant { s with entry := none })) :
    Ordered floor (s.lookupEntry env call join crowded vacant) := by
  unfold Server.lookupEntry
  split
  · exact h.setJoin _ _ _
  simp only
  split
  · exact h.unlisted.answer _ _ _
  · exact hv h.unlisted

theorem Ordered.stepJoin {call : Nat} {f : JoinCall → Server env.engine}
    (hf : ∀ join, Ordered floor (f join)) : Ordered floor (s.stepJoin env call f) := by
  unfold Server.stepJoin
  split
  · exact hf _
  · exact h

theorem Ordered.stepTask {f : Task env.engine → Server env.engine}
    (hf : ∀ task, s.tasks[t]? = some task → Ordered floor (f task)) : Ordered floor (s.stepTask env t f) := by
  unfold Server.stepTask
  split
  · next task htask => exact hf task htask
  · exact h

/-! ## Every event -/

theorem Ordered.applyRoute (route : Route) : Ordered floor (s.applyRoute env route) := by
  unfold Server.applyRoute
  split
  · cases hok : route.apply s.db.auth with
    | error error => exact h
    | ok auth =>
      have hh := route_hears hok
      have hle : s.db.auth.epoch ≤ auth.epoch := by
        rcases hh.epoch with heq | ⟨hlt, -⟩
        · exact Nat.le_of_eq heq.symm
        · exact Nat.le_of_lt hlt
      refine ⟨?_, h.fresh, ?_, ?_, ?_⟩
      · exact fun t task htask => (h.tasks t task htask).mono hle
      · intro e hmem
        rcases mem_append.mp hmem with hmem | hmem
        · exact Nat.le_trans (h.notices e hmem) hle
        · exact Nat.le_of_eq (hh.notices e hmem)
      · intro t task room phase hentry htask hbody
        rcases hh.epoch with heq | ⟨-, hnew⟩
        · have hc := h.current t task room phase hentry htask hbody
          unfold Announced at hc ⊢
          simp only [heq, mem_append]
          rcases hc with hc | hc | hc | hc
          · exact Or.inl hc
          · exact Or.inr (Or.inl hc)
          · exact Or.inr (Or.inr (Or.inl (Or.inl hc)))
          · exact Or.inr (Or.inr (Or.inr (Or.inl hc)))
        · rcases hnew with hnew | hnew | hnew
          · exact Or.inr (Or.inr (Or.inl (mem_append_right _ hnew)))
          · exact Or.inr (Or.inr (Or.inr (mem_append_right _ hnew)))
          · have hd := h.deleted hnew t task room phase hentry htask hbody
            exact Or.inr (Or.inr (Or.inr (mem_append_left _ hd)))
      · intro hl t task room phase hentry htask hbody
        rcases hh.live hl with hl | hnew
        · exact mem_append_left _ (h.deleted hl t task room phase hentry htask hbody)
        · exact mem_append_right _ hnew
  · exact h

theorem Ordered.admission (ticketId : TicketId) (secretMatches : Bool)
    (cookie : Option AuthenticatedSession) (now : Millis) :
    Ordered floor (s.admission env ticketId secretMatches cookie now) := by
  unfold Server.admission
  split
  · cases hok : admitTicket s.db.auth ticketId secretMatches cookie now with
    | error error => exact h
    | ok result =>
      have hd : result.1.document = s.db.auth.document := admitTicket_document hok
      have hepoch : result.1.epoch = s.db.auth.epoch := by simp only [AuthorityTables.epoch, hd]
      have hlive : result.1.live = s.db.auth.live := live_of_document (by rw [hd])
      refine ⟨?_, h.fresh, ?_, ?_, ?_⟩
      · exact fun t task htask => (h.tasks t task htask).mono (Nat.le_of_eq hepoch.symm)
      · exact fun e hmem => Nat.le_trans (h.notices e hmem) (Nat.le_of_eq hepoch.symm)
      · intro t task room phase hentry htask hbody
        have hc := h.current t task room phase hentry htask hbody
        unfold Announced at hc ⊢
        simp only [hepoch]
        exact hc
      · exact fun hl => h.deleted (hlive ▸ hl)
  · exact h

theorem Ordered.erase (notice : Nat)
    (hc : ∀ t task room phase, s.entry = some t → s.tasks[t]? = some task → task.body = .running room phase →
      s.notices[notice]? ≠ some (.epochChanged s.db.auth.epoch) ∧ s.notices[notice]? ≠ some .deleted) :
    Ordered floor { s with notices := s.notices.eraseIdx notice } := by
  have hkeep : ∀ {control : Control}, control ∈ s.notices → s.notices[notice]? ≠ some control →
      control ∈ s.notices.eraseIdx notice := by
    intro control hmem hne
    obtain ⟨i, hi⟩ := mem_iff_getElem?.mp hmem
    refine mem_eraseIdx_iff_getElem?.mpr ⟨i, fun heq => hne (heq ▸ hi), hi⟩
  refine ⟨h.tasks, h.fresh, fun e hmem => h.notices e (mem_of_mem_eraseIdx hmem), ?_, ?_⟩
  · intro t task room phase hentry htask hbody
    obtain ⟨hepoch, hdeleted⟩ := hc t task room phase hentry htask hbody
    rcases h.current t task room phase hentry htask hbody with hcur | hcur | hcur | hcur
    · exact Or.inl hcur
    · exact Or.inr (Or.inl hcur)
    · exact Or.inr (Or.inr (Or.inl (hkeep hcur hepoch)))
    · exact Or.inr (Or.inr (Or.inr (hkeep hcur hdeleted)))
  · intro hl t task room phase hentry htask hbody
    exact hkeep (h.deleted hl t task room phase hentry htask hbody) (hc t task room phase hentry htask hbody).2

end

theorem sendControl_eq (hs : s.sendControl env t control = some s') :
    ∃ task, s.tasks[t]? = some task ∧ s' = s.setTask env t { task with lane := task.lane ++ [control] } := by
  unfold Server.sendControl at hs
  split at hs
  · next task ht =>
    split at hs
    · exact ⟨task, ht, (Option.some.inj hs).symm⟩
    · simp at hs
  · simp at hs

theorem epochs_append {task : Task env.engine} :
    ({ task with lane := task.lane ++ [.authority (.epochChanged e)] } : Task env.engine).epochs =
      task.epochs ++ [e] := by
  simp only [Task.epochs, filterMap_append, filterMap_cons, filterMap_nil]

variable {notice : Nat}

section

variable (h : Ordered floor s)
include h

theorem Ordered.announce
    (hn : s.notices[notice]? = some (.epochChanged e)) (hentry : s.entry = some t)
    (ht : s.tasks[t]? = some task) (habove : task.notAbove e = true) :
    Ordered floor (({ s with notices := s.notices.eraseIdx notice } : Server env.engine).setTask env t
      { task with lane := task.lane ++ [.authority (.epochChanged e)] }) := by
  have herased : Ordered floor ({ s with entry := none, notices := s.notices.eraseIdx notice } :
      Server env.engine) :=
    h.unlisted.erase notice fun _ _ _ _ hnone => by cases hnone
  simp only [Task.notAbove, Bool.and_eq_true, all_eq_true, decide_eq_true_eq] at habove
  obtain ⟨hlane, hroom⟩ := habove
  have hbound : e ≤ s.db.auth.epoch := h.notices e (mem_of_getElem? hn)
  have hold := h.tasks t task ht
  have hnew : TaskOrdered s.db.auth.epoch (floor t)
      { task with lane := task.lane ++ [.authority (.epochChanged e)] } := by
    refine ⟨?_, ?_, hold.started, ?_⟩
    · rw [epochs_append, pairwise_append]
      refine ⟨hold.sorted, pairwise_singleton _ _, fun x hx y hy => ?_⟩
      rw [mem_singleton.mp hy]
      exact hlane x hx
    · intro x hx
      rw [epochs_append] at hx
      rcases mem_append.mp hx with hx | hx
      · exact hold.bound x hx
      · exact mem_singleton.mp hx ▸ hbound
    · intro room phase hbody
      obtain ⟨hfloor, hle, hall⟩ := hold.room room phase hbody
      refine ⟨hfloor, hle, fun x hx => ?_⟩
      rw [epochs_append] at hx
      rcases mem_append.mp hx with hx | hx
      · exact hall x hx
      rw [mem_singleton.mp hx]
      have hbody' : task.body = .running room phase := hbody
      rw [hbody'] at hroom
      simpa using hroom
  have hset := herased.put (t := t) ht hnew (fun _ _ hnone => absurd hnone (by simp))
    fun _ _ _ hnone => by cases hnone
  have hkeep : ∀ {control : Control}, control ∈ s.notices → control ≠ .epochChanged e →
      control ∈ s.notices.eraseIdx notice := by
    intro control hmem hne
    obtain ⟨i, hi⟩ := mem_iff_getElem?.mp hmem
    refine mem_eraseIdx_iff_getElem?.mpr ⟨i, fun heq => ?_, hi⟩
    rw [heq, hn] at hi
    exact hne (Option.some.inj hi).symm
  refine ⟨hset.tasks, hset.fresh, hset.notices, ?_, ?_⟩
  · intro u found room phase hu hf hbody
    have hut : u = t := Option.some.inj (hu.symm.trans hentry)
    subst hut
    rcases getElem?_setTask (s := { s with notices := s.notices.eraseIdx notice }) ht hf with ⟨-, rfl⟩ | ⟨hne, -⟩
    · have hbody' : task.body = .running room phase := hbody
      rcases h.current u task room phase hentry ht hbody' with hc | hc | hc | hc
      · exact Or.inl hc
      · exact Or.inr (Or.inl (by rw [epochs_append]; exact mem_append_left _ hc))
      · by_cases he : e = s.db.auth.epoch
        · refine Or.inr (Or.inl ?_)
          rw [epochs_append]
          exact mem_append_right _ (mem_singleton.mpr he.symm)
        · refine Or.inr (Or.inr (Or.inl (hkeep hc ?_)))
          exact fun heq => he (Control.epochChanged.inj heq).symm
      · exact Or.inr (Or.inr (Or.inr (hkeep hc (by simp))))
    · exact absurd rfl hne
  · intro hl u found room phase hu hf hbody
    have hut : u = t := Option.some.inj (hu.symm.trans hentry)
    subst hut
    rcases getElem?_setTask (s := { s with notices := s.notices.eraseIdx notice }) ht hf with ⟨-, rfl⟩ | ⟨hne, -⟩
    · exact hkeep (h.deleted hl u task room phase hentry ht hbody) (by simp)
    · exact absurd rfl hne

theorem Ordered.dispatch (ho : s.inOrder (.dispatch notice) = true) :
    Ordered floor (s.step env (.dispatch notice)) := by
  simp only [Server.step]
  split
  · next control hcontrol =>
    have herased : Ordered floor ({ s with entry := none, notices := s.notices.eraseIdx notice } :
        Server env.engine) :=
      h.unlisted.erase notice fun _ _ _ _ hnone => by cases hnone
    simp only [inOrder, hcontrol] at ho
    unfold Server.dispatchControl
    split
    · next hentry =>
      refine herased.same rfl rfl rfl fun t ht => ?_
      rw [hentry] at ht
      simp at ht
    next t hentry =>
    have hentry : s.entry = some t := hentry
    split
    · next sent hsent =>
      obtain ⟨task, ht, rfl⟩ := sendControl_eq hsent
      by_cases hdeleted : control = .deleted
      · rw [if_pos hdeleted]
        have hset : Ordered floor (Server.setTask env
            { s with entry := none, notices := s.notices.eraseIdx notice } t
            { task with lane := task.lane ++ [.authority control] }) := by
          refine herased.setTask ht ⟨Or.inl (epochs_last ?_), fun room phase hb => ⟨room, phase, hb, rfl⟩, id⟩
          rw [hdeleted]
          simp
        exact hset.same rfl rfl rfl fun _ heq => heq
      · rw [if_neg hdeleted]
        cases control with
        | epochChanged e =>
          have ht' : s.tasks[t]? = some task := ht
          simp only [hentry, Option.bind_some, ht', Option.all_some] at ho
          exact h.announce hcontrol hentry ht' ho
        | deleted => exact absurd rfl hdeleted
        | sessionRevoked sessionId =>
          exact (h.erase notice fun _ _ _ _ _ _ _ => by simp [hcontrol]).sendControl (by simp) hsent
        | deviceRevoked deviceId =>
          exact (h.erase notice fun _ _ _ _ _ _ _ => by simp [hcontrol]).sendControl (by simp) hsent
    · have hevict : (({ s with notices := s.notices.eraseIdx notice } : Server env.engine).evictTask env t) =
          ({ s with entry := none, notices := s.notices.eraseIdx notice } : Server env.engine).abortTask env t := by
        unfold Server.evictTask
        rw [if_pos hentry]
      rw [hevict]
      exact herased.abortTask
  · exact h

theorem Ordered.lose (ho : s.inOrder (.lose notice) = true) :
    Ordered floor (s.step env (.lose notice)) := by
  refine h.erase notice fun _ _ _ _ _ _ _ => ?_
  simp only [inOrder] at ho
  split at ho
  · cases ho
  · cases ho
  · next hepoch hdeleted => exact ⟨hepoch _, hdeleted⟩

theorem Ordered.hydrate {storage : Storage} (ho : s.inOrder (.hydrate t storage) = true) :
    Ordered floor (s.hydrate env t storage) := by
  refine h.stepTask fun task htask => ?_
  have hold := h.tasks t task htask
  split
  · next hbody =>
    simp only
    split
    · next document revision hhydrated =>
      have hlive : s.db.auth.live = true := by
        by_contra hdead
        rw [if_neg fun hc => hdead hc.2] at hhydrated
        simp at hhydrated
      simp only [inOrder, htask, Option.all_some, all_eq_true, decide_eq_true_eq] at ho
      have hfloor : floor t = 0 := hold.started.resolve_right fun hne => hne hbody
      refine h.put htask ⟨hold.sorted, hold.bound, Or.inl hfloor, ?_⟩ ?_ ?_
      · intro room phase hrun
        obtain ⟨rfl, -⟩ := Body.running.inj hrun
        exact ⟨Nat.le_trans (Nat.le_of_eq hfloor) (Nat.zero_le _), Nat.le_refl _, ho⟩
      · intro room phase _ hrun
        obtain ⟨rfl, -⟩ := Body.running.inj hrun
        exact Or.inl rfl
      · intro hl
        rw [hlive] at hl
        cases hl
    · exact h.setTask htask ⟨Or.inl rfl, fun _ _ hb => by simp at hb, fun hb => by simp at hb⟩
  · exact h

theorem Ordered.applyControl (ht : s.tasks[t]? = some task)
    (hb : task.body = .running room phase)
    (hl : task.lane = control :: lane) (storage : Storage) (now : Millis) (next : Phase) :
    Ordered floor ({ s with db := (room.control env s.db storage now control).1 }.putRoom env t
      { task with lane } (room.control env s.db storage now control).2 next) := by
  by_cases hc : ∃ e, control = .authority (.epochChanged e)
  · obtain ⟨e, rfl⟩ := hc
    have hold := h.tasks t task ht
    obtain ⟨hfloor, hle, hall⟩ := hold.room room phase hb
    have hhead := epochs_head hl
    have he : e ∈ task.epochs := hhead ▸ mem_cons_self
    have hsorted := hold.sorted
    rw [hhead, pairwise_cons] at hsorted
    have hepoch : (room.control env s.db storage now (.authority (.epochChanged e))).2.epoch = e :=
      epochChanged_epoch s.db storage now e
    let after := (room.control env s.db storage now (.authority (.epochChanged e))).2
    have hput : Ordered floor (s.setTask env t
        { task with lane, body := .running { after with out := [] } next }) := by
      refine h.put ht ⟨hsorted.2, ?_, Or.inr (by simp), ?_⟩ ?_ ?_
      · exact fun x hx => hold.bound x (hhead ▸ mem_cons_of_mem e hx)
      · intro room' phase' hrun
        obtain ⟨rfl, -⟩ := Body.running.inj hrun
        show floor t ≤ after.epoch ∧ after.epoch ≤ _ ∧ _
        rw [hepoch]
        exact ⟨Nat.le_trans hfloor (hall e he), hold.bound e he, hsorted.1⟩
      · intro room' phase' hentry hrun
        obtain ⟨rfl, -⟩ := Body.running.inj hrun
        have hnow : e = s.db.auth.epoch → Announced s
            { task with lane, body := .running { after with out := [] } next } { after with out := [] } :=
          fun heq => Or.inl (hepoch.trans heq)
        rcases h.current t task room phase hentry ht hb with hcur | hcur | hcur
        · exact hnow (Nat.le_antisymm (hold.bound e he) (hcur ▸ hall e he))
        · rw [hhead] at hcur
          rcases mem_cons.mp hcur with heq | hmem
          · exact hnow heq.symm
          · exact Or.inr (Or.inl hmem)
        · exact Or.inr (Or.inr hcur)
      · exact fun hlive room' phase' hentry _ => h.deleted hlive t task room phase hentry ht hb
    exact hput.same rfl rfl rfl fun _ heq => heq
  · have hne : ∀ e, control ≠ .authority (.epochChanged e) := fun e heq => hc ⟨e, heq⟩
    have hstore : Ordered floor { s with db := (room.control env s.db storage now control).1 } :=
      h.same (control_auth room s.db storage now control) rfl rfl fun _ heq => heq
    exact hstore.putRoom _ ht hb (control_epoch s.db storage now hne) (epochs_cons hne hl)

theorem Ordered.receive (storage : Storage) (now : Millis) :
    Ordered floor (s.receive env t storage now) := by
  refine h.stepTask fun task ht => ?_
  have hinbox : ∀ inbox, Ordered floor (s.setTask env t { task with inbox }) := fun inbox =>
    h.setTask ht ⟨Or.inl rfl, fun room phase hb => ⟨room, phase, hb, rfl⟩, id⟩
  split
  · next room message inbox hb hmessages =>
    split
    · cases message with
      | join call =>
        simp only [Server.receiveRunning, Server.receiveJoin]
        split
        · split
          · exact (h.putRoom { task with inbox } ht hb (join_epoch _ _ _) rfl).answer _ _ _
          · exact hinbox inbox
        · exact hinbox inbox
      | frame conn data => exact h.putRoom { task with inbox } ht hb rfl rfl
      | read reader =>
        simp only [Server.receiveRunning]
        split
        · exact (hinbox inbox).same rfl rfl rfl fun _ heq => heq
        · exact hinbox inbox
      | shutdown =>
        simp only [Server.receiveRunning]
        have hfinish : ∀ db : Database, db.auth = s.db.auth → ∀ closed : Room env.engine,
            Ordered floor (({ s with db }.putRoom env t { task with inbox } closed .idle).finishTask env t
              { task with inbox } .exited) := by
          intro db hauth closed
          have hstore : Ordered floor { s with db } := h.same hauth rfl rfl fun _ heq => heq
          have hstop : Ordered floor ({ s with db }.finishTask env t { task with inbox } .exited) :=
            hstore.finishTask ht (by simp) (by simp)
          refine hstop.same rfl ?_ rfl fun _ heq => heq
          simp only [Server.finishTask, Server.putRoom, Server.setTask, set_set]
        by_cases hd : room.dead = none
        · simp only [if_pos hd]
          exact hfinish _ (compact_auth room s.db storage) _
        · simp only [if_neg hd]
          exact hfinish _ rfl _
    · exact h
  · next message inbox hb hmessages =>
    cases message with
    | join call =>
      refine (hinbox inbox).stepJoin fun join => ?_
      split
      · exact (hinbox inbox).answer _ _ _
      · exact hinbox inbox
    | shutdown => exact h.finishTask ht (by simp) (by simp)
    | frame conn data => exact hinbox inbox
    | read reader => exact hinbox inbox
  · exact h

theorem Ordered.process (storage : Storage) (now : Millis) :
    Ordered floor (s.process env t storage now) := by
  refine h.stepTask fun task ht => ?_
  split
  · next room frames hb =>
    have hstart : Ordered floor (s.putRoom env t task room (.staging frames (room.startBatch env))) :=
      h.putRoom _ ht hb rfl rfl
    split
    · next control lane hl =>
      split
      · exact h.applyControl ht hb hl storage now _
      · exact hstart
    · exact hstart
  · exact h

theorem Ordered.commit (htidy : Tidy s) (storage : Storage) (now : Millis) :
    Ordered floor (s.commit env t storage now) := by
  refine h.stepTask fun task ht => ?_
  split
  · next room batch hb =>
    have hquiet : QuietRelays batch := htidy.relays t room [] batch ⟨task, ht, hb⟩
    have hstep := finishFrames_step room s.db storage now batch hquiet
    have hstore : Ordered floor { s with db := (room.finishFrames env s.db storage now batch).1 } :=
      h.same (finish_auth hstep) rfl rfl fun _ heq => heq
    simp only
    split
    · have hstop : Ordered floor (Server.finishTask env
          { s with db := (room.finishFrames env s.db storage now batch).1 } t task .gone) :=
        hstore.finishTask ht (by simp) (by simp)
      refine hstop.same rfl ?_ rfl fun _ heq => heq
      simp only [Server.finishTask, Server.putRoom, Server.setTask, set_set]
    · exact hstore.putRoom _ ht hb (finish_epoch hstep) rfl
  · exact h

theorem Ordered.step (htidy : Tidy s) (e : Event) (ho : s.inOrder e = true) :
    Ordered floor (s.step env e) := by
  cases e with
  | authenticate sessionId now =>
    simp only [Server.step]
    split
    · exact h.same rfl rfl rfl fun _ heq => heq
    · exact h
  | authenticateScratch scratchId now =>
    simp only [Server.step]
    split
    · exact h.same rfl rfl rfl fun _ heq => heq
    · exact h
  | route route => exact h.applyRoute route
  | admission ticketId secretMatches cookie now => exact h.admission ticketId secretMatches cookie now
  | dispatch notice => exact h.dispatch ho
  | lose notice => exact h.lose ho
  | join actor clientVersion =>
    simp only [Server.step]
    split
    · exact h.same rfl rfl rfl fun _ heq => heq
    · exact h
  | joinLookup call crowded =>
    refine h.stepJoin fun join => ?_
    split
    · exact h.lookupEntry fun hn => hn.setJoin _ _ _
    · exact h
  | joinCheck call storage =>
    refine h.stepJoin fun join => ?_
    split
    · exact h
    split
    · exact h.answer _ _ _
    split
    · exact h.setJoin _ _ _
    · exact h.answer _ _ _
  | joinInsert call crowded =>
    refine h.stepJoin fun join => ?_
    split
    · exact h.lookupEntry fun hn => hn.spawn.setJoin _ _ _
    · exact h
  | joinSend call =>
    refine h.stepJoin fun join => ?_
    split
    · split
      · next sent hsent => exact (h.sendMessage hsent).setJoin _ _ _
      · exact h.answer _ _ _
    · exact h
  | joinTimeout call =>
    refine h.stepJoin fun join => ?_
    split
    · exact h.answer _ _ _
    · exact h
  | joinDropped call =>
    refine h.stepJoin fun join => ?_
    split
    · split
      · exact h.answer _ _ _
      · exact h
    · exact h
  | frame t conn data =>
    simp only [Server.step]
    cases hs : s.sendMessage env t (.frame conn data) with
    | none => exact h
    | some sent => exact h.sendMessage hs
  | read reader =>
    simp only [Server.step]
    split
    · next sent hsent =>
      obtain ⟨t, -, hs⟩ := Option.bind_eq_some_iff.mp hsent
      exact (h.sendMessage hs).same rfl rfl rfl fun _ heq => heq
    · exact h
  | readTimeout reader => exact h.same rfl rfl rfl fun _ heq => heq
  | leave t conn =>
    simp only [Server.step]
    split
    · cases hs : s.sendControl env t (.leave conn) with
      | none => exact h.evictTask
      | some sent => exact h.sendControl (by simp) hs
    · exact h
  | evict t => exact h.evictTask
  | abandon t =>
    refine h.stepTask fun task ht => ?_
    split
    · exact h.setTask ht (abort_follows task)
    · exact h
  | hydrate t storage => exact h.hydrate ho
  | control t storage now =>
    refine h.stepTask fun task ht => ?_
    split
    · next room control lane hb hl => exact h.applyControl ht hb hl storage now .idle
    · exact h
  | receive t storage now => exact h.receive storage now
  | collect t =>
    refine h.stepTask fun task ht => ?_
    split
    · next room frames conn data inbox hb hinbox =>
      split
      · exact h.putRoom { task with inbox } ht hb rfl rfl
      · exact h
    · exact h
  | process t storage now => exact h.process storage now
  | stage t storage now =>
    refine h.stepTask fun task ht => ?_
    split
    · next room conn data frames batch hb =>
      exact h.putRoom _ ht hb (frame_epoch (stageFrame_step s.db storage room batch ⟨conn, data, now⟩)) rfl
    · exact h
  | commit t storage now => exact h.commit htidy storage now
  | idle t storage =>
    refine h.stepTask fun task ht => ?_
    split
    · next room hb =>
      split
      · have hstore : Ordered floor { s with db := (room.compact env s.db storage).1 } :=
          h.same (compact_auth room s.db storage) rfl rfl fun _ heq => heq
        exact hstore.finishTask ht (by simp) (by simp)
      · exact h
    · exact h
  | cleanup t =>
    refine h.stepTask fun task ht => ?_
    split
    · have hset : Ordered floor (s.setTask env t { task with body := .gone }) :=
        h.setTask ht ⟨Or.inl rfl, fun _ _ hrun => by simp at hrun, fun hrun => by simp at hrun⟩
      refine hset.same rfl rfl rfl fun u hu => ?_
      simp only at hu
      split at hu
      · simp at hu
      · exact hu
    · exact h
  | shutdown =>
    simp only [Server.step, Server.shutdown]
    split
    · exact h
    · split
      · next sent hsent => exact h.unlisted.sendMessage hsent
      · exact h.unlisted.abortTask
  | crash =>
    have hgone : ∀ {t : TaskId} {found : Task env.engine}, (s.crash env).tasks[t]? = some found →
        found = ⟨.gone, [], [], true⟩ := by
      intro t found hf
      simp only [Server.crash, getElem?_map, Option.map_eq_some_iff] at hf
      obtain ⟨_, _, heq⟩ := hf
      exact heq.symm
    refine ⟨?_, ?_, fun _ he => absurd he not_mem_nil, ?_, ?_⟩
    · intro t found hf
      rw [hgone hf]
      exact ⟨List.Pairwise.nil, fun _ he => absurd he not_mem_nil, Or.inr (by simp),
        fun _ _ hrun => by simp at hrun⟩
    · intro t ht
      refine h.fresh t ?_
      simpa [Server.step, Server.crash] using ht
    · exact fun t found room phase hentry => by simp [Server.step, Server.crash] at hentry
    · exact fun _ t found room phase hentry => by simp [Server.step, Server.crash] at hentry

end

/-! ## Runs -/

def InOrder (env : Env) (db : Database) (events : List Event) : Prop :=
  Transition.Along (fun s e => Server.step env s e) (fun s e => s.inOrder e = true) (init env db) events

instance (env : Env) (db : Database) (events : List Event) : Decidable (InOrder env db events) :=
  Transition.decidableAlong _ _

theorem ordered_init : Ordered (fun _ => 0) (init env db) where
  tasks := fun _ _ ht => by cases ht
  fresh := fun _ _ => rfl
  notices := fun _ he => by cases he
  current := fun _ _ _ _ hentry => by cases hentry
  deleted := fun _ _ _ _ _ hentry => by cases hentry

theorem ordered_run {before : List Event} (h : Ordered floor (after env db before))
    {more : List Event} (ho : Transition.Along (fun s e => Server.step env s e)
      (fun s e => s.inOrder e = true) (after env db before) more) :
    Ordered floor (after env db (before ++ more)) := by
  induction more using List.reverseRecOn with
  | nil => rwa [append_nil]
  | append_singleton more e ih =>
    obtain ⟨hmore, hlast⟩ := Transition.along_append.mp ho
    have hrun : Transition.run (fun s e => Server.step env s e) (after env db before) more =
        after env db (before ++ more) := (Transition.run_append _ before more).symm
    rw [← append_assoc, after_snoc]
    exact (ih hmore).step (tidy_after (before ++ more)) e (hrun ▸ hlast.1)

theorem ordered_after {events : List Event} (h : InOrder env db events) :
    Ordered (fun _ => 0) (after env db events) := by
  have hrun : Ordered (fun _ => 0) (after env db ([] ++ events)) := ordered_run ordered_init h
  rwa [nil_append] at hrun

end Server

def EpochGrows (env : Env) (db : Database) (before more : List Event) : Prop :=
  ∀ t room phase room' phase', Server.Runs (Server.after env db before) t room phase →
    Server.Runs (Server.after env db (before ++ more)) t room' phase' → room.epoch ≤ room'.epoch

def EpochConverges {E : Engine} (s : Server E) : Prop :=
  ∀ t task room phase, s.entry = some t → s.tasks[t]? = some task → task.body = .running room phase →
    s.notices = [] → task.lane = [] → room.epoch = s.db.auth.epoch

/-- **Epochs converge** along every run in which controls are sent and reach the room in the order of
their transactions, none of them from before the room's hydration. -/
theorem epochs_converge (env : Env) (db : Database) (before more : List Event)
    (h : Server.InOrder env db (before ++ more)) :
    EpochGrows env db before more ∧ EpochConverges (Server.after env db (before ++ more)) := by
  obtain ⟨hbefore, hmore⟩ := Transition.along_append.mp h
  refine ⟨?_, ?_⟩
  · intro t room phase room' phase' ⟨task, htask, hbody⟩ ⟨task', htask', hbody'⟩
    have hstart := Server.ordered_after hbefore
    -- the room's epoch is a floor for its task from here on
    have hfloor : Server.Ordered (fun u => if u = t then room.epoch else 0)
        (Server.after env db before) := by
      refine ⟨fun u found hf => ?_, fun u hu => ?_, hstart.notices, hstart.current, hstart.deleted⟩
      · by_cases hu : u = t
        · subst hu
          have heq : found = task := Option.some.inj (hf.symm.trans htask)
          subst heq
          obtain ⟨-, hle, hall⟩ := (hstart.tasks u found hf).room room phase hbody
          simp only [if_true]
          refine ⟨(hstart.tasks u found hf).sorted, (hstart.tasks u found hf).bound, ?_, ?_⟩
          · exact Or.inr fun hs => by rw [hbody] at hs; simp at hs
          intro r p hb
          rw [hbody] at hb
          obtain ⟨rfl, -⟩ := Body.running.inj hb
          exact ⟨Nat.le_refl _, hle, hall⟩
        · simp only [if_neg hu]
          exact hstart.tasks u found hf
      · have hlt := (List.getElem?_eq_some_iff.mp htask).1
        have hne : u ≠ t := fun heq => absurd hu (Nat.not_le.mpr (heq ▸ hlt))
        simp only [if_neg hne]
    have hend := (Server.ordered_run hfloor hmore).tasks t task' htask'
    have hle := (hend.room room' phase' hbody').1
    simpa using hle
  · intro t task room phase hentry htask hbody hnotices hlane
    have hc := (Server.ordered_after h).current t task room phase hentry htask hbody
    have hepochs : task.epochs = [] := by
      unfold Task.epochs
      rw [hlane]
      rfl
    unfold Server.Announced at hc
    rw [hepochs, hnotices] at hc
    simpa using hc

def sharing : List Event :=
  asking 1 0 ++ opening 0 0 ++ [.route (.insertPrincipal 2),
    .route (.sharePut ownerSession 2 .viewer 1), .route (.sharePut ownerSession 2 .editor 2)]

theorem sharing_converges : EpochGrows (smallEnv 4) ownedDocument sharing
      [.dispatch 0, .control 0 .ok 3, .dispatch 0, .control 0 .ok 3] ∧
    EpochConverges (Server.after (smallEnv 4) ownedDocument
      (sharing ++ [.dispatch 0, .control 0 .ok 3, .dispatch 0, .control 0 .ok 3])) :=
  epochs_converge (smallEnv 4) ownedDocument sharing _ (by decide +kernel)

def roomEpoch {E : Engine} (s : Server E) : Option Nat :=
  match s.tasks.head?.map Task.body with
  | some (.running room _) => some room.epoch
  | _ => none

theorem runs_of_roomEpoch {env : Env} {s : Server env.engine} {epoch : Nat} (h : roomEpoch s = some epoch) :
    ∃ task room phase, s.tasks[0]? = some task ∧ task.body = .running room phase ∧ room.epoch = epoch := by
  unfold roomEpoch at h
  split at h
  · next room phase hb =>
    obtain ⟨task, htask, hbody⟩ := Option.map_eq_some_iff.mp hb
    exact ⟨task, room, phase, head?_eq_getElem? ▸ htask, hbody, Option.some.inj h⟩
  · simp at h

def overtaking : List Event := sharing ++ [.dispatch 1, .control 0 .ok 3]

theorem overtaking_diverges :
    ¬ (EpochGrows (smallEnv 4) ownedDocument overtaking [.dispatch 0, .control 0 .ok 3] ∧
      EpochConverges (Server.after (smallEnv 4) ownedDocument
        (overtaking ++ [.dispatch 0, .control 0 .ok 3]))) := by
  intro ⟨hgrows, _⟩
  obtain ⟨task, room, phase, htask, hbody, hbefore⟩ := runs_of_roomEpoch
    (show roomEpoch (Server.after (smallEnv 4) ownedDocument overtaking) = some 3 by decide +kernel)
  obtain ⟨task', room', phase', htask', hbody', hafter⟩ := runs_of_roomEpoch
    (show roomEpoch (Server.after (smallEnv 4) ownedDocument
      (overtaking ++ [.dispatch 0, .control 0 .ok 3])) = some 2 by decide +kernel)
  have hle := hgrows 0 room phase room' phase' ⟨task, htask, hbody⟩ ⟨task', htask', hbody'⟩
  omega

end Marks
