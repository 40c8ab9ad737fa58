import Marks.WriteSound

/-! # Joins of a live document

A task whose room died, or whose hydration failed, answers every join as a deleted document's, and it
keeps its place in the registry. So the joins of a live document go well exactly while no task that a
join can still reach ends so. -/

namespace Marks

open Room List

def Task.ends {E : Engine} (task : Task E) : Bool :=
  (match task.body with
    | .refusing => true
    | .running room _ => room.dead.isSome
    | _ => false) || task.lane.contains (.authority .deleted)

def Task.reauthorizes {E : Engine} (task : Task E) : Bool :=
  match task.lane with
  | .authority (.epochChanged _) :: _ => true
  | _ => false

namespace Server

section
variable {E : Engine} (s : Server E)

/-- The registry names task `t`, or an unanswered join holds its channel. -/
def reaches (t : TaskId) : Bool :=
  s.entry == some t || s.joins.any fun join => join.phase == .holding t || join.phase == .waiting t

/-- A join can reach task `t`, and `p` holds of it. -/
def exposes (t : TaskId) (p : Task E → Bool) : Bool :=
  s.tasks[t]?.any fun task => !task.aborted && s.reaches t && p task

def settled : Bool :=
  (List.range s.tasks.length).all (fun t => !s.exposes t Task.ends) && !s.notices.contains .deleted

end

variable (env : Env) (s : Server env.engine)

/-- The hydration of `task` would fail. -/
def failsHydration (storage : Storage) (task : Task env.engine) : Bool :=
  match task.body with
  | .starting => storage ≠ .ok || (hydrateDocument env.engine s.db.store).isNone
  | _ => false

/-- The next frame of `task` would kill its room. -/
def failsFrame (storage : Storage) (now : Millis) (task : Task env.engine) : Bool :=
  match task.body with
  | .running room (.staging ((conn, data) :: _) batch) =>
    (room.stageFrame env s.db storage batch ⟨conn, data, now⟩).1.dead.isSome
  | _ => false

/-- The commit of `task` would kill its room. -/
def failsCommit (storage : Storage) (now : Millis) (task : Task env.engine) : Bool :=
  match task.body with
  | .running room (.staging [] batch) => (room.finishFrames env s.db storage now batch).2.dead.isSome
  | _ => false

/-- While the document is live no room that a join can reach dies or fails to hydrate, and a deleted
document is restored only when nothing of the deletion is left. -/
def recoverable : Event → Bool
  | .route (.restore _) => s.settled
  | .hydrate t storage => !(s.db.auth.live && s.exposes t (s.failsHydration env storage))
  | .control t storage _ => !(s.db.auth.live && s.exposes t fun task => storage ≠ .ok && task.reauthorizes)
  | .process t storage _ => !(s.db.auth.live && s.exposes t fun task => storage ≠ .ok && task.reauthorizes)
  | .stage t storage now => !(s.db.auth.live && s.exposes t (s.failsFrame env storage now))
  | .commit t storage now => !(s.db.auth.live && s.exposes t (s.failsCommit env storage now))
  | _ => true

end Server

/-! ## What leaves a room alive -/

variable {storage : Storage}

section
variable {env : Env} {room : Room env.engine}

theorem trySend_dead (conn : ConnId) (message : OutMsg) :
    (room.trySend env conn message).1.dead = room.dead := by
  unfold trySend
  split <;> rfl

theorem closeOne_dead (conn : ConnId) (code : CloseCode) :
    (room.closeOne env conn code).dead = room.dead := by
  unfold closeOne
  split
  · exact trySend_dead conn (.close code)
  · rfl

theorem foldl_dead {α : Type*} {f : Room env.engine → α → Room env.engine} {l : List α}
    (hf : ∀ room x, (f room x).dead = room.dead) : (l.foldl f room).dead = room.dead := by
  induction l generalizing room with
  | nil => rfl
  | cons x l ih => exact ih.trans (hf room x)

theorem closeEach_dead (conns : List ConnId) (code : CloseCode) :
    (room.closeEach env conns code).dead = room.dead :=
  foldl_dead fun _ conn => closeOne_dead conn code

theorem sendInitial_dead (conn : ConnId) (frames : List OutMsg) :
    (sendInitial env conn frames room).1.dead = room.dead := by
  induction frames generalizing room with
  | nil => rfl
  | cons message messages ih =>
    have hs : (room.trySend env conn message).1.dead = room.dead := trySend_dead conn message
    unfold sendInitial
    simp only
    split
    · exact ih.trans hs
    · exact hs

theorem join_dead (actor : RoomActor) (clientVersion : Option Version) (now : Millis) :
    (room.join env actor clientVersion now).1.dead = room.dead ∧
      (room.dead = none → (room.join env actor clientVersion now).2 ≠ .error .gone) ∧
        (room.dead.isSome → (room.join env actor clientVersion now).2 = .error .gone) := by
  unfold join
  by_cases hd : room.dead.isSome
  · rw [if_pos hd]
    refine ⟨rfl, fun hnone => ?_, fun _ => rfl⟩
    rw [hnone] at hd
    cases hd
  · rw [if_neg hd]
    refine ⟨?_, fun _ => ?_, fun h => absurd h hd⟩
    · split
      · rfl
      split
      · rfl
      cases room.initialFrames env clientVersion with
      | none => rfl
      | some frames =>
        simp only
        split <;> exact sendInitial_dead _ _
    · split
      · exact fun h => by cases h
      split
      · exact fun h => by cases h
      cases room.initialFrames env clientVersion with
      | none => exact fun h => by cases h
      | some frames =>
        simp only
        split <;> exact fun h => by cases h

theorem compact_dead (db : Database) (storage : Storage) :
    (room.compact env db storage).2.dead = room.dead := (compact_step room db storage).fields.2.2.1

theorem applyResolved_dead (entry : ConnId × Option RoomActor) :
    (applyResolved env room entry).dead = room.dead := by
  unfold applyResolved
  split
  · rfl
  · rfl
  · exact closeOne_dead _ _

theorem control_dead (db : Database) (now : Millis) {control : RoomControl}
    (hdeleted : control ≠ .authority .deleted)
    (hs : storage = .ok ∨ ∀ epoch, control ≠ .authority (.epochChanged epoch)) :
    (room.control env db storage now control).2.dead = room.dead := by
  cases control with
  | leave conn =>
    simp only [Room.control]
    split
    · exact compact_dead db storage
    · rfl
  | authority control =>
    cases control with
    | deleted => exact absurd rfl hdeleted
    | sessionRevoked sessionId => exact closeEach_dead _ _
    | deviceRevoked deviceId => exact closeEach_dead _ _
    | epochChanged epoch =>
      rcases hs with hs | hs
      · have hok : ¬ storage ≠ .ok := fun hne => hne hs
        simp only [Room.control, reresolveSockets, if_neg hok]
        exact foldl_dead fun room entry => applyResolved_dead entry
      · exact absurd rfl (hs epoch)

end

/-! ## What deletes and restores -/

variable {now : Millis} {route : Route}

section
variable {auth auth' : AuthorityTables}

theorem live_of_document (h : auth'.document.record.deletedAtMs = auth.document.record.deletedAtMs) :
    auth'.live = auth.live := by
  unfold AuthorityTables.live requireLiveDocument
  rw [h]

theorem claim_live {scratchId : ScratchId} {principalId : PrincipalId} {device : DeviceId}
    (h : claim auth scratchId principalId device now = .ok auth') :
    auth'.live = auth.live := by
  have hclaimed : (claimScratchDocuments auth scratchId principalId device now).live = auth.live := by
    unfold claimScratchDocuments
    split
    · simp only
      split <;> rfl
    · rfl
  rw [← hclaimed]
  simp only [claim, persistScratchClaim] at h
  split at h
  · cases h
  split at h
  · cases h
  split at h
  · split at h
    · rw [← Except.ok.inj h]
    · cases h
  · rw [← Except.ok.inj h]
    rfl

/-- What a route leaves of the document. -/
inductive RouteDocument (auth auth' : AuthorityTables) (route : Route) : Prop
  | same (document : auth'.document = auth.document) (quiet : .deleted ∉ route.notices auth auth')
  | bumped {mid : AuthorityTables} {now : Millis} (document : mid.document = auth.document)
    (after : auth' = bumpEpoch mid now) (notices : route.notices auth auth' = [.epochChanged auth'.epoch])
  | deleted (gone : auth'.live = false) (epoch : auth.epoch < auth'.epoch)
    (notices : route.notices auth auth' = [.deleted])
  | restored {caller : Caller} (route : route = .restore caller) (gone : auth.live = false)
    (epoch : auth.epoch < auth'.epoch)
  | claimed {scratchId : ScratchId} {principalId : PrincipalId} {device : DeviceId} {now : Millis}
    (route : route = .claim scratchId principalId device now)
    (claim : claim auth scratchId principalId device now = .ok auth')

theorem route_document (h : route.apply auth = .ok auth') : RouteDocument auth auth' route := by
  cases route with
  | insertPrincipal id =>
    simp only [Route.apply, insertPrincipal] at h
    split at h
    · cases h
    · cases h
      exact .same rfl not_mem_nil
  | insertDevice id principalId revokeDevices =>
    simp only [Route.apply, insertDevice] at h
    split at h
    · cases h
    · cases h
      exact .same rfl not_mem_nil
  | insertSession id principalId deviceId expiresAtMs =>
    simp only [Route.apply, insertSession] at h
    split at h
    · cases h
    · cases h
      exact .same rfl not_mem_nil
  | scratchCreate id expiresAtMs =>
    simp only [Route.apply, scratchCreate] at h
    split at h
    · cases h
    · cases h
      exact .same rfl not_mem_nil
  | rotateSession caller expiresAtMs =>
    cases h
    exact .same rfl not_mem_nil
  | sessionDelete caller now =>
    cases h
    exact .same rfl (by simp [Route.notices])
  | deviceRevoke caller target now =>
    simp only [Route.apply, deviceRevoke] at h
    split at h
    · cases h
    · cases h
    split at h
    · cases h
    · cases h
      exact .same rfl (by simp [Route.notices])
  | sharePut caller grantee role now =>
    simp only [Route.apply, sharePut] at h
    split at h
    · cases h
    split at h
    · cases h
    split at h
    · cases h
    split at h
    · cases h
    · exact .bumped (upsertAcl_document grantee role).1 (Except.ok.inj h).symm rfl
  | shareDelete caller grantee now =>
    simp only [Route.apply, shareDelete] at h
    split at h
    · cases h
    · exact .bumped (by rfl) (Except.ok.inj h).symm rfl
  | linkCreate caller role tokenHash ttl now =>
    simp only [Route.apply, linkCreate] at h
    split at h
    · cases h
    split at h
    · cases h
    · exact .bumped (by rfl) (Except.ok.inj h).symm rfl
  | linkRevoke caller now =>
    simp only [Route.apply, linkRevoke] at h
    split at h
    · cases h
    · exact .bumped (by rfl) (Except.ok.inj h).symm rfl
  | linkRedeem caller tokenHash now =>
    simp only [Route.apply, linkRedeem] at h
    split at h
    · cases h
    split at h
    · cases h
    split at h
    · cases h
      exact .same rfl not_mem_nil
    split at h
    · cases h
      exact .same rfl not_mem_nil
    · next role _ _ _ =>
      cases h
      exact .same (upsertAcl_document caller.principalId role).1 not_mem_nil
  | delete caller now =>
    simp only [Route.apply, deleteDocument] at h
    split at h
    · cases h
    · cases h
      exact .deleted (by simp [AuthorityTables.live, requireLiveDocument, revokeTickets, setRecord])
        (Nat.lt_succ_self _) rfl
  | restore caller =>
    simp only [Route.apply, restoreDocument] at h
    split at h
    · cases h
    next hlive =>
    split at h
    · cases h
      exact .restored rfl (Bool.not_eq_true _ ▸ hlive) (Nat.lt_succ_self _)
    · cases h
  | claim scratchId principalId deviceId now => exact .claimed rfl h
  | principalSession caller requested id secretHash now =>
    simp only [Route.apply] at h
    cases hr : principalRoomSession auth caller requested id secretHash now with
    | error error =>
      rw [hr] at h
      cases h
    | ok result =>
      rw [hr] at h
      rw [← show result.1 = auth' from Except.ok.inj h]
      obtain ⟨role, sites, ticket, -, -, -, hafter⟩ := principalRoomSession_ok hr
      exact .same (by rw [hafter]) not_mem_nil
  | scratchSession scratchId requested id secretHash now =>
    simp only [Route.apply] at h
    cases hr : scratchRoomSession auth scratchId requested id secretHash now with
    | error error =>
      rw [hr] at h
      cases h
    | ok result =>
      rw [hr] at h
      rw [← show result.1 = auth' from Except.ok.inj h]
      obtain ⟨scratch, role, sites, ticket, -, -, -, hafter⟩ := scratchRoomSession_ok hr
      exact .same (by rw [hafter]) not_mem_nil

theorem route_live (h : route.apply auth = .ok auth') (hl : auth'.live = true) :
    Control.deleted ∉ route.notices auth auth' ∧
      (auth.live = true ∨ ∃ caller, route = .restore caller) := by
  cases route_document h with
  | same hd hquiet =>
    have hlive : auth'.live = auth.live := live_of_document (by rw [hd])
    exact ⟨hquiet, Or.inl (hlive ▸ hl)⟩
  | bumped hd hafter hnotices =>
    have hlive : auth'.live = auth.live := live_of_document (by rw [hafter, ← hd]; rfl)
    exact ⟨by simp [hnotices], Or.inl (hlive ▸ hl)⟩
  | deleted hgone _ _ => cases hgone.symm.trans hl
  | restored hroute _ _ => exact ⟨by rw [hroute]; exact not_mem_nil, Or.inr ⟨_, hroute⟩⟩
  | claimed hroute hclaim =>
    rw [hroute]
    refine ⟨?_, Or.inl (claim_live hclaim ▸ hl)⟩
    simp only [Route.notices]
    split <;> simp

theorem admitTicket_document {ticketId : TicketId} {secretMatches : Bool}
    {cookie : Option AuthenticatedSession} {actor : RoomActor}
    (h : admitTicket auth ticketId secretMatches cookie now = .ok (auth', actor)) :
    auth'.document = auth.document := by
  unfold admitTicket at h
  split at h
  · cases h
  split at h
  · cases h
  split at h
  · cases h
  simp only at h
  split at h
  · cases h
  · cases h
    rfl

end

/-! ## What leaves the registry sound -/

def Task.away {E : Engine} (task : Task E) : Bool :=
  match task.body with
  | .running _ (.staging ..) => true
  | .exited => true
  | .gone => true
  | _ => false

namespace Server

/-- While the document is live no join was refused as gone, those that succeeded reached `S`, and no task
within reach ends. -/
structure Healthy {E : Engine} (S : TaskId → Prop) (s : Server E) : Prop where
  log : ∀ call result, .answered call result true ∈ s.log →
    result ≠ .error .gone ∧ ∀ t conn, result = .ok (t, conn) → S t
  away : ∀ (t : TaskId) task, s.tasks[t]? = some task → task.aborted = true → task.away = true
  safe : s.db.auth.live = true → ∀ (t : TaskId) task, s.tasks[t]? = some task → task.aborted = false →
    s.reaches t = true → task.ends = false
  notices : s.db.auth.live = true → .deleted ∉ s.notices

variable {env : Env} {s s' : Server env.engine} {S : TaskId → Prop} {t : TaskId}
  {task task' : Task env.engine}

theorem reaches_iff : s.reaches t = true ↔
    s.entry = some t ∨ ∃ join ∈ s.joins, join.phase = .holding t ∨ join.phase = .waiting t := by
  unfold reaches
  simp

section

variable (h : Healthy S s)
include h

theorem Healthy.fewer (hl : s'.log = s.log) (ht : s'.tasks = s.tasks)
    (ha : s'.db.auth = s.db.auth) (hn : s'.notices ⊆ s.notices)
    (hr : ∀ t, s'.reaches t = true → s.reaches t = true) : Healthy S s' where
  log := by rw [hl]; exact h.log
  away := by rw [ht]; exact h.away
  safe := by
    rw [ha, ht]
    exact fun hlive t task htask hab hreach => h.safe hlive t task htask hab (hr t hreach)
  notices := by
    rw [ha]
    exact fun hlive hmem => h.notices hlive (hn hmem)

theorem Healthy.same (hl : s'.log = s.log) (ht : s'.tasks = s.tasks)
    (ha : s'.db.auth = s.db.auth) (hn : s'.notices = s.notices) (he : s'.entry = s.entry)
    (hj : s'.joins = s.joins) : Healthy S s' := by
  refine h.fewer hl ht ha (by rw [hn]; exact fun _ hx => hx) fun t hreach => ?_
  rw [reaches_iff] at hreach ⊢
  rw [he, hj] at hreach
  exact hreach

theorem Healthy.noEntry : Healthy S { s with entry := none } := by
  refine h.fewer rfl rfl rfl (fun _ hx => hx) fun t hreach => ?_
  rw [reaches_iff] at hreach ⊢
  rcases hreach with hentry | hjoin
  · cases hentry
  · exact Or.inr hjoin

theorem Healthy.setTask (hab : task'.aborted = true → task'.away = true)
    (hends : s.db.auth.live = true → task'.aborted = false → s.reaches t = true → task'.ends = false) :
    Healthy S (s.setTask env t task') := by
  have hget : ∀ {u : TaskId} {other}, (s.setTask env t task').tasks[u]? = some other →
      (u = t ∧ other = task') ∨ s.tasks[u]? = some other := by
    intro u other hother
    simp only [Server.setTask, getElem?_set] at hother
    split at hother
    · rename_i heq
      split at hother
      · exact Or.inl ⟨heq.symm, (Option.some.inj hother).symm⟩
      · cases hother
    · exact Or.inr hother
  refine ⟨h.log, fun u other hother => ?_, fun hlive u other hother hnot hreach => ?_, h.notices⟩
  · rcases hget hother with ⟨-, rfl⟩ | hold
    · exact hab
    · exact h.away u other hold
  · rcases hget hother with ⟨rfl, rfl⟩ | hold
    · exact hends hlive hnot hreach
    · exact h.safe hlive u other hold hnot hreach

theorem Healthy.milder (ht : s.tasks[t]? = some task)
    (hab : task'.aborted = true → task'.away = true)
    (hback : task'.aborted = false → task.aborted = false)
    (hends : task.ends = false → task'.ends = false) : Healthy S (s.setTask env t task') :=
  h.setTask hab fun hlive hnot hreach => hends (h.safe hlive t task ht (hback hnot) hreach)

theorem Healthy.store {db : Database} (ha : db.auth = s.db.auth) :
    Healthy S { s with db } := h.same rfl rfl ha rfl rfl rfl

theorem Healthy.record (out : List Output) :
    Healthy S { s with log := s.log ++ out.map (.room t) } := by
  refine ⟨fun call result hmem => ?_, h.away, h.safe, h.notices⟩
  rcases mem_append.mp hmem with hmem | hmem
  · exact h.log call result hmem
  · obtain ⟨o, -, ho⟩ := mem_map.mp hmem
    cases ho

theorem Healthy.putRoom {room : Room env.engine} {phase : Phase}
    (hab : task.aborted = true → phase.isStaging = true)
    (hends : s.db.auth.live = true → task.aborted = false → s.reaches t = true →
      room.dead = none ∧ .authority .deleted ∉ task.lane) :
    Healthy S (s.putRoom env t task room phase) := by
  refine (h.record (t := t) room.out).setTask (fun habort => ?_) fun hlive hnot hreach => ?_
  · have hp := hab habort
    unfold Task.away
    cases phase with
    | staging frames batch => rfl
    | idle => exact absurd hp (by simp [Phase.isStaging])
    | collecting frames => exact absurd hp (by simp [Phase.isStaging])
  · obtain ⟨hdead, hlane⟩ := hends hlive hnot hreach
    simp [Task.ends, hdead, hlane]

theorem Healthy.finishTask {body : Body env.engine} (hb : body = .exited ∨ body = .gone) :
    Healthy S (s.finishTask env t task body) := by
  refine h.setTask (fun _ => ?_) fun _ _ _ => ?_
  · rcases hb with rfl | rfl <;> rfl
  · rcases hb with rfl | rfl <;> rfl

theorem Healthy.putRoomFinish {room : Room env.engine} {phase : Phase} {body : Body env.engine}
    (hb : body = .exited ∨ body = .gone) :
    Healthy S ((s.putRoom env t task room phase).finishTask env t task' body) := by
  have hfinish : Healthy S ({ s with log := s.log ++ room.out.map (Entry.room t) }.finishTask env t task' body) :=
    (h.record room.out).finishTask hb
  refine hfinish.same rfl ?_ rfl rfl rfl rfl
  simp only [Server.finishTask, Server.putRoom, Server.setTask, set_set]

theorem Healthy.abort (ht : s.tasks[t]? = some task) :
    Healthy S (s.setTask env t task.abort) := by
  refine h.milder ht ?_ ?_ ?_
  · intro habort
    unfold Task.abort at habort ⊢
    split
    · rename_i hbody
      simp only [Task.away, hbody]
    · rename_i hbody
      simp only [Task.away, hbody]
    · rfl
  · intro hnot
    unfold Task.abort at hnot
    split at hnot
    · cases hnot
    · exact hnot
    · exact hnot
  · intro hends
    unfold Task.abort
    split
    · exact hends
    · exact hends
    · rfl

theorem Healthy.abortTask : Healthy S (s.abortTask env t) := by
  unfold Server.abortTask
  cases ht : s.tasks[t]? with
  | none => exact h
  | some task => exact h.abort ht

theorem Healthy.evictTask : Healthy S (s.evictTask env t) := by
  unfold Server.evictTask
  split
  · exact h.noEntry.abortTask
  · exact h

theorem Healthy.sendControl {control : RoomControl}
    (hc : s.db.auth.live = true → control ≠ .authority .deleted)
    (hs : s.sendControl env t control = some s') : Healthy S s' := by
  unfold Server.sendControl at hs
  split at hs
  · rename_i task ht
    split at hs
    · cases hs
      refine h.setTask (fun habort => h.away t task ht habort) fun hlive hnot hreach => ?_
      have hends := h.safe hlive t task ht hnot hreach
      have hne : ¬ RoomControl.authority .deleted = control := fun heq => hc hlive heq.symm
      simp only [Task.ends, Bool.or_eq_false_iff] at hends ⊢
      refine ⟨hends.1, ?_⟩
      simpa [hne] using hends.2
    · cases hs
  · cases hs

end

variable {message : RoomMsg}

theorem Healthy.sendMessage (h : Healthy S s)
    (hs : s.sendMessage env t message = some s') : Healthy S s' := by
  unfold Server.sendMessage at hs
  split at hs
  · rename_i task ht
    split at hs
    · cases hs
      exact h.milder ht (h.away t task ht) (fun hnot => hnot) fun hends => hends
    · cases hs
  · cases hs

theorem sendMessage_reaches {u : TaskId} (hs : s.sendMessage env t message = some s')
    (hreach : s.reaches u = true) : s'.reaches u = true := by
  unfold Server.sendMessage at hs
  split at hs
  · split at hs
    · cases hs
      exact hreach
    · cases hs
  · cases hs

variable {call : Nat} {join : JoinCall}

section

variable (h : Healthy S s)
include h

theorem Healthy.setJoin {phase : JoinPhase}
    (hr : ∀ t, phase = .holding t ∨ phase = .waiting t → s.reaches t = true) :
    Healthy S (s.setJoin env call join phase) := by
  refine h.fewer rfl rfl rfl (fun _ hx => hx) fun t hreach => ?_
  rw [reaches_iff] at hreach
  rcases hreach with hentry | ⟨other, hmem, hphase⟩
  · exact reaches_iff.mpr (Or.inl hentry)
  · rcases mem_or_eq_of_mem_set hmem with hmem | rfl
    · exact reaches_iff.mpr (Or.inr ⟨other, hmem, hphase⟩)
    · exact hr t hphase

theorem Healthy.answer
    {result : Except JoinRefusal (TaskId × ConnId)}
    (hresult : s.db.auth.live = true → result ≠ .error .gone ∧ ∀ t conn, result = .ok (t, conn) → S t) :
    Healthy S (s.answer env call join result) := by
  have hset : Healthy S (s.setJoin env call join .answered) :=
    h.setJoin fun t ht => by rcases ht with ht | ht <;> cases ht
  refine ⟨fun other found hmem => ?_, hset.away, hset.safe, hset.notices⟩
  rcases mem_append.mp hmem with hmem | hmem
  · exact h.log other found hmem
  · obtain ⟨-, rfl, hlive⟩ := Entry.answered.inj (mem_singleton.mp hmem)
    exact hresult hlive.symm

theorem Healthy.refuse {refusal : JoinRefusal}
    (hne : refusal ≠ .gone) : Healthy S (s.answer env call join (.error refusal)) := by
  refine h.answer fun _ => ⟨fun heq => hne (Except.error.inj heq), fun t conn heq => ?_⟩
  cases heq

theorem Healthy.spawn : Healthy S (s.spawn env) := by
  have hget : ∀ {u : TaskId} {other}, (s.spawn env).tasks[u]? = some other →
      s.tasks[u]? = some other ∨ (u = s.tasks.length ∧ other = ⟨.starting, [], [], false⟩) := by
    intro u other hother
    simp only [Server.spawn, getElem?_append] at hother
    split at hother
    · exact Or.inl hother
    rename_i hge
    rcases Nat.eq_zero_or_pos (u - s.tasks.length) with h0 | hpos
    · rw [h0] at hother
      exact Or.inr ⟨Nat.le_antisymm (Nat.sub_eq_zero_iff_le.mp h0) (Nat.not_lt.mp hge),
        (Option.some.inj hother).symm⟩
    · rw [getElem?_eq_none hpos] at hother
      cases hother
  refine ⟨h.log, fun u other hother => ?_, fun hlive u other hother hnot hreach => ?_, h.notices⟩
  · rcases hget hother with hold | ⟨-, rfl⟩
    · exact h.away u other hold
    · exact fun habort => by cases habort
  rcases hget hother with hold | ⟨-, rfl⟩
  · refine h.safe hlive u other hold hnot ?_
    rw [reaches_iff] at hreach ⊢
    rcases hreach with hentry | hjoin
    · have hlt := (List.getElem?_eq_some_iff.mp hold).1
      rw [show u = s.tasks.length from (Option.some.inj hentry).symm] at hlt
      omega
    · exact Or.inr hjoin
  · rfl

theorem Healthy.lookupEntry {crowded : Bool}
    {vacant : Server env.engine → Server env.engine}
    (hv : ∀ s, Healthy S s → Healthy S (vacant s)) :
    Healthy S (s.lookupEntry env call join crowded vacant) := by
  unfold Server.lookupEntry
  split
  · rename_i u hfilter
    refine h.setJoin fun t ht => ?_
    have hentry := (Option.filter_eq_some_iff.mp hfilter).1
    rcases ht with ht | ht
    · rw [← JoinPhase.holding.inj ht]
      exact reaches_iff.mpr (Or.inl hentry)
    · cases ht
  · simp only
    split
    · exact h.noEntry.refuse (by simp)
    · exact hv _ h.noEntry

theorem Healthy.stepJoin {f : JoinCall → Server env.engine}
    (hf : ∀ join, s.joins[call]? = some join → Healthy S (f join)) :
    Healthy S (s.stepJoin env call f) := by
  unfold Server.stepJoin
  split
  · rename_i join hjoin
    exact hf join hjoin
  · exact h

theorem Healthy.stepTask {f : Task env.engine → Server env.engine}
    (hf : ∀ task, s.tasks[t]? = some task → Healthy S (f task)) : Healthy S (s.stepTask env t f) := by
  unfold Server.stepTask
  split
  · rename_i task htask
    exact hf task htask
  · exact h

end

/-! ## Every event -/

theorem settled_spec (h : s.settled = true) :
    (∀ (t : TaskId) task, s.tasks[t]? = some task → task.aborted = false → s.reaches t = true →
      task.ends = false) ∧ .deleted ∉ s.notices := by
  unfold settled at h
  obtain ⟨htasks, hnotices⟩ := (Bool.and_eq_true _ _).mp h
  refine ⟨fun t task htask hnot hreach => ?_, by simpa using hnotices⟩
  have hlt := (List.getElem?_eq_some_iff.mp htask).1
  have hexposed := all_eq_true.mp htasks t (mem_range.mpr hlt)
  unfold exposes at hexposed
  rw [htask] at hexposed
  simpa [hnot, hreach] using hexposed

theorem spared {p : Task env.engine → Bool} (h : (!(s.db.auth.live && s.exposes t p)) = true)
    (ht : s.tasks[t]? = some task) (hlive : s.db.auth.live = true) (hnot : task.aborted = false)
    (hreach : s.reaches t = true) : p task = false := by
  unfold exposes at h
  rw [ht] at h
  simpa [hlive, hnot, hreach] using h

section

variable (h : Healthy S s)
include h

theorem Healthy.alive {room : Room env.engine} {phase : Phase}
    (ht : s.tasks[t]? = some task) (hbody : task.body = .running room phase)
    (hlive : s.db.auth.live = true) (hnot : task.aborted = false) (hreach : s.reaches t = true) :
    room.dead = none ∧ .authority .deleted ∉ task.lane := by
  have hends := h.safe hlive t task ht hnot hreach
  simp only [Task.ends, hbody, Bool.or_eq_false_iff] at hends
  exact ⟨by simpa using hends.1, by simpa using hends.2⟩

theorem Healthy.awake (ht : s.tasks[t]? = some task) (hb : task.away = false) :
    task.aborted = false := by
  by_contra habort
  have haway := h.away t task ht (by simpa using habort)
  rw [hb] at haway
  cases haway

theorem Healthy.applyRoute
    (hc : s.recoverable env (.route route) = true) : Healthy S (s.applyRoute env route) := by
  unfold Server.applyRoute
  split
  · cases hok : route.apply s.db.auth with
    | error error => exact h
    | ok auth =>
      have hback : auth.live = true → (∀ (t : TaskId) task, s.tasks[t]? = some task →
          task.aborted = false → s.reaches t = true → task.ends = false) ∧ .deleted ∉ s.notices := by
        intro hlive
        rcases (route_live hok hlive).2 with hold | ⟨caller, rfl⟩
        · exact ⟨h.safe hold, h.notices hold⟩
        · exact settled_spec hc
      refine ⟨h.log, h.away, fun hlive => (hback hlive).1, fun hlive hmem => ?_⟩
      rcases mem_append.mp hmem with hmem | hmem
      · exact (hback hlive).2 hmem
      · exact (route_live hok hlive).1 hmem
  · exact h

theorem Healthy.admission (ticketId : TicketId) (secretMatches : Bool)
    (cookie : Option AuthenticatedSession) (now : Millis) :
    Healthy S (s.admission env ticketId secretMatches cookie now) := by
  unfold Server.admission
  split
  · cases hok : admitTicket s.db.auth ticketId secretMatches cookie now with
    | error error => exact h
    | ok result =>
      have hlive : result.1.live = s.db.auth.live :=
        live_of_document (by rw [admitTicket_document hok])
      refine ⟨h.log, h.away, ?_, ?_⟩
      · exact fun hl => h.safe (hlive ▸ hl)
      · exact fun hl => h.notices (hlive ▸ hl)
  · exact h

theorem Healthy.dispatchControl {control : Control}
    (hc : s.db.auth.live = true → control ≠ .deleted) : Healthy S (s.dispatchControl env control) := by
  unfold Server.dispatchControl
  split
  · exact h
  split
  · rename_i sent hsent
    have hs := h.sendControl (fun hlive heq => hc hlive (RoomControl.authority.inj heq)) hsent
    split
    · exact hs.noEntry
    · exact hs
  · exact h.evictTask

theorem Healthy.hydrate
    (hc : s.recoverable env (.hydrate t storage) = true) : Healthy S (s.hydrate env t storage) := by
  refine h.stepTask fun task ht => ?_
  split
  · rename_i hbody
    have hnot : task.aborted = false := h.awake ht (by simp [Task.away, hbody])
    have hno : ∀ body, ({ task with body } : Task env.engine).aborted = true → False := by
      intro body habort
      rw [show task.aborted = true from habort] at hnot
      cases hnot
    simp only
    split
    · refine h.milder ht (fun habort => (hno _ habort).elim) (fun hn => hn) fun hends => ?_
      simpa [Task.ends, hbody] using hends
    rename_i hfailed
    refine h.setTask (fun habort => (hno _ habort).elim) fun hlive _ hreach => ?_
    have hfine := spared hc ht hlive hnot hreach
    simp only [failsHydration, hbody, Bool.or_eq_false_iff, decide_eq_false_iff_not,
      ne_eq, Decidable.not_not, Option.isNone_eq_false_iff] at hfine
    rw [if_pos ⟨hfine.1, hlive⟩] at hfailed
    rw [hfailed] at hfine
    cases hfine.2
  · exact h

theorem Healthy.applyControl {room : Room env.engine} {phase phase' : Phase} {control : RoomControl}
    {lane : List RoomControl} (ht : s.tasks[t]? = some task)
    (hbody : task.body = .running room phase) (hlane : task.lane = control :: lane)
    (hnot : task.aborted = false)
    (hc : (!(s.db.auth.live && s.exposes t fun task => storage ≠ .ok && task.reauthorizes)) = true)
    (now : Millis) :
    Healthy S ({ s with db := (room.control env s.db storage now control).1 }.putRoom env t
      { task with lane } (room.control env s.db storage now control).2 phase') := by
  have hstore := h.store (control_auth room s.db storage now control)
  refine hstore.putRoom (fun habort => ?_) fun hlive _ hreach => ?_
  · rw [show task.aborted = true from habort] at hnot
    cases hnot
  have hl : s.db.auth.live = true := by
    rw [← control_auth room s.db storage now control]
    exact hlive
  obtain ⟨hdead, hdeleted⟩ := h.alive ht hbody hl hnot hreach
  rw [hlane, mem_cons, not_or] at hdeleted
  refine ⟨?_, hdeleted.2⟩
  rw [control_dead s.db now (fun heq => hdeleted.1 heq.symm) ?_]
  · exact hdead
  have hspared := spared hc ht hl hnot hreach
  by_cases hok : storage = .ok
  · exact Or.inl hok
  · refine Or.inr fun epoch heq => ?_
    simp [Task.reauthorizes, hlane, heq, hok] at hspared

theorem Healthy.control
    (hc : s.recoverable env (.control t storage now) = true) :
    Healthy S (s.control env t storage now) := by
  refine h.stepTask fun task ht => ?_
  split
  · rename_i room control lane hbody hlane
    exact h.applyControl ht hbody hlane (h.awake ht (by simp [Task.away, hbody])) hc now
  · exact h

theorem Healthy.process
    (hc : s.recoverable env (.process t storage now) = true) :
    Healthy S (s.process env t storage now) := by
  refine h.stepTask fun task ht => ?_
  split
  · rename_i room frames hbody
    have hnot : task.aborted = false := h.awake ht (by simp [Task.away, hbody])
    have hquiet : Healthy S (s.putRoom env t task room (.staging frames (room.startBatch env))) :=
      h.putRoom (fun _ => rfl) fun hlive hn hreach => h.alive ht hbody hlive hn hreach
    split
    · rename_i control lane hlane
      split
      · exact h.applyControl ht hbody hlane hnot hc now
      · exact hquiet
    · exact hquiet
  · exact h

end

variable {inbox : List RoomMsg}

section

variable (h : Healthy S s)
include h

theorem Healthy.receiveJoin {room : Room env.engine}
    (ht : s.tasks[t]? = some task) (hbody : task.body = .running room .idle)
    (hS : room.dead = none → S t) (call : Nat) (now : Millis) :
    Healthy S (s.receiveJoin env t { task with inbox } room call now) := by
  have hnot : task.aborted = false := h.awake ht (by simp [Task.away, hbody])
  have hset : Healthy S (s.setTask env t { task with inbox }) :=
    h.milder ht (h.away t task ht) (fun hn => hn) fun hends => hends
  unfold Server.receiveJoin
  split
  · rename_i join hjoin
    split
    · rename_i hphase
      have hreach : s.reaches t = true :=
        reaches_iff.mpr (Or.inr ⟨join, mem_of_getElem? hjoin, Or.inr hphase⟩)
      obtain ⟨hdead, hgone, -⟩ := join_dead join.actor join.clientVersion now
      have hput : Healthy S (s.putRoom env t { task with inbox }
          (room.join env join.actor join.clientVersion now).1 .idle) := by
        refine h.putRoom (fun habort => ?_) fun hlive _ _ => ?_
        · rw [show task.aborted = true from habort] at hnot
          cases hnot
        · obtain ⟨halive, hlane⟩ := h.alive ht hbody hlive hnot hreach
          exact ⟨hdead.trans halive, hlane⟩
      refine hput.answer fun hlive => ?_
      have halive := (h.alive ht hbody hlive hnot hreach).1
      have hresult := hgone halive
      cases hr : (room.join env join.actor join.clientVersion now).2 with
      | ok conn =>
        refine ⟨fun heq => absurd heq (by simp [Except.map]), fun u other heq => ?_⟩
        cases heq
        exact hS halive
      | error refusal =>
        rw [hr] at hresult
        refine ⟨fun heq => hresult (congrArg Except.error (Except.error.inj heq)), fun u other heq => ?_⟩
        exact absurd heq (by simp [Except.map])
    · exact hset
  · exact hset

theorem Healthy.receiveRunning {room : Room env.engine}
    (ht : s.tasks[t]? = some task) (hbody : task.body = .running room .idle)
    (hS : room.dead = none → S t) (storage : Storage) (now : Millis) :
    Healthy S (s.receiveRunning env t { task with inbox } room message storage now) := by
  have hset : Healthy S (s.setTask env t { task with inbox }) :=
    h.milder ht (h.away t task ht) (fun hn => hn) fun hends => hends
  have hnot : task.aborted = false := h.awake ht (by simp [Task.away, hbody])
  cases message with
  | join call => exact h.receiveJoin ht hbody hS call now
  | frame conn data =>
    refine h.putRoom (fun habort => ?_) fun hlive _ hreach => ?_
    · rw [show task.aborted = true from habort] at hnot
      cases hnot
    · obtain ⟨halive, hlane⟩ := h.alive ht hbody hlive hnot hreach
      exact ⟨halive, hlane⟩
  | read reader =>
    simp only [Server.receiveRunning]
    split
    · refine ⟨fun call result hmem => ?_, hset.away, hset.safe, hset.notices⟩
      rcases mem_append.mp hmem with hmem | hmem
      · exact h.log call result hmem
      · cases mem_singleton.mp hmem
    · exact hset
  | shutdown =>
    simp only [Server.receiveRunning]
    refine (h.store ?_).putRoomFinish (Or.inl rfl)
    split
    · exact compact_auth _ s.db storage
    · rfl

theorem Healthy.receiveRefusing
    (ht : s.tasks[t]? = some task) (hbody : task.body = .refusing) :
    Healthy S (s.receiveRefusing env t { task with inbox } message) := by
  have hset : Healthy S (s.setTask env t { task with inbox }) :=
    h.milder ht (h.away t task ht) (fun hn => hn) fun hends => hends
  have hnot : task.aborted = false := h.awake ht (by simp [Task.away, hbody])
  cases message with
  | join call =>
    refine hset.stepJoin fun join hjoin => ?_
    split
    · rename_i hphase
      refine hset.answer fun hlive => ?_
      have hreach : s.reaches t = true :=
        reaches_iff.mpr (Or.inr ⟨join, mem_of_getElem? hjoin, Or.inr hphase⟩)
      have hends := h.safe hlive t task ht hnot hreach
      exact absurd hends (by simp [Task.ends, hbody])
    · exact hset
  | frame conn data => exact hset
  | read reader => exact hset
  | shutdown => exact h.finishTask (Or.inl rfl)

theorem Healthy.receive (hS : ∀ t room, Runs s t room .idle → room.dead = none → S t)
    (storage : Storage) (now : Millis) : Healthy S (s.receive env t storage now) := by
  refine h.stepTask fun task ht => ?_
  split
  · rename_i room message inbox hbody hinbox
    split
    · exact h.receiveRunning ht hbody (hS t room ⟨task, ht, hbody⟩) storage now
    · exact h
  · rename_i message inbox hbody hinbox
    exact h.receiveRefusing ht hbody
  · exact h

theorem Healthy.collect : Healthy S (s.collect env t) := by
  refine h.stepTask fun task ht => ?_
  split
  · rename_i room frames conn data inbox hbody hinbox
    have hnot : task.aborted = false := h.awake ht (by simp [Task.away, hbody])
    split
    · refine h.putRoom (fun habort => ?_) fun hlive _ hreach => ?_
      · rw [show task.aborted = true from habort] at hnot
        cases hnot
      · obtain ⟨halive, hlane⟩ := h.alive ht hbody hlive hnot hreach
        exact ⟨halive, hlane⟩
    · exact h
  · exact h

theorem Healthy.stage
    (hc : s.recoverable env (.stage t storage now) = true) : Healthy S (s.stage env t storage now) := by
  refine h.stepTask fun task ht => ?_
  split
  · rename_i room conn data frames batch hbody
    refine h.putRoom (fun _ => rfl) fun hlive hnot hreach => ?_
    have hfine := spared hc ht hlive hnot hreach
    simp only [failsFrame, hbody] at hfine
    exact ⟨by simpa using hfine, (h.alive ht hbody hlive hnot hreach).2⟩
  · exact h

theorem Healthy.commit
    (hr : ∀ room frames batch, Runs s t room (.staging frames batch) → QuietRelays batch)
    (hc : s.recoverable env (.commit t storage now) = true) :
    Healthy S (s.commit env t storage now) := by
  refine h.stepTask fun task ht => ?_
  split
  · rename_i room batch hbody
    have hauth := finish_auth (finishFrames_step room s.db storage now batch
      (hr room [] batch ⟨task, ht, hbody⟩))
    have hstore := h.store hauth
    simp only
    split
    · exact hstore.putRoomFinish (Or.inr rfl)
    rename_i habort
    refine hstore.putRoom (fun hab => absurd hab habort) fun hlive hnot hreach => ?_
    have hl : s.db.auth.live = true := by
      rw [← hauth]
      exact hlive
    have hfine := spared hc ht hl hnot hreach
    simp only [failsCommit, hbody] at hfine
    exact ⟨by simpa using hfine, (h.alive ht hbody hl hnot hreach).2⟩
  · exact h

theorem Healthy.idle (storage : Storage) : Healthy S (s.idle env t storage) := by
  refine h.stepTask fun task ht => ?_
  split
  · split
    · exact (h.store (compact_auth _ s.db storage)).finishTask (Or.inl rfl)
    · exact h
  · exact h

theorem Healthy.cleanup : Healthy S (s.cleanup env t) := by
  refine h.stepTask fun task ht => ?_
  split
  · rename_i hbody
    have hgone : Healthy S (s.setTask env t { task with body := .gone }) := by
      refine h.milder ht (fun _ => rfl) (fun hn => hn) fun hends => ?_
      simpa [Task.ends, hbody] using hends
    refine hgone.fewer rfl rfl rfl (fun _ hx => hx) fun u hreach => ?_
    rw [reaches_iff] at hreach ⊢
    rcases hreach with hentry | hjoin
    · by_cases he : s.entry = some t
      · simp only [if_pos he] at hentry
        cases hentry
      · simp only [if_neg he] at hentry
        exact Or.inl hentry
    · exact Or.inr hjoin
  · exact h

theorem Healthy.shutdown : Healthy S (s.shutdown env) := by
  unfold Server.shutdown
  split
  · exact h
  simp only
  split
  · rename_i sent hsent
    exact h.noEntry.sendMessage hsent
  · exact h.noEntry.abortTask

theorem Healthy.crash : Healthy S (s.crash env) := by
  have hgone : ∀ (t : TaskId) task, (s.crash env).tasks[t]? = some task → task = ⟨.gone, [], [], true⟩ := by
    intro t task htask
    simp only [Server.crash, getElem?_map] at htask
    obtain ⟨old, -, hold⟩ := Option.map_eq_some_iff.mp htask
    exact hold.symm
  refine ⟨h.log, fun t task htask _ => ?_, fun _ t task htask _ _ => ?_, fun _ => not_mem_nil⟩
  · rw [hgone t task htask]
    rfl
  · rw [hgone t task htask]
    rfl

theorem Healthy.step (ht : Tidy s) {e : Event} (hc : s.recoverable env e = true)
    (hS : ∀ t room, Runs s t room .idle → room.dead = none → S t) : Healthy S (s.step env e) := by
  cases e with
  | authenticate sessionId now =>
    simp only [Server.step]
    split
    · exact h.same rfl rfl rfl rfl rfl rfl
    · exact h
  | authenticateScratch scratchId now =>
    simp only [Server.step]
    split
    · exact h.same rfl rfl rfl rfl rfl rfl
    · exact h
  | route route => exact h.applyRoute hc
  | admission ticketId secretMatches cookie now => exact h.admission _ _ _ now
  | dispatch notice =>
    simp only [Server.step]
    split
    · rename_i control hcontrol
      have herased : Healthy S { s with notices := s.notices.eraseIdx notice } :=
        h.fewer rfl rfl rfl (eraseIdx_sublist _ _).subset fun _ hr => hr
      refine herased.dispatchControl fun hlive heq => h.notices hlive ?_
      rw [← heq]
      exact mem_of_getElem? hcontrol
    · exact h
  | lose notice =>
    exact h.fewer rfl rfl rfl (eraseIdx_sublist _ _).subset fun _ hr => hr
  | join actor clientVersion =>
    simp only [Server.step]
    split
    · refine h.fewer rfl rfl rfl (fun _ hx => hx) fun t hreach => ?_
      rw [reaches_iff] at hreach ⊢
      rcases hreach with hentry | ⟨join, hmem, hphase⟩
      · exact Or.inl hentry
      rcases mem_append.mp hmem with hmem | hmem
      · exact Or.inr ⟨join, hmem, hphase⟩
      · rw [mem_singleton.mp hmem] at hphase
        rcases hphase with hphase | hphase <;> cases hphase
    · exact h
  | joinLookup call crowded =>
    refine h.stepJoin fun join hjoin => ?_
    split
    · exact h.lookupEntry fun s hs => hs.setJoin fun t ht => by rcases ht with ht | ht <;> simp at ht
    · exact h
  | joinCheck call storage =>
    refine h.stepJoin fun join hjoin => ?_
    split
    · exact h
    split
    · exact h.refuse (by simp)
    split
    · exact h.setJoin fun t ht => by rcases ht with ht | ht <;> simp at ht
    · rename_i hdead
      exact h.answer fun hlive => absurd hlive hdead
  | joinInsert call crowded =>
    refine h.stepJoin fun join hjoin => ?_
    split
    · refine h.lookupEntry fun s hs => hs.spawn.setJoin fun t ht => ?_
      rcases ht with ht | ht
      · rw [← JoinPhase.holding.inj ht]
        exact reaches_iff.mpr (Or.inl rfl)
      · cases ht
    · exact h
  | joinSend call =>
    refine h.stepJoin fun join hjoin => ?_
    split
    · rename_i u hphase
      have hreach : s.reaches u = true :=
        reaches_iff.mpr (Or.inr ⟨join, mem_of_getElem? hjoin, Or.inl hphase⟩)
      split
      · rename_i sent hsent
        refine (h.sendMessage hsent).setJoin fun v hv => ?_
        rcases hv with hv | hv
        · cases hv
        · rw [← JoinPhase.waiting.inj hv]
          exact sendMessage_reaches hsent hreach
      · split <;> exact h.refuse (by simp)
    · exact h
  | joinTimeout call =>
    refine h.stepJoin fun join hjoin => ?_
    split
    · exact h.refuse (by simp)
    · exact h
  | joinDropped call =>
    refine h.stepJoin fun join hjoin => ?_
    split
    · split
      · exact h.refuse (by simp)
      · exact h
    · exact h
  | frame t conn data =>
    simp only [Server.step]
    cases hs : s.sendMessage env t (.frame conn data) with
    | none => exact h
    | some sent => exact h.sendMessage hs
  | read reader =>
    simp only [Server.step]
    split
    · rename_i sent hsent
      obtain ⟨t, -, hs⟩ := Option.bind_eq_some_iff.mp hsent
      exact (h.sendMessage hs).same rfl rfl rfl rfl rfl rfl
    · exact h
  | readTimeout reader => exact h.same rfl rfl rfl rfl rfl rfl
  | leave t conn =>
    simp only [Server.step]
    split
    · cases hs : s.sendControl env t (.leave conn) with
      | none => exact h.evictTask
      | some sent => exact h.sendControl (fun _ => by simp) hs
    · exact h
  | evict t => exact h.evictTask
  | abandon t =>
    refine h.stepTask fun task ht => ?_
    split
    · exact h.abort ht
    · exact h
  | hydrate t storage => exact h.hydrate hc
  | control t storage now => exact h.control hc
  | receive t storage now => exact h.receive hS storage now
  | collect t => exact h.collect
  | process t storage now => exact h.process hc
  | stage t storage now => exact h.stage hc
  | commit t storage now => exact h.commit (ht.relays t) hc
  | idle t storage => exact h.idle storage
  | cleanup t => exact h.cleanup
  | shutdown => exact h.shutdown
  | crash => exact h.crash

end

end Server

namespace Server

variable {env : Env} {db : Database}

/-- An event of the run gave task `t` the replica that the store then hydrated to. -/
def Rehydrated (env : Env) (db : Database) (events : List Event) (t : TaskId) : Prop :=
  ∃ before storage rest room, events = before ++ .hydrate t storage :: rest ∧
    Runs (after env db (before ++ [.hydrate t storage])) t room .idle ∧
    hydrateDocument env.engine (after env db before).db.store = some (room.document, room.revision)

/-- At some moment of the run task `t` waits for messages with a room that is not dead, and it was
rehydrated before. -/
def Reached (env : Env) (db : Database) (events : List Event) (t : TaskId) : Prop :=
  ∃ before rest room, events = before ++ rest ∧ Runs (after env db before) t room .idle ∧
    room.dead = none ∧ Rehydrated env db before t

theorem after_snoc (events : List Event) (e : Event) :
    after env db (events ++ [e]) = (after env db events).step env e := Transition.run_snoc _ events e

theorem tidy_after (events : List Event) : Tidy (after env db events) := by
  induction events using List.reverseRecOn with
  | nil =>
    have hnone : ∀ t room phase, ¬ Runs (init env db) t room phase := by
      intro t room phase ⟨task, htask, _⟩
      cases htask
    exact ⟨fun t room phase hr => absurd hr (hnone t room phase),
      fun t room frames batch hr => absurd hr (hnone t room _)⟩
  | append_singleton events e ih =>
    rw [after_snoc]
    exact ih.effect (step_effect ih e)

theorem Rehydrated.later {events : List Event} {t : TaskId} (h : Rehydrated env db events t)
    (more : List Event) : Rehydrated env db (events ++ more) t := by
  obtain ⟨before, storage, rest, room, rfl, hruns, hydrates⟩ := h
  exact ⟨before, storage, rest ++ more, room, by rw [append_assoc, cons_append], hruns, hydrates⟩

theorem rehydrated_of_runs (events : List Event) {t : TaskId} {room : Room env.engine} {phase : Phase}
    (h : Runs (after env db events) t room phase) : Rehydrated env db events t := by
  induction events using List.reverseRecOn generalizing t room phase with
  | nil =>
    obtain ⟨task, htask, -⟩ := h
    exact absurd htask (by simp [after, init])
  | append_singleton events e ih =>
    have htidy : Tidy (after env db events) := tidy_after events
    have heffect := step_effect htidy e
    rw [← after_snoc] at heffect
    generalize hnext : after env db (events ++ [e]) = next at h heffect
    cases heffect with
    | aside aside reads => exact (ih (aside.runs t room phase h)).later [e]
    | worked u before step hdb log runs =>
      rcases runs t room phase h with ⟨rfl, -, -⟩ | ⟨-, hold⟩
      · exact (ih before).later [e]
      · exact (ih hold).later [e]
    | @hydrated u fresh cause store log hydrates isFresh runs =>
      obtain ⟨storage, rfl⟩ := cause
      rcases runs t room phase h with ⟨rfl, rfl, rfl⟩ | ⟨-, hold⟩
      · refine ⟨events, storage, [], room, rfl, ?_, hydrates⟩
        rw [hnext]
        exact h
      · exact (ih hold).later _

theorem Healthy.mono {S S' : TaskId → Prop} {s : Server env.engine} (h : Healthy S s)
    (hS : ∀ t, S t → S' t) : Healthy S' s where
  log := by
    intro call result hmem
    obtain ⟨hgone, hreached⟩ := h.log call result hmem
    exact ⟨hgone, fun t conn heq => hS t (hreached t conn heq)⟩
  away := h.away
  safe := h.safe
  notices := h.notices

theorem healthy_after (events : List Event)
    (hcond : Transition.Along (fun s e => Server.step env s e)
      (fun s e => s.recoverable env e = true) (init env db) events) :
    Healthy (Reached env db events) (after env db events) := by
  induction events using List.reverseRecOn with
  | nil =>
    refine ⟨fun call result hmem => absurd hmem not_mem_nil, fun t task ht => ?_,
      fun _ t task ht => ?_, fun _ => not_mem_nil⟩ <;> exact absurd ht (by simp [after, init])
  | append_singleton events e ih =>
    obtain ⟨hbefore, hlast⟩ := Transition.along_append.mp hcond
    have hgrown : Healthy (Reached env db (events ++ [e])) (after env db events) := by
      refine (ih hbefore).mono ?_
      rintro t ⟨before, rest, room, heq, hrest⟩
      exact ⟨before, rest ++ [e], room, by rw [heq, append_assoc], hrest⟩
    rw [after_snoc]
    refine hgrown.step (tidy_after events) hlast.1 fun t room hruns hdead => ?_
    exact ⟨events, [e], room, rfl, hruns, hdead, rehydrated_of_runs events hruns⟩

end Server

/-- **Joins of a live document recover**, for every run in which no room that a join can reach dies or
fails to hydrate while the document is live, and no deletion is undone before it is through. -/
theorem live_joins_recover (env : Env) (db : Database) (events : List Event)
    (hcond : Transition.Along (fun s e => Server.step env s e)
      (fun s e => s.recoverable env e = true) (Server.init env db) events)
    (call : Nat) (result : Except JoinRefusal (TaskId × ConnId))
    (hanswered : .answered call result true ∈ (Server.after env db events).log) :
    result ≠ .error .gone ∧
      ∀ t conn, result = .ok (t, conn) → Server.Reached env db events t :=
  (Server.healthy_after events hcond).log call result hanswered

def deletedRestored : List Event :=
  asking 1 0 ++ opening 0 0 ++ staging 0 1 [updateFrame 1 2 0 97] ++ [.commit 0 .ok 0,
    .route (.delete (.principal ownerSession) 1), .dispatch 0, .control 0 .ok 1,
    .route (.restore (.principal ownerSession))] ++ asking 2 1 ++ opening 1 1

theorem restored_join_recovers : (.ok (1, 1) : Except JoinRefusal (TaskId × ConnId)) ≠ .error .gone ∧
    ∀ t conn, (.ok (1, 1) : Except JoinRefusal (TaskId × ConnId)) = .ok (t, conn) →
      Server.Reached (smallEnv 4) ownedDocument deletedRestored t :=
  live_joins_recover (smallEnv 4) ownedDocument deletedRestored (by decide +kernel) 1 (.ok (1, 1))
    (by decide +kernel)

def failedCommit : List Event :=
  asking 1 0 ++ opening 0 0 ++ staging 0 1 [updateFrame 1 2 0 97] ++ [.commit 0 .failed 0] ++
    asking 2 1 ++ [.joinSend 1, .receive 0 .ok 0]

/-- The dead room is still in the registry, and the join of the live document is refused as gone. -/
theorem failed_commit_refuses_join : Created ownedDocument ∧
    .answered 1 (.error .gone) true ∈ (Server.after (smallEnv 4) ownedDocument failedCommit).log :=
  ⟨ownedDocument_created, by decide +kernel⟩

end Marks
