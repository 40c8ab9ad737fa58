import Mathlib.Data.List.Forall2
import Marks.AgentHubSound
import Marks.Lists

/-! # The limits of the hub

A permit is free, held by a request until its transaction, or held for a run until its task ends. No session has
more unfinished rows than it may, and no two rows of a session share a request. -/

namespace Marks.Agent

open List

def Creation.holdsPermit (creation : Creation) : Bool :=
  match creation.stage with
  | .acquired => true
  | _ => false

namespace AgentRun

def holdsPermit (run : AgentRun) : Bool := run.state.task != .ended

def activeOf (sessionId : SessionId) (run : AgentRun) : Bool :=
  run.stored && run.sessionId == sessionId && !run.state.stored.status.isTerminal

/-- A run goes on as the run it was, and neither its row nor its row's status comes back. -/
structure Onward (run later : AgentRun) : Prop where
  session : later.sessionId = run.sessionId
  request : later.requestId = run.requestId
  stored : later.stored = true → run.stored = true
  status : run.state.stored.status.isTerminal = true → later.state.stored.status.isTerminal = true
  journal : Journal later.state

end AgentRun

/-! ## Tasks that have ended -/

section
variable {digest : ToolResultBody → List UInt8} {run : RunState}

theorem settle_task {status : RunStatus} {code : Option Text} {usage : AgentUsage} :
    (run.settle status code usage).task = run.task := by
  unfold RunState.settle RunState.finalize
  grind

theorem step_task (h : run.task = .ended) (event : RunEvent) : (run.step digest event).task = .ended := by
  cases event with
  | spawn | start | finish => simp [RunState.step, RunState.spawn, RunState.start, RunState.finish, h]
  | emitText text => exact carries_emitText.task.trans h
  | emitNext i => exact carries_emitNext.task.trans h
  | callTool call => exact carries_callTool.task.trans h
  | callNext i => exact carries_callNext.task.trans h
  | callLeave i => exact carries_callLeave.task.trans h
  | submit body => exact carries_submitToolResult.task.trans h
  | lookup i => exact carries_lookup.task.trans h
  | cancelRequest => exact carries_cancelRequest.task.trans h
  | cancelFinalize =>
    simp only [RunState.step, RunState.cancelFinalize]
    split
    · exact h
    · exact settle_task.trans h

end

namespace AgentHub

structure Within (config : HubConfig) (hub : AgentHub) : Prop where
  permits : hub.permits + hub.creations.countP Creation.holdsPermit + hub.runs.countP AgentRun.holdsPermit =
    config.maxConcurrentRuns
  sessions : ∀ sessionId, hub.activeRuns sessionId ≤ config.maxConcurrentRunsPerSession
  requests : ((hub.runs.filter (·.stored)).map fun run => (run.sessionId, run.requestId)).Nodup
  journals : ∀ run ∈ hub.runs, Journal run.state

section
variable {config : HubConfig} {hub later : AgentHub} {i r : Nat} {creation : Creation} {run : AgentRun}

/-! ## Steps -/

theorem sublist_onward {β : Type} {p : AgentRun → Bool} {key : AgentRun → β} {runs runs' : List AgentRun}
    (h : Forall₂ AgentRun.Onward runs runs')
    (hp : ∀ run later : AgentRun, run.Onward later → p later = true → p run = true)
    (hkey : ∀ run later : AgentRun, run.Onward later → key later = key run) :
    ((runs'.filter p).map key).Sublist ((runs.filter p).map key) := by
  induction h with
  | nil => exact Sublist.refl _
  | @cons run later runs runs' hon _ ih =>
    by_cases hlater : p later = true
    · rw [filter_cons_of_pos hlater, filter_cons_of_pos (hp run later hon hlater), map_cons, map_cons,
        hkey run later hon]
      exact ih.cons_cons _
    rw [filter_cons_of_neg hlater]
    by_cases hrun : p run = true
    · rw [filter_cons_of_pos hrun, map_cons]
      exact ih.cons _
    · rw [filter_cons_of_neg hrun]
      exact ih

section
variable (h : Within config hub)
include h

theorem Within.onward (hruns : Forall₂ AgentRun.Onward hub.runs later.runs)
    (hpermits : later.permits + later.creations.countP Creation.holdsPermit + later.runs.countP AgentRun.holdsPermit =
      hub.permits + hub.creations.countP Creation.holdsPermit + hub.runs.countP AgentRun.holdsPermit) :
    Within config later where
  permits := hpermits.trans h.permits
  sessions sessionId := by
    have hactive : ∀ run later : AgentRun, run.Onward later → later.activeOf sessionId = true →
        run.activeOf sessionId = true := by
      intro run later hon
      have hstored := hon.stored
      have hstatus := hon.status
      unfold AgentRun.activeOf
      rw [hon.session]
      grind
    have hsub : ((later.runs.filter (AgentRun.activeOf sessionId)).map fun _ => ()).Sublist
        ((hub.runs.filter (AgentRun.activeOf sessionId)).map fun _ => ()) :=
      sublist_onward hruns hactive fun _ _ _ => rfl
    have hle := hsub.length_le
    rw [length_map, length_map, ← countP_eq_length_filter, ← countP_eq_length_filter] at hle
    exact Nat.le_trans hle (h.sessions sessionId)
  requests := by
    refine (sublist_onward hruns (fun run later hon => hon.stored) fun run later hon => ?_).nodup h.requests
    rw [hon.session, hon.request]
  journals run hrun := by
    obtain ⟨r, hr, rfl⟩ := mem_iff_getElem.mp hrun
    obtain ⟨hlength, hon⟩ := forall₂_iff_get.mp hruns
    exact (hon r (hlength ▸ hr) hr).journal

theorem Within.onward_refl (hrun : run ∈ hub.runs) : run.Onward run := ⟨rfl, rfl, id, id, h.journals run hrun⟩

theorem Within.same (hruns : later.runs = hub.runs)
    (hpermits : later.permits + later.creations.countP Creation.holdsPermit =
      hub.permits + hub.creations.countP Creation.holdsPermit) : Within config later := by
  refine h.onward ?_ (by rw [hpermits, hruns])
  rw [hruns]
  exact forall₂_same.mpr fun run hrun => h.onward_refl hrun

theorem Within.setCreation {stage : CreateStage} (hi : hub.creations[i]? = some creation)
    (hruns : later.runs = hub.runs) (hcreations : later.creations = hub.creations.set i { creation with stage })
    (hpermits : later.permits + (if Creation.holdsPermit { creation with stage } then 1 else 0) =
      hub.permits + if creation.holdsPermit then 1 else 0) : Within config later := by
  have hset := Lists.countP_set (p := Creation.holdsPermit) hi { creation with stage }
  refine h.same hruns ?_
  rw [hcreations]
  omega

theorem Within.setRun {run' : AgentRun} (hrun : hub.runs[r]? = some run) (hon : run.Onward run')
    (hruns : later.runs = hub.runs.set r run') (hcreations : later.creations = hub.creations)
    (hpermits : later.permits + (if run'.holdsPermit then 1 else 0) =
      hub.permits + if run.holdsPermit then 1 else 0) : Within config later := by
  have hset := Lists.countP_set (p := AgentRun.holdsPermit) hrun run'
  refine h.onward ?_ ?_
  · rw [hruns, forall₂_iff_get]
    refine ⟨length_set.symm, fun j hj hj' => ?_⟩
    have hrefl := h.onward_refl (getElem_mem hj)
    simp only [get_eq_getElem]
    grind
  · rw [hruns, hcreations]
    omega

theorem Within.loadOwnedRun {sessionId : SessionId} (hloaded : hub.loadOwnedRun sessionId r = .ok later) :
    Within config later ∧ later.creations = hub.creations := by
  unfold AgentHub.loadOwnedRun at hloaded
  split at hloaded
  · cases hloaded
  rename_i run hrun
  have hon : run.Onward { run with loaded := true } := ⟨rfl, rfl, id, id, h.journals run (mem_of_getElem? hrun)⟩
  have hset : Within config (hub.setRun r { run with loaded := true }) := h.setRun hrun hon rfl rfl rfl
  grind [AgentHub.setRun]

theorem Within.transact {digest : CreateRunBody → List UInt8} {now : Millis} :
    Within config (hub.transact config digest i now) := by
  unfold AgentHub.transact
  split
  · rename_i session body hi
    split
    · rename_i r _
      refine h.setCreation hi rfl rfl ?_
      split <;> rfl
    rename_i hnone
    split
    · exact h.setCreation hi rfl rfl rfl
    rename_i hroom
    rw [not_or, Nat.not_le] at hroom
    have hset : (hub.creations.set i ⟨session, body, .created hub.runs.length⟩).countP Creation.holdsPermit + 1 =
        hub.creations.countP Creation.holdsPermit := Lists.countP_set hi _
    have hruns : (hub.runs ++ [hub.newRun config digest session body now]).countP AgentRun.holdsPermit =
        hub.runs.countP AgentRun.holdsPermit + 1 := countP_append
    refine ⟨?_, fun sessionId => ?_, ?_, ?_⟩
    · rw [← h.permits]
      simp only [AgentHub.setCreation]
      omega
    · show (hub.runs ++ [hub.newRun config digest session body now]).countP (AgentRun.activeOf sessionId) ≤ _
      rw [countP_append, countP_singleton]
      have hactive : hub.runs.countP (AgentRun.activeOf sessionId) ≤ config.maxConcurrentRunsPerSession :=
        h.sessions sessionId
      split
      · rename_i hnew
        have hsession : session.id = sessionId := by grind [AgentRun.activeOf, AgentHub.newRun]
        exact Nat.succ_le_of_lt (hsession ▸ hroom.1)
      · exact hactive
    · show (((hub.runs ++ [hub.newRun config digest session body now]).filter _).map _).Nodup
      rw [filter_append, map_append, nodup_append']
      refine ⟨h.requests, nodup_singleton _, fun request hold hnew => ?_⟩
      cases mem_singleton.mp hnew
      obtain ⟨run, hrun, hrequest⟩ := mem_map.mp hold
      obtain ⟨hmem, hstored⟩ := mem_filter.mp hrun
      have hother := findIdx?_eq_none_iff.mp hnone run hmem
      obtain ⟨hsession, hid⟩ : run.sessionId = session.id ∧ run.requestId = body.requestId := Prod.mk.inj hrequest
      grind
    · intro run hrun
      rcases mem_append.mp hrun with hrun | hrun
      · exact h.journals run hrun
      · cases mem_singleton.mp hrun
        exact journal_new _ _ _ _
  · exact h

theorem Within.onRun {digest : ToolResultBody → List UInt8} {event : RunEvent} :
    Within config (hub.onRun digest r event) := by
  unfold AgentHub.onRun
  split
  · exact h
  rename_i run hrun
  have hj := h.journals run (mem_of_getElem? hrun)
  have hstatus : run.state.stored.status.isTerminal = true →
      (run.state.step digest event).stored.status.isTerminal = true := by
    rw [hj.stored.1, (hj.step event).stored.1]
    exact fun hended => step_ended hended event
  have hon : run.Onward { run with state := run.state.step digest event } :=
    ⟨rfl, rfl, id, hstatus, hj.step event⟩
  split
  · exact h
  dsimp only
  split
  · rename_i hends
    refine h.setRun hrun hon rfl rfl ?_
    simp [AgentRun.holdsPermit, release, AgentHub.setRun, hends.1, hends.2]
  · refine h.setRun hrun hon rfl rfl ?_
    have htask : run.state.task = .ended → (run.state.step digest event).task = .ended := (step_task · event)
    grind [AgentRun.holdsPermit, AgentHub.setRun]

theorem Within.sweep {f : AgentRun → AgentRun} (hf : ∀ run : AgentRun, Journal run.state → run.Onward (f run))
    (hstate : ∀ run, (f run).state = run.state) : Within config { hub with runs := hub.runs.map f } := by
  refine h.onward (forall₂_map_right_iff.mpr (forall₂_same.mpr fun run hrun => hf run (h.journals run hrun))) ?_
  have hcount : (hub.runs.map f).countP AgentRun.holdsPermit = hub.runs.countP AgentRun.holdsPermit := by
    rw [countP_map]
    congr 1
    funext run
    simp [AgentRun.holdsPermit, hstate]
  rw [hcount]

/-! ## Runs -/

theorem Within.step {digest : CreateRunBody → List UInt8} {resultDigest : ToolResultBody → List UInt8}
    (event : HubEvent) : Within config (hub.step config digest resultDigest event) := by
  cases event with
  | create sessionId body now =>
    simp only [AgentHub.step, create]
    split
    · exact h.same rfl (by rw [countP_append]; rfl)
    · exact h
  | permit i refusal =>
    simp only [AgentHub.step, permit]
    split
    · rename_i hi
      refine h.setCreation hi rfl rfl ?_
      cases refusal <;> rfl
    · exact h
  | lookup i =>
    simp only [AgentHub.step, lookup]
    split
    · rename_i hi
      refine h.setCreation hi rfl rfl ?_
      split
      · rfl
      · split
        · rfl
        · split <;> rfl
    · exact h
  | acquire i =>
    simp only [AgentHub.step, acquire]
    split
    · rename_i hi
      split
      · exact h.setCreation hi rfl rfl rfl
      · rename_i hfree
        exact h.setCreation hi rfl rfl (Nat.sub_add_cancel (Nat.pos_of_ne_zero hfree))
    · exact h
  | transact i now => exact h.transact
  | launch i =>
    simp only [AgentHub.step, launch]
    split
    · rename_i r hi
      split
      · rename_i run hrun
        have hon : run.Onward { run with loaded := true, launched := true } :=
          ⟨rfl, rfl, id, id, h.journals run (mem_of_getElem? hrun)⟩
        have hlaunched : Within config (hub.setRun r { run with loaded := true, launched := true }) :=
          h.setRun hrun hon rfl rfl rfl
        exact hlaunched.setCreation hi rfl rfl rfl
      · exact h
    · exact h
  | replay i =>
    simp only [AgentHub.step, replay]
    split
    · rename_i hi
      split
      · rename_i loaded hloaded
        obtain ⟨hwithin, hcreations⟩ := h.loadOwnedRun hloaded
        exact hwithin.setCreation (hcreations ▸ hi) rfl rfl rfl
      · exact h.setCreation hi rfl rfl rfl
    · exact h
  | revoke i now =>
    simp only [AgentHub.step, revoke]
    split
    · exact h.same rfl rfl
    · split <;> exact h.same rfl rfl
    · exact h
  | revokeRequest | collect | answer | login =>
    simp only [AgentHub.step, revokeRequest, collect, answer]
    split
    · exact h.same rfl rfl
    · exact h
  | cancelToken i =>
    simp only [AgentHub.step, cancelToken]
    split
    · split
      · rename_i run hrun
        have hj := h.journals run (mem_of_getElem? hrun)
        have hon : run.Onward { run with state := { run.state with cancel := true } } :=
          ⟨rfl, rfl, id, id, hj.congr rfl rfl rfl⟩
        exact h.setRun hrun hon rfl rfl rfl
      · exact h
    · exact h
  | cancelFinalize i =>
    simp only [AgentHub.step, cancelFinalize]
    split
    · split
      · rename_i run hrun
        have hj := h.journals run (mem_of_getElem? hrun)
        have hsettled : Journal (run.state.settle .cancelled none .default) := hj.settle
        have hon : run.Onward { run with state := run.state.settle .cancelled none .default } := by
          refine ⟨rfl, rfl, id, ?_, hsettled⟩
          rw [hj.stored.1, hsettled.stored.1]
          exact fun hended => settle_ended hended
        refine h.setRun hrun hon rfl rfl ?_
        simp [AgentRun.holdsPermit, AgentHub.setRun, AgentHub.setRevocation, settle_task]
      · exact h
    · exact h
  | run r event => exact h.onRun
  | load sessionId r =>
    simp only [AgentHub.step, load]
    split
    · rename_i hloaded
      exact (h.loadOwnedRun hloaded).1
    · exact h
  | sweepRuns now =>
    refine h.sweep (fun run hj => ?_) fun run => by split <;> rfl
    split <;> exact ⟨rfl, rfl, id, id, hj⟩
  | sweepRows now =>
    refine h.sweep (fun run hj => ?_) fun run => by split <;> rfl
    split
    · exact ⟨rfl, rfl, fun hstored => (by cases hstored), id, hj⟩
    · exact ⟨rfl, rfl, id, id, hj⟩
  | rotate | tables => exact h.same rfl rfl

end

theorem init_within (auth : AuthorityTables) : Within config (init config auth) where
  permits := rfl
  sessions _ := Nat.zero_le _
  requests := nodup_nil
  journals _ hrun := nomatch hrun

/-- Whatever requests, runs, revocations and sweeps come, every permit is accounted for, and the limits of runs
and of sessions hold in every state reached. -/
theorem hub_within_limits (config : HubConfig) (digest : CreateRunBody → List UInt8)
    (resultDigest : ToolResultBody → List UInt8) (auth : AuthorityTables) (events : List HubEvent) :
    Within config (after config digest resultDigest auth events) :=
  Transition.run_inv (C := fun _ _ => True) (I := Within config) (fun _ event h _ => h.step event)
    (init_within auth) (Transition.along_of fun _ _ => trivial)

end

end AgentHub

end Marks.Agent
