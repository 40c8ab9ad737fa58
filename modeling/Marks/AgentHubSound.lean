import Mathlib.Data.List.Nodup
import Marks.AgentHub
import Marks.AgentSound

/-! # Revocation and hosted runs

A revocation cancels the runs it finds in the hub's map. A run whose request passed the guard before the revocation
and that enters the map behind the collection is not among them; nor does a run end whose journal has no room for
the event of its cancellation. Where neither happens, no run of a revoked session is left. -/

namespace Marks

open List

/-! ## Sessions -/

variable {now : Millis}

section
variable {auth auth' : AuthorityTables} {s : SessionId}

def AuthorityTables.Revoked (auth : AuthorityTables) (s : SessionId) : Prop :=
  ∃ row, auth.loadSession s = some row ∧ row.revokedAtMs ≠ none

structure SessionsLater (auth auth' : AuthorityTables) : Prop where
  rows : ∀ s row, auth.loadSession s = some row →
    ∃ row', auth'.loadSession s = some row' ∧ (row.revokedAtMs ≠ none → row'.revokedAtMs ≠ none)
  once : (auth.sessions.map (·.id)).Nodup → (auth'.sessions.map (·.id)).Nodup

theorem loadSession_row {row : SessionRecord} (h : auth.loadSession s = some row) : row.id = s ∧ row ∈ auth.sessions :=
  ⟨by simpa using find?_some h, mem_of_find?_eq_some h⟩

theorem sessionsLater_of_eq (h : auth'.sessions = auth.sessions) : SessionsLater auth auth' := by
  refine ⟨fun s row hrow => ⟨row, ?_, id⟩, fun honce => h ▸ honce⟩
  unfold AuthorityTables.loadSession at hrow ⊢
  rw [h]
  exact hrow

theorem loadSession_of_map {f : SessionRecord → SessionRecord} (h : auth'.sessions = auth.sessions.map f)
    (hid : ∀ row, (f row).id = row.id) : auth'.loadSession s = (auth.loadSession s).map f := by
  have hsame : ((fun row : SessionRecord => row.id == s) ∘ f) = fun row => row.id == s :=
    funext fun row => by simp only [Function.comp, hid]
  unfold AuthorityTables.loadSession
  rw [h, find?_map, hsame]

theorem sessionsLater_map {f : SessionRecord → SessionRecord} (h : auth'.sessions = auth.sessions.map f)
    (hid : ∀ row, (f row).id = row.id) (hrevoked : ∀ row, row.revokedAtMs ≠ none → (f row).revokedAtMs ≠ none) :
    SessionsLater auth auth' := by
  constructor
  · intro s row hrow
    refine ⟨f row, ?_, hrevoked row⟩
    rw [loadSession_of_map h hid, hrow, Option.map_some]
  intro honce
  have hsame : (fun row : SessionRecord => row.id) ∘ f = (·.id) := funext hid
  rw [h, map_map, hsame]
  exact honce

variable {id : SessionId}

theorem sessionDelete_later : SessionsLater auth (sessionDelete auth id now) := by
  refine sessionsLater_map rfl (fun row => ?_) (fun row hrow => ?_)
  · split <;> rfl
  · split
    · exact Option.some_ne_none now
    · exact hrow

theorem rotateSession_later {expiresAtMs : Millis} :
    SessionsLater auth (rotateSession auth id expiresAtMs) := by
  refine sessionsLater_map rfl (fun row => ?_) (fun row hrow => ?_)
  · split <;> rfl
  · split
    · exact hrow
    · exact hrow

theorem insertSession_later {principalId : PrincipalId} {deviceId : DeviceId} {expiresAtMs : Millis}
    (h : insertSession auth id principalId deviceId expiresAtMs = .ok auth') : SessionsLater auth auth' := by
  unfold insertSession at h
  split at h
  · cases h
  next hnew =>
  cases h
  constructor
  · intro s row hrow
    refine ⟨row, ?_, fun h => h⟩
    unfold AuthorityTables.loadSession at hrow ⊢
    rw [find?_append, hrow]
    rfl
  · intro honce
    have hfree : id ∉ auth.sessions.map (·.id) := by
      intro hmem
      obtain ⟨row, hrow, hid⟩ := mem_map.mp hmem
      refine hnew (Or.inl ?_)
      unfold AuthorityTables.loadSession
      rw [find?_isSome]
      exact ⟨row, hrow, beq_iff_eq.mpr hid⟩
    rw [map_append, map_singleton]
    refine nodup_append.mpr ⟨honce, nodup_cons.mpr ⟨not_mem_nil, nodup_nil⟩, ?_⟩
    intro a ha b hb heq
    rw [heq, mem_singleton.mp hb] at ha
    exact hfree ha

variable {caller : AuthenticatedSession} {target : DeviceId}

theorem deviceRevoke_sessions
    (h : deviceRevoke auth caller target now = .ok auth') :
    auth'.sessions = auth.sessions.map fun row =>
      if row.deviceId = target ∧ row.revokedAtMs = none then { row with revokedAtMs := some now } else row := by
  unfold deviceRevoke at h
  split at h
  · cases h
  · cases h
  next actor device hactor hdevice =>
  have hid : device.id = target := by simpa using find?_some hdevice
  split at h
  · cases h
  · cases h
    rw [← hid]

theorem deviceRevoke_later
    (h : deviceRevoke auth caller target now = .ok auth') : SessionsLater auth auth' := by
  refine sessionsLater_map (deviceRevoke_sessions h) (fun row => ?_) (fun row hrow => ?_)
  · split <;> rfl
  · split
    · exact Option.some_ne_none now
    · exact hrow

theorem Revoked.later (h : auth.Revoked s) (hl : SessionsLater auth auth') : auth'.Revoked s := by
  obtain ⟨row, hrow, hrevoked⟩ := h
  obtain ⟨row', hrow', hkeeps⟩ := hl.rows s row hrow
  exact ⟨row', hrow', hkeeps hrevoked⟩

theorem sessionDelete_revoked (h : (auth.loadSession s).isSome) :
    (sessionDelete auth s now).Revoked s := by
  obtain ⟨row, hrow⟩ := Option.isSome_iff_exists.mp h
  have hid : row.id = s := (loadSession_row hrow).1
  have hload := @loadSession_of_map auth (sessionDelete auth s now) s _ rfl (fun row => by split <;> rfl)
  rw [hrow, Option.map_some] at hload
  refine ⟨_, hload, ?_⟩
  split
  · exact Option.some_ne_none now
  · next hnot => exact fun hnone => hnot ⟨hid, hnone⟩

theorem deviceRevoke_revoked
    (honce : (auth.sessions.map (·.id)).Nodup) (h : deviceRevoke auth caller target now = .ok auth') :
    ∀ s ∈ (auth.sessions.filter fun row => row.deviceId == target && row.revokedAtMs.isNone).map (·.id),
      auth'.Revoked s := by
  intro s hs
  obtain ⟨row, hrow, rfl⟩ := mem_map.mp hs
  obtain ⟨hmem, hfound⟩ := mem_filter.mp hrow
  simp only [Bool.and_eq_true, beq_iff_eq, Option.isNone_iff_eq_none] at hfound
  have honce' : (auth'.sessions.map (·.id)).Nodup := (deviceRevoke_later h).once honce
  have hrow' : { row with revokedAtMs := some now } ∈ auth'.sessions := by
    rw [deviceRevoke_sessions h]
    refine mem_map.mpr ⟨row, hmem, ?_⟩
    rw [if_pos hfound]
  have hsome : (auth'.loadSession row.id).isSome := by
    unfold AuthorityTables.loadSession
    rw [find?_isSome]
    exact ⟨_, hrow', beq_self_eq_true row.id⟩
  obtain ⟨found, hload⟩ := Option.isSome_iff_exists.mp hsome
  obtain ⟨hid, hfound'⟩ := loadSession_row hload
  have hsame : found = { row with revokedAtMs := some now } :=
    inj_on_of_nodup_map honce' hfound' hrow' hid
  exact ⟨found, hload, by rw [hsame]; exact Option.some_ne_none now⟩

theorem cookieSession_live {session : AuthenticatedSession}
    (h : cookieSession auth s now = some session) : session.id = s ∧ ¬ auth.Revoked s ∧ (auth.loadSession s).isSome := by
  unfold cookieSession at h
  split at h
  · cases h
  next row hrow =>
  split at h
  · split at h
    · next hlive =>
      cases h
      refine ⟨(loadSession_row hrow).1, ?_, by rw [hrow]; rfl⟩
      rintro ⟨row', hrow', hrevoked⟩
      cases hrow.symm.trans hrow'
      exact hrevoked hlive.2.1
    · cases h
  · cases h

end

namespace Agent

/-! ## Runs that have ended -/

section
variable {digest : ToolResultBody → List UInt8} {run : RunState}

theorem settle_ended (h : run.inner.status.isTerminal = true) {status : RunStatus} {code : Option Text}
    {usage : AgentUsage} : (run.settle status code usage).inner.status.isTerminal = true :=
  (settle_fits (by rw [TerminalFits, h, Bool.true_or])).1

theorem step_ended (h : run.inner.status.isTerminal = true) (event : RunEvent) :
    (run.step digest event).inner.status.isTerminal = true := by
  cases event with
  | spawn =>
    simp only [RunState.step, RunState.spawn, RunState.transition, h, if_true]
    split
    · exact settle_ended h
    · exact h
  | start =>
    simp only [RunState.step, RunState.start, RunState.appendEvent, h, if_true]
    split
    · exact settle_ended h
    · exact h
  | finish outcome =>
    have hcancelled : ({ run with cancel := run.cancel || outcome == .timeout } : RunState).inner.status.isTerminal =
        true := h
    simp only [RunState.step, RunState.finish]
    split
    · exact settle_ended hcancelled
    · exact h
  | emitText text => exact carries_emitText.terminal h
  | emitNext i => exact carries_emitNext.terminal h
  | callTool call => exact carries_callTool.terminal h
  | callNext i => exact carries_callNext.terminal h
  | callLeave i => exact carries_callLeave.terminal h
  | submit body => exact carries_submitToolResult.terminal h
  | lookup i => exact carries_lookup.terminal h
  | cancelRequest => exact carries_cancelRequest.terminal h
  | cancelFinalize =>
    simp only [RunState.step, RunState.cancelFinalize]
    split
    · exact h
    · exact settle_ended h

theorem journal_new (id documentId : Text) (createdAtMs : Nat) (tools : List AgentTool) :
    Journal (.new id documentId createdAtMs tools) :=
  (runEnds_new id documentId createdAtMs tools).1.journal

end

def AgentRun.ended (run : AgentRun) : Bool :=
  run.state.inner.status.isTerminal && run.state.stored.status.isTerminal

/-- A run goes on: it stays what it is, an ended one stays ended, and it is not put in the map where its session's
runs were collected, unless it has ended. -/
structure AgentRun.RunsOn (collected : List SessionId) (run later : AgentRun) : Prop where
  session : later.sessionId = run.sessionId
  journal : Journal run.state → Journal later.state
  ended : run.state.inner.status.isTerminal = true → later.state.inner.status.isTerminal = true
  loaded : later.loaded = true →
    run.loaded = true ∨ later.state.inner.status.isTerminal = true ∨ run.sessionId ∉ collected
  kept : run.loaded = true → later.loaded = true ∨ later.state.inner.status.isTerminal = true

theorem RunsOn.refl {collected : List SessionId} {run : AgentRun} : run.RunsOn collected run :=
  ⟨rfl, id, id, Or.inl, Or.inl⟩

namespace AgentHub

section
variable (hub later : AgentHub)

structure RunsKept : Prop where
  runs : ∀ (r : Nat) run, hub.runs[r]? = some run → ∃ run', later.runs[r]? = some run' ∧ run.RunsOn hub.collected run'
  fresh : ∀ r : Nat, hub.runs[r]? = none → later.runs[r]? = none

structure CreationsKept : Prop where
  creators : ∀ (i : Nat) (creation : Creation) r, creation.stage = .created r →
    (hub.creations[i]? = some creation ↔ later.creations[i]? = some creation)
  unanswered : ∀ (i : Nat) creation, later.creations[i]? = some creation → creation.stage.isAnswered = false →
    (∃ creation', hub.creations[i]? = some creation' ∧ creation'.session = creation.session ∧
      creation'.stage.isAnswered = false) ∨ ¬ hub.auth.Revoked creation.session.id

end

variable {creation : Creation}

section
variable {hub later : AgentHub} {i r : Nat}

theorem runsKept_of_eq (h : later.runs = hub.runs) : RunsKept hub later :=
  ⟨fun _ run hrun => ⟨run, h ▸ hrun, RunsOn.refl⟩, fun _ hnone => h ▸ hnone⟩

theorem runsKept_set {run run' : AgentRun} (hrun : hub.runs[r]? = some run) (h : later.runs = hub.runs.set r run')
    (hon : run.RunsOn hub.collected run') : RunsKept hub later := by
  have hlt : r < hub.runs.length := (List.getElem?_eq_some_iff.mp hrun).1
  constructor
  · intro q old hold
    rw [h, getElem?_set, if_pos hlt]
    split
    · next heq =>
      subst heq
      cases hrun.symm.trans hold
      exact ⟨run', rfl, hon⟩
    · exact ⟨old, hold, RunsOn.refl⟩
  · intro q hnone
    rw [List.getElem?_eq_none_iff] at hnone ⊢
    rw [h, length_set]
    exact hnone

theorem runsKept_map {f : AgentRun → AgentRun} (h : later.runs = hub.runs.map f)
    (hon : ∀ run : AgentRun, run.RunsOn hub.collected (f run)) : RunsKept hub later := by
  constructor
  · intro q old hold
    exact ⟨f old, by rw [h, getElem?_map, hold, Option.map_some], hon old⟩
  · intro q hnone
    rw [h, getElem?_map, hnone, Option.map_none]

theorem creationsKept_of_eq (h : later.creations = hub.creations) : CreationsKept hub later :=
  ⟨fun _ _ _ _ => by rw [h], fun _ creation hc ha => Or.inl ⟨creation, h ▸ hc, rfl, ha⟩⟩

theorem creationsKept_set {stage : CreateStage} (hi : hub.creations[i]? = some creation)
    (h : later.creations = hub.creations.set i { creation with stage })
    (hold : ∀ r, creation.stage ≠ .created r) (hnew : ∀ r, stage ≠ .created r)
    (hopen : creation.stage.isAnswered = false) : CreationsKept hub later := by
  have hlt : i < hub.creations.length := (List.getElem?_eq_some_iff.mp hi).1
  have hset : ∀ j : Nat, later.creations[j]? =
      if i = j then some { creation with stage } else hub.creations[j]? := fun j => by
    rw [h, getElem?_set, if_pos hlt]
  constructor
  · intro j other r hstage
    rw [hset]
    split
    · next heq =>
      subst heq
      constructor
      · intro hother
        cases hi.symm.trans hother
        exact absurd hstage (hold r)
      · intro hother
        cases hother
        exact absurd hstage (hnew r)
    · exact Iff.rfl
  · intro j other hother hopen'
    rw [hset] at hother
    split at hother
    · next heq =>
      subst heq
      cases hother
      exact Or.inl ⟨creation, hi, rfl, hopen⟩
    · exact Or.inl ⟨other, hother, rfl, hopen'⟩

theorem creationsKept_snoc (h : later.creations = hub.creations ++ [creation])
    (hnew : ∀ r, creation.stage ≠ .created r) (hlive : ¬ hub.auth.Revoked creation.session.id) :
    CreationsKept hub later := by
  have hcase : ∀ (j : Nat) other, later.creations[j]? = some other →
      hub.creations[j]? = some other ∨ other = creation := by
    intro j other hother
    rw [h, getElem?_append] at hother
    split at hother
    · exact Or.inl hother
    · exact Or.inr (mem_singleton.mp (mem_of_getElem? hother))
  constructor
  · intro j other r hstage
    constructor
    · intro hother
      rw [h, getElem?_append_left (List.getElem?_eq_some_iff.mp hother).1, hother]
    intro hother
    rcases hcase j other hother with hold | rfl
    · exact hold
    · exact absurd hstage (hnew r)
  · intro j other hother hopen
    rcases hcase j other hother with hold | rfl
    · exact Or.inl ⟨other, hold, rfl, hopen⟩
    · exact Or.inr hlive

end

/-! ## What a step changes -/

/-- One step of the hub, whatever its revocations do: sessions stay revoked, a run of its own comes with its
creation, and leaves it for the map. -/
structure Evolves (hub later : AgentHub) : Prop where
  sessions : SessionsLater hub.auth later.auth
  collected : ∀ s ∈ hub.collected, s ∈ later.collected
  runs : ∀ (r : Nat) run, hub.runs[r]? = some run → ∃ run', later.runs[r]? = some run' ∧ run.RunsOn hub.collected run'
  fresh : ∀ (r : Nat) run, later.runs[r]? = some run → hub.runs[r]? = none →
    run.loaded = false ∧ Journal run.state ∧
      ∃ (i : Nat) (creation : Creation), later.creations[i]? = some creation ∧ creation.stage = .created r ∧
        creation.session.id = run.sessionId
  creators : ∀ (i : Nat) (creation : Creation) r, hub.creations[i]? = some creation → creation.stage = .created r →
    later.creations[i]? = some creation ∨ ∃ run, later.runs[r]? = some run ∧ run.loaded = true
  made : ∀ (i : Nat) (creation : Creation) r, later.creations[i]? = some creation → creation.stage = .created r →
    hub.creations[i]? = some creation ∨ ∃ run, later.runs[r]? = some run ∧ run.sessionId = creation.session.id
  unanswered : ∀ (i : Nat) creation, later.creations[i]? = some creation → creation.stage.isAnswered = false →
    (∃ creation', hub.creations[i]? = some creation' ∧ creation'.session = creation.session ∧
      creation'.stage.isAnswered = false) ∨ ¬ hub.auth.Revoked creation.session.id

section
variable {hub later : AgentHub} {i r : Nat}

theorem evolves_of (hs : SessionsLater hub.auth later.auth) (hc : ∀ s ∈ hub.collected, s ∈ later.collected)
    (hr : RunsKept hub later) (hk : CreationsKept hub later) : Evolves hub later where
  sessions := hs
  collected := hc
  runs := hr.runs
  fresh := by
    intro r run hrun hnone
    rw [hr.fresh r hnone] at hrun
    cases hrun
  creators := fun i creation r hi hstage => Or.inl ((hk.creators i creation r hstage).mp hi)
  made := fun i creation r hi hstage => Or.inl ((hk.creators i creation r hstage).mpr hi)
  unanswered := hk.unanswered

theorem Evolves.refl : Evolves hub hub :=
  evolves_of (sessionsLater_of_eq rfl) (fun _ h => h) (runsKept_of_eq rfl) (creationsKept_of_eq rfl)

theorem evolves_setCreation {stage : CreateStage} (hi : hub.creations[i]? = some creation)
    (hold : ∀ r, creation.stage ≠ .created r) (hnew : ∀ r, stage ≠ .created r)
    (hopen : creation.stage.isAnswered = false) : Evolves hub (hub.setCreation i creation stage) :=
  evolves_of (sessionsLater_of_eq rfl) (fun _ h => h) (runsKept_of_eq rfl) (creationsKept_set hi rfl hold hnew hopen)

theorem evolves_setRun {run run' : AgentRun} (hrun : hub.runs[r]? = some run)
    (hon : run.RunsOn hub.collected run') : Evolves hub (hub.setRun r run') :=
  evolves_of (sessionsLater_of_eq rfl) (fun _ h => h) (runsKept_set hrun rfl hon) (creationsKept_of_eq rfl)

theorem Evolves.congr (h : Evolves hub later) {other : AgentHub} (hauth : other.auth = later.auth)
    (hruns : other.runs = later.runs) (hcreations : other.creations = later.creations)
    (hcollected : other.collected = later.collected) : Evolves hub other where
  sessions := hauth ▸ h.sessions
  collected := hcollected ▸ h.collected
  runs := hruns ▸ h.runs
  fresh := by
    rw [hruns, hcreations]
    exact h.fresh
  creators := by
    rw [hruns, hcreations]
    exact h.creators
  made := by
    rw [hruns, hcreations]
    exact h.made
  unanswered := hcreations ▸ h.unanswered

variable {sessionId : SessionId}

theorem create_evolves {body : CreateRunBody} :
    Evolves hub (hub.create sessionId body now) := by
  unfold create
  split
  · next session hsession =>
    obtain ⟨hid, hlive, _⟩ := cookieSession_live hsession
    refine evolves_of (sessionsLater_of_eq rfl) (fun _ h => h) (runsKept_of_eq rfl)
      (creationsKept_snoc rfl (fun r h => (by cases h)) ?_)
    rw [hid]
    exact hlive
  · exact Evolves.refl

theorem permit_evolves {refusal : Option HubError} : Evolves hub (hub.permit i refusal) := by
  unfold permit
  split
  · next session body hi =>
    refine evolves_setCreation hi (fun r h => (by cases h)) (fun r h => ?_) rfl
    split at h <;> cases h
  · exact Evolves.refl

theorem loadOwnedRun_on {loaded : AgentHub} (h : hub.loadOwnedRun sessionId r = .ok loaded)
    (hj : ∀ (r : Nat) run, hub.runs[r]? = some run → Journal run.state) :
    loaded.auth = hub.auth ∧ loaded.creations = hub.creations ∧ loaded.collected = hub.collected ∧
      loaded.revocations = hub.revocations ∧ RunsKept hub loaded := by
  unfold loadOwnedRun at h
  split at h
  · cases h
  next run hrun =>
  split at h
  · split at h
    · cases h
    · cases h
      exact ⟨rfl, rfl, rfl, rfl, runsKept_of_eq rfl⟩
  · split at h
    · cases h
    split at h
    · cases h
    next hended =>
    cases h
    have hinner : run.state.inner.status.isTerminal = true := by
      rw [← (hj r run hrun).stored.1]
      simpa using hended
    exact ⟨rfl, rfl, rfl, rfl, runsKept_set hrun rfl
      ⟨rfl, id, id, fun _ => Or.inr (Or.inl hinner), fun _ => Or.inl rfl⟩⟩

theorem replay_evolves (hj : ∀ (r : Nat) run, hub.runs[r]? = some run → Journal run.state) :
    Evolves hub (hub.replay i) := by
  unfold replay
  split
  · next session body r hi =>
    split
    · next loaded hloaded =>
      obtain ⟨hauth, hcreations, hcollected, _, hruns⟩ := loadOwnedRun_on hloaded hj
      have hset : (loaded.setCreation i ⟨session, body, .existing r⟩ (.answered (.ok (r, true)))).creations =
          hub.creations.set i ⟨session, body, .answered (.ok (r, true))⟩ := by rw [setCreation, hcreations]
      refine evolves_of (sessionsLater_of_eq (congrArg _ hauth)) (fun _ h => hcollected ▸ h)
        ⟨hruns.runs, hruns.fresh⟩ ?_
      exact creationsKept_set hi hset (fun r h => (by cases h)) (fun r h => (by cases h)) rfl
    · exact evolves_setCreation hi (fun r h => (by cases h)) (fun r h => (by cases h)) rfl
  · exact Evolves.refl

theorem acquire_evolves : Evolves hub (hub.acquire i) := by
  unfold acquire
  split
  · next session body hi =>
    split
    · exact evolves_setCreation hi (fun r h => (by cases h)) (fun r h => (by cases h)) rfl
    · exact (evolves_setCreation hi (fun r h => (by cases h)) (fun r h => (by cases h)) rfl).congr rfl rfl rfl rfl
  · exact Evolves.refl

theorem lookup_evolves {config : HubConfig} {digest : CreateRunBody → List UInt8} :
    Evolves hub (hub.lookup config digest i) := by
  unfold lookup
  split
  · next session body hi =>
    refine evolves_setCreation hi (fun r h => (by cases h)) (fun r h => ?_) rfl
    split at h
    · cases h
    · split at h
      · cases h
      · split at h <;> cases h
  · exact Evolves.refl

theorem transact_evolves {config : HubConfig} {digest : CreateRunBody → List UInt8} :
    Evolves hub (hub.transact config digest i now) := by
  unfold transact
  split
  · next session body hi =>
    split
    · refine (evolves_setCreation hi (fun r h => (by cases h)) (fun r h => ?_) rfl).congr rfl rfl rfl rfl
      split at h <;> cases h
    split
    · exact (evolves_setCreation hi (fun r h => (by cases h)) (fun r h => (by cases h)) rfl).congr rfl rfl rfl rfl
    have hlt : i < hub.creations.length := (List.getElem?_eq_some_iff.mp hi).1
    have hset : ∀ j : Nat, (hub.creations.set i ⟨session, body, .created hub.runs.length⟩)[j]? =
        if i = j then some ⟨session, body, .created hub.runs.length⟩ else hub.creations[j]? := fun j => by
      rw [getElem?_set, if_pos hlt]
    have hnew : ∀ (q : Nat) run, (hub.runs ++ [hub.newRun config digest session body now])[q]? = some run →
        hub.runs[q]? = some run ∨ q = hub.runs.length ∧ run = hub.newRun config digest session body now := by
      intro q run hq
      rw [getElem?_append] at hq
      split at hq
      · exact Or.inl hq
      next hge =>
      have hlast := (List.getElem?_eq_some_iff.mp hq).1
      rw [length_singleton] at hlast
      exact Or.inr ⟨by omega, mem_singleton.mp (mem_of_getElem? hq)⟩
    have hat : (hub.runs ++ [hub.newRun config digest session body now])[hub.runs.length]? =
        some (hub.newRun config digest session body now) := getElem?_concat_length
    constructor
    · exact sessionsLater_of_eq rfl
    · exact fun _ h => h
    · intro q run hq
      exact ⟨run, by rw [setCreation, getElem?_append_left (List.getElem?_eq_some_iff.mp hq).1, hq],
        RunsOn.refl⟩
    · intro q run hq hnone
      rcases hnew q run hq with hold | ⟨rfl, rfl⟩
      · rw [hnone] at hold
        cases hold
      · exact ⟨rfl, journal_new _ _ _ _, i, ⟨session, body, .created hub.runs.length⟩,
          (hset i).trans (if_pos rfl), rfl, rfl⟩
    · intro j creation q hj hstage
      refine Or.inl ((hset j).trans ?_)
      split
      · next heq =>
        subst heq
        cases hi.symm.trans hj
        cases hstage
      · exact hj
    · intro j creation q hj hstage
      rw [setCreation, hset] at hj
      split at hj
      · cases hj
        cases hstage
        exact Or.inr ⟨_, hat, rfl⟩
      · exact Or.inl hj
    · intro j creation hj hopen
      rw [setCreation, hset] at hj
      split at hj
      · next heq =>
        subst heq
        cases hj
        exact Or.inl ⟨_, hi, rfl, rfl⟩
      · exact Or.inl ⟨creation, hj, rfl, hopen⟩
  · exact Evolves.refl

theorem launch_evolves (hc : ∀ (creation : Creation) r, hub.creations[i]? = some creation → creation.stage = .created r →
      creation.session.id ∉ hub.collected)
    (howned : ∀ (creation : Creation) r, hub.creations[i]? = some creation → creation.stage = .created r →
      ∃ run, hub.runs[r]? = some run ∧ run.sessionId = creation.session.id) :
    Evolves hub (hub.launch i) := by
  unfold launch
  split
  · next session body r hi =>
    split
    · next run hrun =>
      have hlt : i < hub.creations.length := (List.getElem?_eq_some_iff.mp hi).1
      have hset : ∀ j : Nat, (hub.creations.set i ⟨session, body, .answered (.ok (r, false))⟩)[j]? =
          if i = j then some ⟨session, body, .answered (.ok (r, false))⟩ else hub.creations[j]? := fun j => by
        rw [getElem?_set, if_pos hlt]
      have hon : run.RunsOn hub.collected { run with loaded := true, launched := true } := by
        refine ⟨rfl, id, id, fun _ => Or.inr (Or.inr ?_), fun _ => Or.inl rfl⟩
        obtain ⟨run', hrun', hsession⟩ := howned _ r hi rfl
        cases hrun.symm.trans hrun'
        rw [hsession]
        exact hc _ r hi rfl
      have hkept : RunsKept hub (hub.setRun r { run with loaded := true, launched := true }) := runsKept_set hrun rfl hon
      have hat : (hub.runs.set r { run with loaded := true, launched := true })[r]? =
          some { run with loaded := true, launched := true } := by
        rw [getElem?_set, if_pos (List.getElem?_eq_some_iff.mp hrun).1, if_pos rfl]
      constructor
      · exact sessionsLater_of_eq rfl
      · exact fun _ h => h
      · exact hkept.runs
      · intro q run' hq hnone
        have hgone := hkept.fresh q hnone
        cases hgone.symm.trans hq
      · intro j creation q hj hstage
        by_cases heq : i = j
        · subst heq
          cases hi.symm.trans hj
          cases hstage
          exact Or.inr ⟨_, hat, rfl⟩
        · exact Or.inl ((hset j).trans ((if_neg heq).trans hj))
      · intro j creation q hj hstage
        rw [setCreation, setRun, hset] at hj
        split at hj
        · cases hj
          cases hstage
        · exact Or.inl hj
      · intro j creation hj hopen
        rw [setCreation, setRun, hset] at hj
        split at hj
        · cases hj
          cases hopen
        · exact Or.inl ⟨creation, hj, rfl, hopen⟩
    · exact Evolves.refl
  · exact Evolves.refl

theorem onRun_evolves {digest : ToolResultBody → List UInt8} {event : RunEvent} :
    Evolves hub (hub.onRun digest r event) := by
  simp only [onRun]
  split
  · exact Evolves.refl
  next run hrun =>
  have hon : run.RunsOn hub.collected { run with state := run.state.step digest event } :=
    ⟨rfl, fun hj => hj.step event, fun hended => step_ended hended event, Or.inl, Or.inl⟩
  split
  · exact Evolves.refl
  · split
    · exact (evolves_setRun hrun hon).congr rfl rfl rfl rfl
    · exact evolves_setRun hrun hon

theorem load_evolves (hj : ∀ (r : Nat) run, hub.runs[r]? = some run → Journal run.state) :
    Evolves hub (hub.load sessionId r) := by
  unfold load
  split
  · next loaded hloaded =>
    obtain ⟨hauth, hcreations, hcollected, _, hruns⟩ := loadOwnedRun_on hloaded hj
    exact evolves_of (sessionsLater_of_eq (congrArg _ hauth)) (fun _ h => hcollected ▸ h) hruns
      (creationsKept_of_eq hcreations)
  · exact Evolves.refl

theorem sweepRuns_evolves {config : HubConfig} : Evolves hub (hub.sweepRuns config now) := by
  refine evolves_of (sessionsLater_of_eq rfl) (fun _ h => h) (runsKept_map rfl fun run => ?_) (creationsKept_of_eq rfl)
  split
  · next hexpired => exact ⟨rfl, id, id, fun h => (by cases h), fun _ => Or.inr hexpired.1⟩
  · exact RunsOn.refl

theorem sweepRows_evolves {config : HubConfig} : Evolves hub (hub.sweepRows config now) := by
  refine evolves_of (sessionsLater_of_eq rfl) (fun _ h => h) (runsKept_map rfl fun run => ?_) (creationsKept_of_eq rfl)
  split
  · exact ⟨rfl, id, id, Or.inl, Or.inl⟩
  · exact RunsOn.refl

/-! ## The invariant -/

def Cancelled (hub : AgentHub) (s : SessionId) (left : List Nat) : Prop :=
  s ∈ hub.collected ∧ ∀ (r : Nat) run, hub.runs[r]? = some run → run.sessionId = s → run.loaded = true →
    run.state.inner.status.isTerminal = true ∨ r ∈ left

def Revokes (hub : AgentHub) (revocation : Revocation) : Prop :=
  match revocation.stage with
  | .admitted => (hub.auth.loadSession revocation.caller.id).isSome
  | .cancelling revoked left runs _ =>
    ∀ s ∈ revoked, hub.auth.Revoked s ∧ (s ∈ left ∨ hub.Cancelled s runs)
  | .answered revoked => ∀ s ∈ revoked, hub.auth.Revoked s ∧ hub.Cancelled s []
  | .refused _ => True

structure Sound (hub : AgentHub) : Prop where
  once : (hub.auth.sessions.map (·.id)).Nodup
  journals : ∀ (r : Nat) run, hub.runs[r]? = some run → Journal run.state
  owned : ∀ (r : Nat) run, hub.runs[r]? = some run → run.loaded = false → run.state.inner.status.isTerminal = true ∨
    ∃ (i : Nat) (creation : Creation), hub.creations[i]? = some creation ∧ creation.stage = .created r ∧
      creation.session.id = run.sessionId
  created : ∀ (i : Nat) (creation : Creation) r, hub.creations[i]? = some creation → creation.stage = .created r →
    ∃ run, hub.runs[r]? = some run ∧ run.sessionId = creation.session.id
  revoking : ∀ (i : Nat) revocation, hub.revocations[i]? = some revocation → hub.Revokes revocation

theorem Cancelled.evolves {s : SessionId} {left : List Nat} (h : hub.Cancelled s left) (he : Evolves hub later) :
    later.Cancelled s left := by
  refine ⟨he.collected s h.1, fun r run' hrun' hs hloaded => ?_⟩
  cases hold : hub.runs[r]? with
  | none =>
    rw [(he.fresh r run' hrun' hold).1] at hloaded
    cases hloaded
  | some run =>
    obtain ⟨run'', hrun'', hon⟩ := he.runs r run hold
    cases hrun'.symm.trans hrun''
    have hsession : run.sessionId = s := hon.session.symm.trans hs
    rcases hon.loaded hloaded with hbefore | hended | hnot
    · rcases h.2 r run hold hsession hbefore with hended | hmem
      · exact Or.inl (hon.ended hended)
      · exact Or.inr hmem
    · exact Or.inl hended
    · exact absurd h.1 (hsession ▸ hnot)

theorem Revokes.evolves {revocation : Revocation} (h : hub.Revokes revocation) (he : Evolves hub later) :
    later.Revokes revocation := by
  unfold Revokes at h ⊢
  split
  · next hstage =>
    simp only [hstage] at h
    obtain ⟨row, hrow⟩ := Option.isSome_iff_exists.mp h
    obtain ⟨row', hrow', _⟩ := he.sessions.rows _ row hrow
    exact Option.isSome_iff_exists.mpr ⟨row', hrow'⟩
  · next revoked left runs token hstage =>
    simp only [hstage] at h
    intro s hs
    obtain ⟨hrevoked, hleft⟩ := h s hs
    exact ⟨Marks.Revoked.later hrevoked he.sessions, hleft.imp id fun hc => hc.evolves he⟩
  · next revoked hstage =>
    simp only [hstage] at h
    intro s hs
    obtain ⟨hrevoked, hc⟩ := h s hs
    exact ⟨Marks.Revoked.later hrevoked he.sessions, hc.evolves he⟩
  · trivial

section

variable (h : hub.Sound)
include h

theorem Sound.evolves (he : Evolves hub later)
    (hrevoking : ∀ (i : Nat) revocation, later.revocations[i]? = some revocation → later.Revokes revocation) :
    later.Sound where
  once := he.sessions.once h.once
  journals := by
    intro r run' hrun'
    cases hold : hub.runs[r]? with
    | none => exact (he.fresh r run' hrun' hold).2.1
    | some run =>
      obtain ⟨run'', hrun'', hon⟩ := he.runs r run hold
      cases hrun'.symm.trans hrun''
      exact hon.journal (h.journals r run hold)
  owned := by
    intro r run' hrun' hunloaded
    cases hold : hub.runs[r]? with
    | none => exact Or.inr (he.fresh r run' hrun' hold).2.2
    | some run =>
      obtain ⟨run'', hrun'', hon⟩ := he.runs r run hold
      cases hrun'.symm.trans hrun''
      cases hloaded : run.loaded with
      | true =>
        rcases hon.kept hloaded with hkept | hended
        · rw [hunloaded] at hkept
          cases hkept
        · exact Or.inl hended
      | false =>
        rcases h.owned r run hold hloaded with hended | ⟨i, creation, hi, hstage, hsession⟩
        · exact Or.inl (hon.ended hended)
        rcases he.creators i creation r hi hstage with hi' | ⟨run'', hrun'', hloaded'⟩
        · exact Or.inr ⟨i, creation, hi', hstage, hsession.trans hon.session.symm⟩
        · cases hrun'.symm.trans hrun''
          rw [hunloaded] at hloaded'
          cases hloaded'
  created := by
    intro i creation r hi hstage
    rcases he.made i creation r hi hstage with hi' | hmade
    · obtain ⟨run, hrun, hsession⟩ := h.created i creation r hi' hstage
      obtain ⟨run', hrun', hon⟩ := he.runs r run hrun
      exact ⟨run', hrun', hon.session.trans hsession⟩
    · exact hmade
  revoking := hrevoking

theorem revoking_set {revocation : Revocation} {stage : RevokeStage} (he : Evolves hub later)
    (hset : later.revocations = hub.revocations.set i { revocation with stage })
    (hnew : later.Revokes { revocation with stage }) :
    ∀ (j : Nat) other, later.revocations[j]? = some other → later.Revokes other := by
  intro j other hj
  rw [hset, getElem?_set] at hj
  split at hj
  · split at hj
    · cases hj
      exact hnew
    · cases hj
  · exact (h.revoking j other hj).evolves he

theorem revoking_same (he : Evolves hub later) (hsame : later.revocations = hub.revocations) :
    ∀ (j : Nat) other, later.revocations[j]? = some other → later.Revokes other :=
  fun j other hj => (h.revoking j other (hsame ▸ hj)).evolves he

theorem Sound.of_same (he : Evolves hub later) (hsame : later.revocations = hub.revocations) :
    later.Sound := h.evolves he (revoking_same h he hsame)

theorem revokeRequest_sound {device : Option DeviceId} :
    Evolves hub (hub.revokeRequest sessionId device now) ∧ (hub.revokeRequest sessionId device now).Sound := by
  unfold revokeRequest
  split
  · next session hsession =>
    obtain ⟨hid, _, hrow⟩ := cookieSession_live hsession
    have he : Evolves hub { hub with revocations := hub.revocations ++ [⟨session, device, .admitted⟩] } :=
      Evolves.refl.congr rfl rfl rfl rfl
    refine ⟨he, h.evolves he fun j other hj => ?_⟩
    rw [getElem?_append] at hj
    split at hj
    · exact (h.revoking j other hj).evolves he
    rw [mem_singleton.mp (mem_of_getElem? hj)]
    show (hub.auth.loadSession session.id).isSome = true
    rw [hid]
    exact hrow
  · exact ⟨Evolves.refl, h⟩

theorem revoke_sound : Evolves hub (hub.revoke i now) ∧ (hub.revoke i now).Sound := by
  unfold revoke
  split
  · next caller hi =>
    have he : Evolves hub ({ hub with auth := sessionDelete hub.auth caller.id now }.setRevocation i
        ⟨caller, none, .admitted⟩ (.cancelling [caller.id] [caller.id] [] false)) :=
      evolves_of sessionDelete_later (fun _ h => h) (runsKept_of_eq rfl) (creationsKept_of_eq rfl)
    refine ⟨he, h.evolves he (revoking_set h he rfl ?_)⟩
    intro s hs
    cases mem_singleton.mp hs
    exact ⟨sessionDelete_revoked (h.revoking i _ hi), Or.inl hs⟩
  · next caller device hi =>
    split
    · have he : ∀ stage, Evolves hub (hub.setRevocation i ⟨caller, some device, .admitted⟩ stage) :=
        fun _ => Evolves.refl.congr rfl rfl rfl rfl
      exact ⟨he _, h.evolves (he _) (revoking_set h (he _) rfl trivial)⟩
    next auth hrevoke =>
    have he : ∀ stage, Evolves hub ({ hub with auth }.setRevocation i ⟨caller, some device, .admitted⟩ stage) :=
      fun _ => evolves_of (deviceRevoke_later hrevoke) (fun _ h => h) (runsKept_of_eq rfl) (creationsKept_of_eq rfl)
    refine ⟨he _, h.evolves (he _) (revoking_set h (he _) rfl ?_)⟩
    exact fun s hs => ⟨deviceRevoke_revoked h.once hrevoke s hs, Or.inl hs⟩
  · exact ⟨Evolves.refl, h⟩

theorem collect_sound : Evolves hub (hub.collect i) ∧ (hub.collect i).Sound := by
  unfold collect
  split
  · next caller device revoked sessionId left token hi =>
    have he : Evolves hub ({ hub with collected := sessionId :: hub.collected }.setRevocation i
        ⟨caller, device, .cancelling revoked (sessionId :: left) [] token⟩
        (.cancelling revoked left (hub.runsOf sessionId) false)) :=
      evolves_of (sessionsLater_of_eq rfl) (fun _ h => mem_cons_of_mem _ h) (runsKept_of_eq rfl)
        (creationsKept_of_eq rfl)
    refine ⟨he, h.evolves he (revoking_set h he rfl ?_)⟩
    intro s hs
    obtain ⟨hrevoked, hleft⟩ := h.revoking i _ hi s hs
    refine ⟨hrevoked, ?_⟩
    by_cases hsame : s = sessionId
    · refine Or.inr ⟨hsame ▸ mem_cons_self, fun r run hrun hsession hloaded => Or.inr ?_⟩
      unfold runsOf
      rw [mem_filter, mem_range]
      refine ⟨(List.getElem?_eq_some_iff.mp hrun).1, ?_⟩
      have hrun' : hub.runs[r]? = some run := hrun
      rw [hrun', Option.any_some, hloaded, hsession, hsame]
      exact beq_self_eq_true sessionId
    · rcases hleft with hmem | hc
      · exact Or.inl ((mem_cons.mp hmem).resolve_left hsame)
      refine Or.inr ⟨mem_cons_of_mem _ hc.1, fun r run hrun hsession hloaded => ?_⟩
      rcases hc.2 r run hrun hsession hloaded with hended | hmem
      · exact Or.inl hended
      · cases hmem
  · exact ⟨Evolves.refl, h⟩

theorem cancelToken_sound : Evolves hub (hub.cancelToken i) ∧ (hub.cancelToken i).Sound := by
  unfold cancelToken
  split
  · next caller device revoked left r runs hi =>
    split
    · next run hrun =>
      have hon : run.RunsOn hub.collected { run with state := { run.state with cancel := true } } :=
        ⟨rfl, fun hj => hj.congr rfl rfl rfl, id, Or.inl, Or.inl⟩
      have he : Evolves hub ((hub.setRun r { run with state := { run.state with cancel := true } }).setRevocation i
          ⟨caller, device, .cancelling revoked left (r :: runs) false⟩ (.cancelling revoked left (r :: runs) true)) :=
        (evolves_setRun hrun hon).congr rfl rfl rfl rfl
      exact ⟨he, h.evolves he (revoking_set h he rfl ((h.revoking i _ hi).evolves he))⟩
    · exact ⟨Evolves.refl, h⟩
  · exact ⟨Evolves.refl, h⟩

theorem cancelFinalize_sound
    (hroom : ∀ caller device revoked left r runs run,
      hub.revocations[i]? = some ⟨caller, device, .cancelling revoked left (r :: runs) true⟩ →
      hub.runs[r]? = some run → TerminalFits run.state .cancelled none .default = true) :
    Evolves hub (hub.cancelFinalize i) ∧ (hub.cancelFinalize i).Sound := by
  unfold cancelFinalize
  split
  · next caller device revoked left r runs hi =>
    split
    · next run hrun =>
      have hended := (settle_fits (hroom caller device revoked left r runs run hi hrun)).1
      have hon : run.RunsOn hub.collected { run with state := run.state.settle .cancelled none .default } :=
        ⟨rfl, fun hj => hj.settle, fun _ => hended, Or.inl, Or.inl⟩
      have he : Evolves hub ((hub.setRun r { run with state := run.state.settle .cancelled none .default }).setRevocation
          i ⟨caller, device, .cancelling revoked left (r :: runs) true⟩ (.cancelling revoked left runs false)) :=
        (evolves_setRun hrun hon).congr rfl rfl rfl rfl
      refine ⟨he, h.evolves he (revoking_set h he rfl ?_)⟩
      intro s hs
      obtain ⟨hrevoked, hleft⟩ := (h.revoking i _ hi).evolves he s hs
      refine ⟨hrevoked, hleft.imp id fun hc => ⟨hc.1, fun q run' hq hsession hloaded => ?_⟩⟩
      rcases hc.2 q run' hq hsession hloaded with hended' | hmem
      · exact Or.inl hended'
      rcases mem_cons.mp hmem with rfl | hmem
      · have hat : (hub.runs.set q { run with state := run.state.settle .cancelled none .default })[q]? =
            some { run with state := run.state.settle .cancelled none .default } := by
          rw [getElem?_set, if_pos (List.getElem?_eq_some_iff.mp hrun).1, if_pos rfl]
        cases hat.symm.trans hq
        exact Or.inl hended
      · exact Or.inr hmem
    · exact ⟨Evolves.refl, h⟩
  · exact ⟨Evolves.refl, h⟩

theorem answer_sound : Evolves hub (hub.answer i) ∧ (hub.answer i).Sound := by
  unfold answer
  split
  · next caller device revoked token hi =>
    have he : ∀ stage, Evolves hub (hub.setRevocation i ⟨caller, device, .cancelling revoked [] [] token⟩ stage) :=
      fun _ => Evolves.refl.congr rfl rfl rfl rfl
    refine ⟨he _, h.evolves (he _) (revoking_set h (he _) rfl ?_)⟩
    intro s hs
    obtain ⟨hrevoked, hleft⟩ := (h.revoking i _ hi).evolves (he (.answered revoked)) s hs
    exact ⟨hrevoked, hleft.resolve_left not_mem_nil⟩
  · exact ⟨Evolves.refl, h⟩

end

end

/-! ## Whole runs -/

/-- A run enters the map before its session's runs are collected, and has room in its journal for its cancellation. -/
def inTime (hub : AgentHub) : HubEvent → Bool
  | .launch i =>
    match hub.creations[i]? with
    | some ⟨session, _, .created _⟩ => !hub.collected.contains session.id
    | _ => true
  | .cancelFinalize i =>
    match hub.revocations[i]? with
    | some ⟨_, _, .cancelling _ _ (r :: _) true⟩ =>
      hub.runs[r]?.all fun run => TerminalFits run.state .cancelled none .default
    | _ => true
  | _ => true

def Answered (hub : AgentHub) (s : SessionId) : Prop :=
  ∃ revocation ∈ hub.revocations, ∃ revoked, revocation.stage = .answered revoked ∧ s ∈ revoked

def Finished (hub later : AgentHub) : Prop :=
  ∀ (i : Nat) creation creation', hub.creations[i]? = some creation → creation.stage.isAnswered = false →
    later.creations[i]? = some creation' → creation'.stage.isAnswered = true

section
variable {config : HubConfig} {digest : CreateRunBody → List UInt8} {resultDigest : ToolResultBody → List UInt8}
  {hub later : AgentHub} {s : SessionId}

theorem step_sound {e : HubEvent} (h : hub.Sound) (hin : hub.inTime e = true) :
    Evolves hub (hub.step config digest resultDigest e) ∧ (hub.step config digest resultDigest e).Sound := by
  cases e with
  | create sessionId body now =>
    refine ⟨create_evolves, h.of_same create_evolves ?_⟩
    simp only [step, create]
    split <;> rfl
  | permit i refusal =>
    refine ⟨permit_evolves, h.of_same permit_evolves ?_⟩
    simp only [step, permit]
    split <;> rfl
  | lookup i =>
    refine ⟨lookup_evolves, h.of_same lookup_evolves ?_⟩
    simp only [step, lookup]
    split <;> rfl
  | acquire i =>
    refine ⟨acquire_evolves, h.of_same acquire_evolves ?_⟩
    simp only [step, acquire]
    split
    · split <;> rfl
    · rfl
  | transact i now =>
    refine ⟨transact_evolves, h.of_same transact_evolves ?_⟩
    simp only [step, transact]
    split
    · split
      · rfl
      · split <;> rfl
    · rfl
  | launch i =>
    have he : Evolves hub (hub.launch i) := by
      refine launch_evolves (fun creation r hi hstage => ?_) (h.created i)
      obtain ⟨session, body, stage⟩ := creation
      cases hstage
      simp only [inTime, hi] at hin
      simpa using hin
    refine ⟨he, h.of_same he ?_⟩
    simp only [step, launch]
    split
    · split <;> rfl
    · rfl
  | replay i =>
    refine ⟨replay_evolves h.journals, h.of_same (replay_evolves h.journals) ?_⟩
    simp only [step, replay]
    split
    · split
      · next hloaded => exact (loadOwnedRun_on hloaded h.journals).2.2.2.1
      · rfl
    · rfl
  | revokeRequest sessionId device now => exact revokeRequest_sound h
  | revoke i now => exact revoke_sound h
  | collect i => exact collect_sound h
  | cancelToken i => exact cancelToken_sound h
  | cancelFinalize i =>
    refine cancelFinalize_sound h fun caller device revoked left r runs run hi hrun => ?_
    simpa only [inTime, hi, hrun, Option.all_some] using hin
  | answer i => exact answer_sound h
  | run r event =>
    refine ⟨onRun_evolves, h.of_same onRun_evolves ?_⟩
    simp only [step, onRun]
    split
    · rfl
    · split
      · rfl
      · split <;> rfl
  | load sessionId r =>
    refine ⟨load_evolves h.journals, h.of_same (load_evolves h.journals) ?_⟩
    simp only [step, load]
    split
    · next hloaded => exact (loadOwnedRun_on hloaded h.journals).2.2.2.1
    · rfl
  | sweepRuns now => exact ⟨sweepRuns_evolves, h.of_same sweepRuns_evolves rfl⟩
  | sweepRows now => exact ⟨sweepRows_evolves, h.of_same sweepRows_evolves rfl⟩
  | login id principalId deviceId expiresAtMs =>
    simp only [step]
    split
    · next auth hauth =>
      have he : Evolves hub { hub with auth } :=
        evolves_of (insertSession_later hauth) (fun _ h => h) (runsKept_of_eq rfl) (creationsKept_of_eq rfl)
      exact ⟨he, h.of_same he rfl⟩
    · exact ⟨Evolves.refl, h⟩
  | rotate id expiresAtMs =>
    have he : Evolves hub { hub with auth := rotateSession hub.auth id expiresAtMs } :=
      evolves_of rotateSession_later (fun _ h => h) (runsKept_of_eq rfl) (creationsKept_of_eq rfl)
    exact ⟨he, h.of_same he rfl⟩
  | tables auth =>
    have he : Evolves hub { hub with auth := { auth with sessions := hub.auth.sessions } } :=
      evolves_of (sessionsLater_of_eq rfl) (fun _ h => h) (runsKept_of_eq rfl) (creationsKept_of_eq rfl)
    exact ⟨he, h.of_same he rfl⟩

theorem init_sound {auth : AuthorityTables} (h : (auth.sessions.map (·.id)).Nodup) : (init config auth).Sound where
  once := h
  journals := fun _ _ hrun => (by cases hrun)
  owned := fun _ _ hrun => (by cases hrun)
  created := fun _ _ _ hi => (by cases hi)
  revoking := fun _ _ hi => (by cases hi)

theorem Answered.revokes (h : hub.Sound) (ha : hub.Answered s) : hub.auth.Revoked s ∧ hub.Cancelled s [] := by
  obtain ⟨revocation, hmem, revoked, hstage, hs⟩ := ha
  obtain ⟨i, hi⟩ := mem_iff_getElem?.mp hmem
  have hrevokes := h.revoking i revocation hi
  simp only [Revokes, hstage] at hrevokes
  exact hrevokes s hs

structure Closed (s : SessionId) (inFlight : Nat → Prop) (hub : AgentHub) : Prop where
  sound : hub.Sound
  revoked : hub.auth.Revoked s
  cancelled : hub.Cancelled s []
  creations : ∀ (i : Nat) creation, hub.creations[i]? = some creation → creation.session.id = s →
    creation.stage.isAnswered = false → inFlight i

theorem Closed.next {inFlight : Nat → Prop} {e : HubEvent} (h : Closed s inFlight hub) (hin : hub.inTime e = true) :
    Closed s inFlight (hub.step config digest resultDigest e) := by
  obtain ⟨he, hsound⟩ : Evolves hub (hub.step config digest resultDigest e) ∧ _ := step_sound h.sound hin
  refine ⟨hsound, Marks.Revoked.later h.revoked he.sessions, h.cancelled.evolves he, fun i creation hi hs hopen => ?_⟩
  rcases he.unanswered i creation hi hopen with ⟨creation', hi', hsession, hopen'⟩ | hlive
  · exact h.creations i creation' hi' (by rw [hsession, hs]) hopen'
  · exact absurd h.revoked (hs ▸ hlive)

theorem Closed.onward {inFlight : Nat → Prop} {events : List HubEvent} (h : Closed s inFlight hub)
    (hin : Transition.Along (fun hub e => step config digest resultDigest hub e) (fun hub e => hub.inTime e = true) hub
      events) :
    Closed s inFlight (Transition.run (fun hub e => step config digest resultDigest hub e) hub events) :=
  Transition.run_inv (fun _ _ h hin => Closed.next h hin) h hin

theorem Closed.ended (h : Closed s (fun _ => False) hub) : ∀ run ∈ hub.runs, run.sessionId = s → run.ended = true := by
  intro run hmem hsession
  obtain ⟨r, hr⟩ := mem_iff_getElem?.mp hmem
  have hinner : run.state.inner.status.isTerminal = true := by
    cases hloaded : run.loaded with
    | true => exact (h.cancelled.2 r run hr hsession hloaded).resolve_right not_mem_nil
    | false =>
      rcases h.sound.owned r run hr hloaded with hended | ⟨i, creation, hi, hstage, hs⟩
      · exact hended
      · exact (h.creations i creation hi (hs.trans hsession) (by rw [hstage]; rfl)).elim
  unfold AgentRun.ended
  rw [(h.sound.journals r run hr).stored.1, hinner]
  rfl

end

section
variable (config : HubConfig) (digest : CreateRunBody → List UInt8) (resultDigest : ToolResultBody → List UInt8)
  (auth : AuthorityTables)

/-- Once a revocation of a session is answered and the creations in flight then have finished, every run of the
session has ended. -/
def RevocationEnds (events : List HubEvent) : Prop :=
  ∀ before middle later, events = before ++ middle ++ later → ∀ s,
    (after config digest resultDigest auth before).Answered s →
    Finished (after config digest resultDigest auth before) (after config digest resultDigest auth (before ++ middle)) →
    ∀ run ∈ (after config digest resultDigest auth events).runs, run.sessionId = s → run.ended = true

theorem revoked_runs_end (honce : (auth.sessions.map (·.id)).Nodup) (events : List HubEvent)
    (hin : Transition.Along (fun hub e => step config digest resultDigest hub e) (fun hub e => hub.inTime e = true)
      (init config auth) events) : RevocationEnds config digest resultDigest auth events := by
  rintro before middle later rfl s hanswered hfinished
  rw [append_assoc, Transition.along_append, Transition.along_append] at hin
  obtain ⟨hbefore, hmiddle, hlater⟩ := hin
  have hsound : (after config digest resultDigest auth before).Sound :=
    Transition.run_inv (I := Sound) (fun _ _ h hin => (step_sound h hin).2) (init_sound honce) hbefore
  obtain ⟨hrevoked, hcancelled⟩ := hanswered.revokes hsound
  have hclosed : Closed s (fun i => ∃ creation, (after config digest resultDigest auth before).creations[i]? =
      some creation ∧ creation.stage.isAnswered = false) (after config digest resultDigest auth before) :=
    ⟨hsound, hrevoked, hcancelled, fun i creation hi _ hopen => ⟨creation, hi, hopen⟩⟩
  have hmid := hclosed.onward hmiddle
  have hnone : Closed s (fun _ => False) (after config digest resultDigest auth (before ++ middle)) := by
    rw [after, Transition.run_append]
    refine ⟨hmid.sound, hmid.revoked, hmid.cancelled, fun i creation' hi' hs hopen' => ?_⟩
    obtain ⟨creation, hi, hopen⟩ := hmid.creations i creation' hi' hs hopen'
    have hanswered' := hfinished i creation creation' hi hopen (by rw [after, Transition.run_append]; exact hi')
    rw [hopen'] at hanswered'
    cases hanswered'
  have hend := hnone.onward (by rw [after, Transition.run_append]; exact hlater)
  rw [after, ← Transition.run_append] at hend
  exact hend.ended

end

/-! ## A late launch -/

def soleSession : AuthorityTables :=
  ⟨[⟨1, none⟩], [⟨1, 1, true, none⟩], [⟨1, 1, 1, 1000000, none⟩], [], ⟨⟨.principal 1, 1, none⟩, false⟩, [], [], [], []⟩

def smallHub : HubConfig := ⟨true, 4, 2, 10, 60000, 60000⟩

def creating : List HubEvent :=
  [.create 1 ⟨"r".toList, "d".toList, "Write.".toList, []⟩ 0, .permit 0 none, .lookup 0, .acquire 0, .transact 0 0]

def launchedFirst : List HubEvent :=
  creating ++ [.launch 0, .run 0 .spawn, .run 0 .start, .revokeRequest 1 none 0, .revoke 0 0, .collect 0,
    .cancelToken 0, .cancelFinalize 0, .answer 0]

theorem launchedFirst_ends : RevocationEnds smallHub (fun _ => []) (fun _ => []) soleSession launchedFirst :=
  revoked_runs_end _ _ _ _ (by decide) _ (by decide +kernel)

def loggedOut : List HubEvent :=
  creating ++ [.revokeRequest 1 none 0, .revoke 0 0, .collect 0, .answer 0]

theorem launchedLast_goes_on :
    ¬ RevocationEnds smallHub (fun _ => []) (fun _ => []) soleSession (loggedOut ++ [.launch 0]) := by
  intro h
  have hrevocations : (after smallHub (fun _ => []) (fun _ => []) soleSession loggedOut).revocations =
      [⟨⟨1, 1, 1, 1000000⟩, none, .answered [1]⟩] := by decide +kernel
  have hanswered : (after smallHub (fun _ => []) (fun _ => []) soleSession loggedOut).Answered 1 :=
    ⟨_, hrevocations ▸ mem_singleton.mpr rfl, [1], rfl, mem_singleton.mpr rfl⟩
  have hcreations : (after smallHub (fun _ => []) (fun _ => []) soleSession (loggedOut ++ [.launch 0])).creations.all
      (·.stage.isAnswered) = true := by decide +kernel
  have hgoes : (after smallHub (fun _ => []) (fun _ => []) soleSession (loggedOut ++ [.launch 0])).runs.any
      (fun run => run.sessionId == 1 && !run.ended) = true := by decide +kernel
  have hends := h loggedOut [.launch 0] [] (append_nil _).symm 1 hanswered fun i creation creation' _ _ hi' =>
    all_eq_true.mp hcreations creation' (mem_of_getElem? hi')
  obtain ⟨run, hmem, hrun⟩ := any_eq_true.mp hgoes
  simp only [Bool.and_eq_true, beq_iff_eq, Bool.not_eq_true'] at hrun
  rw [hends run hmem hrun.1] at hrun
  cases hrun.2

end AgentHub

end Agent

end Marks
