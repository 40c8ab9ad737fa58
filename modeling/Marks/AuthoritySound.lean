import Marks.Rooms

/-! # Authority only grows within an epoch

Every route that takes authority away from someone moves the authorization epoch, and the others only
add to it. What was resolved under an epoch therefore still holds while the epoch stands. -/

namespace Marks

/-! ## Permission and liveness -/

def Permits (auth : AuthorityTables) : RoomActor → Prop
  | .principal actor => ∃ role, auth.principalRole actor.principalId = some role ∧
      authorizeDocumentAction role .editText = true
  | .scratch actor => requireScratchDocument auth.document.record actor.scratchId = true ∨
      auth.document.publicEdit = true

def Bound (auth : AuthorityTables) : RoomActor → Prop
  | .principal actor => ∃ row, auth.loadSession actor.sessionId = some row ∧
      row.principalId = actor.principalId ∧ row.deviceId = actor.deviceId
  | .scratch _ => True

def Live (auth : AuthorityTables) (now : Millis) : RoomActor → Prop
  | .principal actor => ∃ session device principal,
      auth.loadSession actor.sessionId = some session ∧ session.revokedAtMs = none ∧
      now < session.expiresAtMs ∧ session.principalId = actor.principalId ∧
      session.deviceId = actor.deviceId ∧ auth.loadDevice actor.deviceId = some device ∧
      device.revokedAtMs = none ∧ device.principalId = actor.principalId ∧
      auth.loadPrincipal actor.principalId = some principal ∧ principal.disabledAtMs = none
  | .scratch actor => ∃ scratch, auth.loadScratch actor.scratchId = some scratch ∧
      scratch.revokedAtMs = none ∧ scratch.claimedBy = none ∧ now < scratch.expiresAtMs

variable {now : Millis}

variable {actor : RoomActor}

theorem requireLiveActor_live {auth : AuthorityTables}
    (h : Room.requireLiveActor auth (actorReceipt actor).author now = true) (hb : Bound auth actor) :
    Live auth now actor := by
  cases actor with
  | principal actor =>
    obtain ⟨row, hrow, hprincipal, hdevice⟩ := hb
    simp only [Room.requireLiveActor, actorReceipt, Option.bind_some, hrow, Bool.and_eq_true,
      beq_iff_eq, decide_eq_true_eq, Option.isNone_iff_eq_none] at h
    obtain ⟨⟨⟨hrevoked, hexpires⟩, -⟩, hrest⟩ := h
    cases hd : auth.loadDevice row.deviceId with
    | none => rw [hd] at hrest; cases hrest
    | some device =>
      cases hp : auth.loadPrincipal actor.principalId with
      | none => rw [hd, hp] at hrest; cases hrest
      | some principal =>
        rw [hd, hp] at hrest
        simp only [requireActivePrincipal, Bool.and_eq_true, beq_iff_eq,
          Option.isNone_iff_eq_none] at hrest
        obtain ⟨⟨hdr, hdp⟩, hactive⟩ := hrest
        exact ⟨row, device, principal, hrow, hrevoked, hexpires, hprincipal, hdevice,
          hdevice ▸ hd, hdr, hdp, hp, hactive⟩
  | scratch actor =>
    simp only [Room.requireLiveActor, actorReceipt, Option.isNone_none, Bool.and_true] at h
    cases hs : auth.loadScratch actor.scratchId with
    | none => rw [hs] at h; cases h
    | some scratch =>
      rw [hs] at h
      simp only [requireLiveScratch, Bool.and_eq_true, Option.isNone_iff_eq_none,
        decide_eq_true_eq] at h
      exact ⟨scratch, hs, h.1.1, h.1.2, h.2⟩

/-! ## Growing tables -/

/-- The epoch does not go back, nobody loses a permission while it stands, and session rows keep whose
they are. -/
structure Grows (auth auth' : AuthorityTables) : Prop where
  epoch : auth.epoch ≤ auth'.epoch
  permits : auth'.epoch = auth.epoch → ∀ actor, Permits auth actor → Permits auth' actor
  sessions : ∀ id row, auth.loadSession id = some row → ∃ row', auth'.loadSession id = some row' ∧
    row'.principalId = row.principalId ∧ row'.deviceId = row.deviceId

variable {auth auth' auth'' : AuthorityTables}

theorem Grows.refl (auth : AuthorityTables) : Grows auth auth where
  epoch := Nat.le_refl _
  permits := fun _ _ h => h
  sessions := fun _ row h => ⟨row, h, rfl, rfl⟩

theorem Grows.trans (h : Grows auth auth') (h' : Grows auth' auth'') : Grows auth auth'' where
  epoch := Nat.le_trans h.epoch h'.epoch
  permits := by
    intro heq actor hp
    have hle := h.epoch
    have hle' := h'.epoch
    exact h'.permits (by omega) actor (h.permits (by omega) actor hp)
  sessions := by
    intro id row hrow
    obtain ⟨row', hrow', hp, hd⟩ := h.sessions id row hrow
    obtain ⟨row'', hrow'', hp', hd'⟩ := h'.sessions id row' hrow'
    exact ⟨row'', hrow'', hp'.trans hp, hd'.trans hd⟩

theorem grows_same (hd : auth'.document = auth.document) (ha : auth'.acl = auth.acl)
    (hs : auth'.sessions = auth.sessions) : Grows auth auth' where
  epoch := by
    unfold AuthorityTables.epoch
    rw [hd]
  permits := by
    intro _ actor hp
    cases actor with
    | principal actor =>
      have hrole : auth'.principalRole actor.principalId = auth.principalRole actor.principalId := by
        unfold AuthorityTables.principalRole
        rw [hd, ha]
      obtain ⟨role, hrole', hedit⟩ := hp
      exact ⟨role, hrole.trans hrole', hedit⟩
    | scratch actor =>
      simp only [Permits, hd]
      exact hp
  sessions := by
    intro id row hrow
    refine ⟨row, ?_, rfl, rfl⟩
    unfold AuthorityTables.loadSession
    rw [hs]
    exact hrow

theorem grows_bumped (he : auth.epoch < auth'.epoch) (hs : auth'.sessions = auth.sessions) :
    Grows auth auth' where
  epoch := Nat.le_of_lt he
  permits := fun heq => absurd heq (by omega)
  sessions := by
    intro id row hrow
    refine ⟨row, ?_, rfl, rfl⟩
    unfold AuthorityTables.loadSession
    rw [hs]
    exact hrow

theorem grows_sessions {f : SessionRecord → SessionRecord}
    (hf : ∀ row, (f row).id = row.id ∧ (f row).principalId = row.principalId ∧
      (f row).deviceId = row.deviceId)
    (hd : auth'.document = auth.document) (ha : auth'.acl = auth.acl)
    (hs : auth'.sessions = auth.sessions.map f) : Grows auth auth' := by
  have hsame : Grows auth { auth' with sessions := auth.sessions } := grows_same hd ha rfl
  refine ⟨hsame.epoch, ?_, fun id row hrow => ?_⟩
  · intro heq actor hp
    have hp' := hsame.permits heq actor hp
    cases actor with
    | principal actor => exact hp'
    | scratch actor => exact hp'
  · refine ⟨f row, ?_, (hf row).2.1, (hf row).2.2⟩
    unfold AuthorityTables.loadSession at hrow ⊢
    have hid : (fun r : SessionRecord => r.id == id) ∘ f = fun r => r.id == id := by
      funext r
      simp only [Function.comp, (hf r).1]
    rw [hs, List.find?_map, hid, hrow]
    rfl

theorem grows_insertSession {row : SessionRecord} (hd : auth'.document = auth.document)
    (ha : auth'.acl = auth.acl) (hs : auth'.sessions = auth.sessions ++ [row]) : Grows auth auth' := by
  have hsame : Grows auth { auth' with sessions := auth.sessions } := grows_same hd ha rfl
  refine ⟨hsame.epoch, ?_, fun id found hfound => ?_⟩
  · intro heq actor hp
    have hp' := hsame.permits heq actor hp
    cases actor with
    | principal actor => exact hp'
    | scratch actor => exact hp'
  · refine ⟨found, ?_, rfl, rfl⟩
    unfold AuthorityTables.loadSession at hfound ⊢
    rw [hs, List.find?_append, hfound, Option.some_or]

/-! ## Held actors -/

/-- An actor held under an epoch: if that is still the document's, what the actor may do is granted by
the tables as they are. -/
structure Held (auth : AuthorityTables) (under : Nat) (actor : RoomActor) : Prop where
  epoch : under ≤ auth.epoch
  bound : Bound auth actor
  permits : under = auth.epoch → authorizeRoomAction actor .editText = true → Permits auth actor

theorem Held.grows {under : Nat} (h : Held auth under actor)
    (hg : Grows auth auth') : Held auth' under actor where
  epoch := Nat.le_trans h.epoch hg.epoch
  bound := by
    cases actor with
    | scratch actor => trivial
    | principal actor =>
      obtain ⟨row, hrow, hp, hd⟩ := h.bound
      obtain ⟨row', hrow', hp', hd'⟩ := hg.sessions _ row hrow
      exact ⟨row', hrow', hp'.trans hp, hd'.trans hd⟩
  permits := by
    intro heq hedit
    have hle := h.epoch
    have hle' := hg.epoch
    exact hg.permits (by omega) actor (h.permits (by omega) hedit)

def ticketActor (ticket : TicketRecord) : RoomActor :=
  match ticket.authority with
  | .principal principalId sessionId deviceId role =>
    .principal ⟨principalId, sessionId, deviceId, ticket.esbtSite, role, ticket.authorizationEpoch⟩
  | .scratch id => .scratch ⟨id, ticket.esbtSite, ticket.authorizationEpoch⟩

theorem ticketActor_epoch (ticket : TicketRecord) :
    (ticketActor ticket).authorizationEpoch = ticket.authorizationEpoch := by
  unfold ticketActor
  cases ticket.authority <;> rfl

def TicketsHeld (auth : AuthorityTables) : Prop :=
  ∀ ticket ∈ auth.tickets, Held auth ticket.authorizationEpoch (ticketActor ticket)

def CallerBound (auth : AuthorityTables) : Caller → Prop
  | .principal session => ∃ row, auth.loadSession session.id = some row ∧
      row.principalId = session.principalId ∧ row.deviceId = session.deviceId
  | .scratch _ => True

theorem CallerBound.grows {caller : Caller} (h : CallerBound auth caller) (hg : Grows auth auth') :
    CallerBound auth' caller := by
  cases caller with
  | scratch id => trivial
  | principal session =>
    obtain ⟨row, hrow, hp, hd⟩ := h
    obtain ⟨row', hrow', hp', hd'⟩ := hg.sessions _ row hrow
    exact ⟨row', hrow', hp'.trans hp, hd'.trans hd⟩

theorem ticketsHeld_map {f : TicketRecord → TicketRecord} (h : TicketsHeld auth) (hg : Grows auth auth')
    (hf : ∀ ticket, (f ticket).authority = ticket.authority ∧ (f ticket).esbtSite = ticket.esbtSite ∧
      (f ticket).authorizationEpoch = ticket.authorizationEpoch)
    (ht : auth'.tickets = auth.tickets.map f) : TicketsHeld auth' := by
  intro ticket hmem
  rw [ht] at hmem
  obtain ⟨old, hold, rfl⟩ := List.mem_map.mp hmem
  have hactor : ticketActor (f old) = ticketActor old := by
    unfold ticketActor
    rw [(hf old).1, (hf old).2.1, (hf old).2.2]
  rw [hactor, (hf old).2.2]
  exact (h old hold).grows hg

theorem ticketsHeld_same (h : TicketsHeld auth) (hg : Grows auth auth')
    (ht : auth'.tickets = auth.tickets) : TicketsHeld auth' :=
  ticketsHeld_map (f := fun ticket => ticket) h hg (fun _ => ⟨rfl, rfl, rfl⟩)
    (by rw [ht, List.map_id'])

variable {ticket : TicketRecord}

theorem ticketsHeld_insert (h : TicketsHeld auth) (hg : Grows auth auth')
    (hn : Held auth' ticket.authorizationEpoch (ticketActor ticket))
    (ht : auth'.tickets = auth.tickets ++ [ticket]) : TicketsHeld auth' := by
  intro other hmem
  rw [ht] at hmem
  rcases List.mem_append.mp hmem with hmem | hmem
  · exact (h other hmem).grows hg
  · rw [List.mem_singleton.mp hmem]
    exact hn

/-! ## The routes -/

variable {requested : Option SiteId} {site : SiteId}

theorem allocateSite_same {authority : SiteAuthority}
    (h : allocateSite auth requested authority = .ok (auth', site)) :
    ∃ sites, auth' = { auth with sites } := by
  unfold allocateSite at h
  split at h
  · split at h
    · cases h
      exact ⟨auth.sites, rfl⟩
    · cases h
  · split at h
    · cases h
      exact ⟨_, rfl⟩
    · cases h

theorem insertTicket_ok (h : insertTicket auth ticket = .ok auth') :
    auth' = { auth with tickets := auth.tickets ++ [ticket] } := by
  unfold insertTicket at h
  split at h
  · cases h
  · exact (Except.ok.inj h).symm

theorem upsertAcl_document (id : PrincipalId) (role : DocumentRole) :
    (upsertAcl auth id role).document = auth.document ∧
      (upsertAcl auth id role).sessions = auth.sessions := by
  unfold upsertAcl
  split <;> exact ⟨rfl, rfl⟩

variable {mid : AuthorityTables}

theorem bumpEpoch_grows (hd : mid.document = auth.document)
    (hs : mid.sessions = auth.sessions) (now : Millis) : Grows auth (bumpEpoch mid now) := by
  refine grows_bumped ?_ hs
  show auth.document.record.authorizationEpoch < mid.document.record.authorizationEpoch + 1
  rw [hd]
  exact Nat.lt_succ_self _

theorem find_upsert_other {id other : PrincipalId} {role : DocumentRole} (hne : other ≠ id) :
    ((upsertAcl auth id role).acl.find? fun row => row.principalId == other && row.revokedAtMs.isNone) =
      auth.acl.find? fun row => row.principalId == other && row.revokedAtMs.isNone := by
  unfold upsertAcl
  split
  · simp only [List.find?_map]
    have hp : ((fun row : DocumentAclRecord => row.principalId == other && row.revokedAtMs.isNone) ∘
        fun row => if row.principalId = id then { row with role, revokedAtMs := none } else row) =
        fun row => row.principalId == other && row.revokedAtMs.isNone := by
      funext row
      by_cases hid : row.principalId = id
      · have hother : (id == other) = false := by simpa using fun h => hne h.symm
        simp [Function.comp, hid, hother]
      · simp only [Function.comp, if_neg hid]
    rw [hp]
    cases hf : auth.acl.find? fun row => row.principalId == other && row.revokedAtMs.isNone with
    | none => rfl
    | some row =>
      have hrow := List.find?_some hf
      have hid : row.principalId ≠ id := by
        intro heq
        rw [heq] at hrow
        simp only [Bool.and_eq_true, beq_iff_eq] at hrow
        exact hne hrow.1.symm
      rw [Option.map_some, if_neg hid]
  · have hother : (id == other) = false := by simpa using fun h => hne h.symm
    rw [List.find?_append]
    simp [hother]

theorem permits_public (h : auth.document.publicEdit = true) (id : PrincipalId) :
    ∃ role, auth.principalRole id = some role ∧ authorizeDocumentAction role .editText = true := by
  unfold AuthorityTables.principalRole
  cases resolveDocumentRole auth.document.record id auth.acl with
  | none => exact ⟨.editor, by simp only [h, if_true], rfl⟩
  | some role =>
    refine ⟨applyPublicEditorFloor role auth.document.publicEdit, rfl, ?_⟩
    rw [h]
    cases role <;> rfl

theorem public_of_rowless {actor : Actor} (h : Permits auth (.principal actor))
    (howner : auth.document.record.owner ≠ .principal actor.principalId)
    (hfind : auth.acl.find? (fun row => row.principalId == actor.principalId && row.revokedAtMs.isNone) =
      none) : auth.document.publicEdit = true := by
  obtain ⟨role, hrole, -⟩ := h
  have hnone : resolveDocumentRole auth.document.record actor.principalId auth.acl = none := by
    unfold resolveDocumentRole
    split
    · rfl
    cases ho : auth.document.record.owner with
    | scratch id => rfl
    | principal owner =>
      have hne : owner ≠ actor.principalId := by
        intro heq
        rw [heq] at ho
        exact howner ho
      simp only [if_neg hne, hfind, Option.map_none]
  unfold AuthorityTables.principalRole at hrole
  rw [hnone] at hrole
  by_contra hp
  simp only [if_neg hp] at hrole
  cases hrole

theorem linkRedeem_grows {caller : AuthenticatedSession} {tokenHash : Bytes}
    (h : linkRedeem auth caller tokenHash now = .ok auth') : Grows auth auth' := by
  unfold linkRedeem at h
  split at h
  · cases h
  split at h
  · cases h
  rename_i role hrole
  split at h
  · rw [← Except.ok.inj h]
    exact Grows.refl auth
  rename_i howner
  split at h
  · rw [← Except.ok.inj h]
    exact Grows.refl auth
  rename_i hnone
  obtain ⟨hdoc, hses⟩ := upsertAcl_document caller.principalId role
  rw [← Except.ok.inj h]
  have hfind : auth.acl.find? (fun row => row.principalId == caller.principalId &&
      row.revokedAtMs.isNone) = none := by
    refine List.find?_eq_none.mpr fun row hrow hlive => hnone ?_
    exact List.any_eq_true.mpr ⟨row, hrow, hlive⟩
  refine ⟨?_, ?_, ?_⟩
  · unfold AuthorityTables.epoch
    rw [hdoc]
  · intro _ actor hp
    cases actor with
    | scratch actor =>
      simp only [Permits, hdoc]
      exact hp
    | principal actor =>
      by_cases hself : actor.principalId = caller.principalId
      · -- the caller had no live row, so what it had came from the public floor
        apply permits_public
        rw [hdoc]
        exact public_of_rowless hp (hself ▸ howner) (hself ▸ hfind)
      · have hrole : (upsertAcl auth caller.principalId role).principalRole actor.principalId =
            auth.principalRole actor.principalId := by
          unfold AuthorityTables.principalRole resolveDocumentRole
          rw [hdoc, find_upsert_other hself]
        obtain ⟨known, hknown, hedit⟩ := hp
        exact ⟨known, hrole.trans hknown, hedit⟩
  · intro id row hrow
    refine ⟨row, ?_, rfl, rfl⟩
    unfold AuthorityTables.loadSession
    rw [hses]
    exact hrow

theorem bumpEpoch_step (h : TicketsHeld auth) (hd : mid.document = auth.document)
    (hs : mid.sessions = auth.sessions) (ht : mid.tickets = auth.tickets) (now : Millis) :
    Grows auth (bumpEpoch mid now) ∧ TicketsHeld (bumpEpoch mid now) := by
  have hg := bumpEpoch_grows hd hs now
  refine ⟨hg, ticketsHeld_map h hg (f := fun ticket =>
    if ticket.consumedAtMs = none ∧ ticket.revokedAtMs = none then { ticket with revokedAtMs := some now }
    else ticket) (fun ticket => ?_) ?_⟩
  · split <;> exact ⟨rfl, rfl, rfl⟩
  · rw [← ht]
    rfl

variable {secretHash : Bytes}

variable {id : TicketId} {session : AuthenticatedSession}

/-- A session that was given out: a site from the allocator, and a ticket for it behind the others. -/
theorem principalRoomSession_ok
    (h : principalRoomSession auth session requested id secretHash now = .ok (auth', site)) :
    ∃ role sites ticket, auth.principalRole session.principalId = some role ∧
      allocateSite auth requested (.principal session.principalId session.deviceId) =
        .ok ({ auth with sites }, site) ∧
      issuePrincipalTicket { auth with sites } id secretHash session role site now = .ok ticket ∧
      auth' = { auth with sites, tickets := auth.tickets ++ [ticket] } := by
  unfold principalRoomSession at h
  split at h
  · cases h
  split at h
  · next role hrole =>
    split at h
    · cases h
    next allocated =>
    obtain ⟨sites, rfl⟩ := allocateSite_same allocated
    split at h
    · cases h
    next ticket issued =>
    split at h
    · cases h
    next inserted =>
    cases h
    obtain ⟨found, hfound, hsome⟩ := Option.map_eq_some_iff.mp hrole
    exact ⟨role, sites, ticket, hfound.trans hsome, allocated, issued, insertTicket_ok inserted⟩
  · cases h

theorem principalRoomSession_step
    (h : TicketsHeld auth)
    (hc : CallerBound auth (.principal session))
    (hok : principalRoomSession auth session requested id secretHash now = .ok (auth', site)) :
    Grows auth auth' ∧ TicketsHeld auth' := by
  obtain ⟨role, sites, ticket, hrole, -, hi, rfl⟩ := principalRoomSession_ok hok
  have hg : Grows auth { auth with sites, tickets := auth.tickets ++ [ticket] } := grows_same rfl rfl rfl
  refine ⟨hg, ticketsHeld_insert h hg ?_ rfl⟩
  have hheld : ∀ granted, auth.principalRole session.principalId = some granted →
      Held auth auth.epoch (.principal
        ⟨session.principalId, session.id, session.deviceId, site, granted, auth.epoch⟩) := by
    intro granted hgranted
    exact ⟨Nat.le_refl _, hc, fun _ hedit => ⟨granted, hgranted, hedit⟩⟩
  refine Held.grows ?_ hg
  unfold issuePrincipalTicket at hi
  simp only at hi
  split at hi
  · cases hi
  cases ho : auth.document.record.owner with
  | principal owner =>
    rw [ho] at hi
    cases hi
    exact hheld role hrole
  | scratch owner =>
    rw [ho] at hi
    simp only at hi
    split at hi
    · rename_i hpublic
      cases hi
      apply hheld .editor
      have hnone : resolveDocumentRole auth.document.record session.principalId auth.acl = none := by
        unfold resolveDocumentRole
        rw [ho]
        split <;> rfl
      unfold AuthorityTables.principalRole
      rw [hnone]
      simp only [if_pos hpublic]
    · cases hi

theorem issueScratchTicket_ok {scratch : ScratchRecord}
    {role : Option DocumentRole}
    (h : issueScratchTicket auth id secretHash scratch role site now = .ok ticket) :
    (requireScratchDocument auth.document.record scratch.id = true ∨ auth.document.publicEdit = true) ∧
      ticket = ⟨id, secretHash, .scratch scratch.id, site, auth.epoch, now + documentTicketTtlMs, none,
        none⟩ := by
  unfold issueScratchTicket at h
  by_cases hrole : role = some .editor
  · simp only [if_pos hrole] at h
    split at h
    · rename_i hallowed
      simp only [Bool.and_eq_true] at hallowed
      exact ⟨Or.inr hallowed.1.2, (Except.ok.inj h).symm⟩
    · cases h
  · simp only [if_neg hrole] at h
    split at h
    · rename_i hallowed
      exact ⟨Or.inl hallowed.1, (Except.ok.inj h).symm⟩
    · cases h

variable {scratchId : ScratchId}

theorem scratchRoomSession_ok
    (h : scratchRoomSession auth scratchId requested id secretHash now = .ok (auth', site)) :
    ∃ scratch role sites ticket, auth.loadScratch scratchId = some scratch ∧
      allocateSite auth requested (.scratch scratchId) = .ok ({ auth with sites }, site) ∧
      issueScratchTicket { auth with sites } id secretHash scratch role site now = .ok ticket ∧
      auth' = { auth with sites, tickets := auth.tickets ++ [ticket] } := by
  unfold scratchRoomSession at h
  split at h
  · cases h
  split at h
  · cases h
  next scratch loaded =>
  split at h
  · cases h
  next role _ =>
  split at h
  · cases h
  next allocated =>
  obtain ⟨sites, rfl⟩ := allocateSite_same allocated
  split at h
  · cases h
  next ticket issued =>
  split at h
  · cases h
  · next inserted =>
    cases h
    exact ⟨scratch, role, sites, ticket, loaded, allocated, issued, insertTicket_ok inserted⟩

theorem scratchRoomSession_step
    (h : TicketsHeld auth)
    (hok : scratchRoomSession auth scratchId requested id secretHash now = .ok (auth', site)) :
    Grows auth auth' ∧ TicketsHeld auth' := by
  obtain ⟨scratch, role, sites, ticket, -, -, hi, rfl⟩ := scratchRoomSession_ok hok
  have hg : Grows auth { auth with sites, tickets := auth.tickets ++ [ticket] } := grows_same rfl rfl rfl
  refine ⟨hg, ticketsHeld_insert h hg ?_ rfl⟩
  refine Held.grows ?_ hg
  obtain ⟨hpermits, rfl⟩ := issueScratchTicket_ok hi
  exact ⟨Nat.le_refl _, trivial, fun _ _ => hpermits⟩

theorem claimScratchDocuments_step (h : TicketsHeld auth) (scratchId : ScratchId)
    (principalId : PrincipalId) (device : DeviceId) (now : Millis) :
    Grows auth (claimScratchDocuments auth scratchId principalId device now) ∧
      TicketsHeld (claimScratchDocuments auth scratchId principalId device now) := by
  unfold claimScratchDocuments
  split
  · have hepoch : ∀ mid : AuthorityTables, mid.document = auth.document → mid.sessions = auth.sessions →
        mid.tickets = auth.tickets → ∀ sites acl,
          let claimed := { bumpEpoch mid now with
            document := ⟨⟨.principal principalId, auth.epoch + 1, auth.document.record.deletedAtMs⟩,
              auth.document.publicEdit⟩
            sites := sites
            acl := acl }
          Grows auth claimed ∧ TicketsHeld claimed := by
      intro mid hd hs ht sites acl
      have hg : Grows auth { bumpEpoch mid now with
          document := ⟨⟨.principal principalId, auth.epoch + 1, auth.document.record.deletedAtMs⟩,
            auth.document.publicEdit⟩
          sites := sites
          acl := acl } := grows_bumped (Nat.lt_succ_self _) hs
      refine ⟨hg, ticketsHeld_map h hg (f := fun ticket =>
        if ticket.consumedAtMs = none ∧ ticket.revokedAtMs = none then
          { ticket with revokedAtMs := some now }
        else ticket) (fun ticket => ?_) ?_⟩
      · split <;> exact ⟨rfl, rfl, rfl⟩
      · rw [← ht]
        rfl
    simp only
    split
    · exact hepoch auth rfl rfl rfl _ _
    · exact hepoch auth rfl rfl rfl _ _
  · exact ⟨Grows.refl auth, h⟩

theorem persistScratchClaim_step {principalId : PrincipalId}
    (h : TicketsHeld auth) (hok : persistScratchClaim auth scratchId principalId now = .ok auth') :
    Grows auth auth' ∧ TicketsHeld auth' := by
  unfold persistScratchClaim at hok
  split at hok
  · cases hok
  split at hok
  · cases hok
  split at hok
  · split at hok
    · cases hok
      exact ⟨Grows.refl auth, h⟩
    · cases hok
  · cases hok
    have hg : Grows auth { auth with scratches := auth.scratches.map fun row =>
        if row.id = scratchId ∧ row.claimedBy = none then { row with claimedBy := some principalId }
        else row } := grows_same rfl rfl rfl
    exact ⟨hg, ticketsHeld_same h hg rfl⟩

theorem route_step {route : Route} (h : TicketsHeld auth)
    (hc : ∀ caller, route.caller = some caller → CallerBound auth caller)
    (hok : route.apply auth = .ok auth') : Grows auth auth' ∧ TicketsHeld auth' := by
  have hsame : ∀ {next : AuthorityTables}, next.document = auth.document → next.acl = auth.acl →
      next.sessions = auth.sessions → next.tickets = auth.tickets → Grows auth next ∧ TicketsHeld next := by
    intro next hd ha hs ht
    have hg := grows_same hd ha hs
    exact ⟨hg, ticketsHeld_same h hg ht⟩
  have hbump : ∀ {mid : AuthorityTables} {now : Millis}, mid.document = auth.document →
      mid.sessions = auth.sessions → mid.tickets = auth.tickets → auth' = bumpEpoch mid now →
        Grows auth auth' ∧ TicketsHeld auth' := by
    intro mid now hd hs ht heq
    rw [heq]
    exact bumpEpoch_step h hd hs ht now
  cases route with
  | insertPrincipal id =>
    simp only [Route.apply, insertPrincipal] at hok
    split at hok
    · cases hok
    · rw [← Except.ok.inj hok]
      exact hsame rfl rfl rfl rfl
  | insertDevice id principalId revokeDevices =>
    simp only [Route.apply, insertDevice] at hok
    split at hok
    · cases hok
    · rw [← Except.ok.inj hok]
      exact hsame rfl rfl rfl rfl
  | insertSession id principalId deviceId expiresAtMs =>
    simp only [Route.apply, insertSession] at hok
    split at hok
    · cases hok
    rw [← Except.ok.inj hok]
    have hg : Grows auth { auth with
        sessions := auth.sessions ++ [⟨id, principalId, deviceId, expiresAtMs, none⟩] } :=
      grows_insertSession rfl rfl rfl
    exact ⟨hg, ticketsHeld_same h hg rfl⟩
  | scratchCreate id expiresAtMs =>
    simp only [Route.apply, scratchCreate] at hok
    split at hok
    · cases hok
    · rw [← Except.ok.inj hok]
      exact hsame rfl rfl rfl rfl
  | rotateSession caller expiresAtMs =>
    rw [← Except.ok.inj hok]
    have hg : Grows auth (rotateSession auth caller.id expiresAtMs) := by
      refine grows_sessions (fun row => ?_) rfl rfl rfl
      split <;> exact ⟨rfl, rfl, rfl⟩
    exact ⟨hg, ticketsHeld_same h hg rfl⟩
  | sessionDelete caller now =>
    rw [← Except.ok.inj hok]
    have hg : Grows auth (sessionDelete auth caller.id now) := by
      refine grows_sessions (fun row => ?_) rfl rfl rfl
      split <;> exact ⟨rfl, rfl, rfl⟩
    exact ⟨hg, ticketsHeld_same h hg rfl⟩
  | deviceRevoke caller target now =>
    simp only [Route.apply, deviceRevoke] at hok
    split at hok
    · cases hok
    · cases hok
    split at hok
    · cases hok
    rename_i actor device _ _ _
    rw [← Except.ok.inj hok]
    have hg : Grows auth { auth with
        devices := auth.devices.map fun row =>
          if row.id = device.id ∧ row.revokedAtMs = none then { row with revokedAtMs := some now }
          else row
        sessions := auth.sessions.map fun row =>
          if row.deviceId = device.id ∧ row.revokedAtMs = none then
            { row with revokedAtMs := some now }
          else row } := by
      refine grows_sessions (fun row => ?_) rfl rfl rfl
      split <;> exact ⟨rfl, rfl, rfl⟩
    exact ⟨hg, ticketsHeld_same h hg rfl⟩
  | sharePut caller grantee role now =>
    simp only [Route.apply, sharePut] at hok
    split at hok
    · cases hok
    split at hok
    · cases hok
    split at hok
    · cases hok
    split at hok
    · cases hok
    refine hbump (upsertAcl_document grantee role).1
      (upsertAcl_document grantee role).2 ?_ (Except.ok.inj hok).symm
    unfold upsertAcl
    split <;> rfl
  | shareDelete caller grantee now =>
    simp only [Route.apply, shareDelete] at hok
    split at hok
    · cases hok
    · refine hbump ?_ ?_ ?_ (Except.ok.inj hok).symm <;> rfl
  | linkCreate caller role tokenHash ttl now =>
    simp only [Route.apply, linkCreate] at hok
    split at hok
    · cases hok
    · split at hok
      · cases hok
      · refine hbump ?_ ?_ ?_ (Except.ok.inj hok).symm <;> rfl
  | linkRevoke caller now =>
    simp only [Route.apply, linkRevoke] at hok
    split at hok
    · cases hok
    · refine hbump ?_ ?_ ?_ (Except.ok.inj hok).symm <;> rfl
  | linkRedeem caller tokenHash now =>
    have hg := linkRedeem_grows hok
    refine ⟨hg, ticketsHeld_same h hg ?_⟩
    simp only [Route.apply, linkRedeem] at hok
    split at hok
    · cases hok
    split at hok
    · cases hok
    split at hok
    · rw [← Except.ok.inj hok]
    split at hok
    · rw [← Except.ok.inj hok]
    · rw [← Except.ok.inj hok]
      unfold upsertAcl
      split <;> rfl
  | delete caller now =>
    simp only [Route.apply, deleteDocument] at hok
    split at hok
    · cases hok
    have heq := (Except.ok.inj hok).symm
    have hg : Grows auth auth' := by
      rw [heq]
      exact grows_bumped (Nat.lt_succ_self _) rfl
    refine ⟨hg, ticketsHeld_map h hg (f := fun ticket =>
      if ticket.consumedAtMs = none ∧ ticket.revokedAtMs = none then
        { ticket with revokedAtMs := some now }
      else ticket) (fun ticket => ?_) ?_⟩
    · split <;> exact ⟨rfl, rfl, rfl⟩
    · rw [heq]
      rfl
  | restore caller =>
    simp only [Route.apply, restoreDocument] at hok
    split at hok
    · cases hok
    split at hok
    · rw [← Except.ok.inj hok]
      have hg : Grows auth (setRecord auth { auth.document.record with
          deletedAtMs := none, authorizationEpoch := auth.epoch + 1 }) :=
        grows_bumped (Nat.lt_succ_self _) rfl
      exact ⟨hg, ticketsHeld_same h hg rfl⟩
    · cases hok
  | claim scratchId principalId deviceId now =>
    obtain ⟨hg, ht⟩ := claimScratchDocuments_step h scratchId principalId deviceId now
    obtain ⟨hg', ht'⟩ := persistScratchClaim_step ht hok
    exact ⟨hg.trans hg', ht'⟩
  | principalSession caller requested id secretHash now =>
    simp only [Route.apply] at hok
    cases hr : principalRoomSession auth caller requested id secretHash now with
    | error error => rw [hr] at hok; exact absurd hok (by simp [Except.map])
    | ok result =>
      rw [hr] at hok
      have heq : result.1 = auth' := Except.ok.inj hok
      rw [← heq]
      exact principalRoomSession_step h (hc _ rfl) hr
  | scratchSession scratchId requested id secretHash now =>
    simp only [Route.apply] at hok
    cases hr : scratchRoomSession auth scratchId requested id secretHash now with
    | error error => rw [hr] at hok; exact absurd hok (by simp [Except.map])
    | ok result =>
      rw [hr] at hok
      have heq : result.1 = auth' := Except.ok.inj hok
      rw [← heq]
      exact scratchRoomSession_step h hr

variable {cookie : Option AuthenticatedSession}

theorem redeemed_actor
    (h : (match ticket.authority with
      | .principal .. => cookie.bind fun session => redeemPrincipalTicket auth ticket session now
      | .scratch _ => redeemScratchTicket auth ticket now) = some actor) :
    actor = ticketActor ticket := by
  unfold ticketActor
  cases ha : ticket.authority with
  | principal principalId sessionId deviceId role =>
    rw [ha] at h
    obtain ⟨session, -, hredeem⟩ := Option.bind_eq_some_iff.mp h
    unfold redeemPrincipalTicket at hredeem
    rw [ha] at hredeem
    exact (Option.some.inj (Option.ite_none_right_eq_some.mp hredeem).2).symm
  | scratch id =>
    rw [ha] at h
    simp only [redeemScratchTicket, ha] at h
    split at h
    · cases h
    · split at h
      · exact (Option.some.inj h).symm
      · cases h

theorem admitTicket_step {ticketId : TicketId} {secretMatches : Bool}
    (h : TicketsHeld auth)
    (hok : admitTicket auth ticketId secretMatches cookie now = .ok (auth', actor)) :
    Grows auth auth' ∧ TicketsHeld auth' ∧ Held auth' actor.authorizationEpoch actor := by
  unfold admitTicket at hok
  cases hl : auth.loadTicket ticketId with
  | none => rw [hl] at hok; cases hok
  | some ticket =>
    rw [hl] at hok
    simp only at hok
    split at hok
    · cases hok
    split at hok
    · cases hok
    split at hok
    · cases hok
    rename_i redeemed hredeemed
    obtain ⟨hauth, hactor⟩ := Prod.mk.inj (Except.ok.inj hok)
    have hg : Grows auth auth' := by
      rw [← hauth]
      exact grows_same rfl rfl rfl
    refine ⟨hg, ?_, ?_⟩
    · refine ticketsHeld_map h hg (f := fun row =>
        if row.id = ticketId then { row with consumedAtMs := some now } else row) (fun row => ?_) ?_
      · split <;> exact ⟨rfl, rfl, rfl⟩
      · rw [← hauth]
    · rw [← hactor, redeemed_actor hredeemed, ticketActor_epoch]
      exact (h ticket (List.mem_of_find?_eq_some hl)).grows hg

end Marks
