import Mathlib.Data.List.Induction
import Mathlib.Data.List.Nodup
import Marks.Results
import Marks.Tickets

/-! # A room ticket admits once

A ticket's row keeps what it was minted for, whatever routes run; an admission consumes the row in the
transaction that validates it. So no ticket admits twice, and an admitted actor is the one of the mint. -/

namespace Marks.Tickets

open List

/-! ## What is to be kept -/

def TicketLog.admits (id : TicketId) : TicketLog → Bool
  | .admitted admission => admission.ticket.id == id
  | _ => false

def grants : Caller → Option DocumentRole → TicketAuthority → Prop
  | .principal session, some role, authority =>
    authority = .principal session.principalId session.id session.deviceId role
  | .scratch id, none, authority => authority = .scratch id
  | _, _, _ => False

structure MintedAs (log : List TicketLog) (ticket : DocumentTicketRecord) (caller : Caller)
    (role : Option DocumentRole) (minted : DocumentTicketRecord) : Prop where
  logged : .minted caller ticket.documentId ticket.esbtSite role minted ∈ log
  id : minted.id = ticket.id
  epoch : minted.authorizationEpoch = ticket.authorizationEpoch
  expiry : minted.expiresAtMs = ticket.expiresAtMs
  granted : grants caller role ticket.authority

structure ActsAsSession (admission : Admission) (session : AuthenticatedSession) (role : DocumentRole) : Prop where
  presented : ∃ cookie, admission.attempt.cookie = some cookie ∧ admission.attempt.now < cookie.expiresAtMs ∧
    cookie.principalId = session.principalId ∧ cookie.id = session.id ∧ cookie.deviceId = session.deviceId
  actor : admission.actor = ⟨admission.document.id, .principal ⟨session.principalId, session.id, session.deviceId,
    admission.ticket.esbtSite, role, admission.document.row.record.authorizationEpoch⟩⟩

structure ActsAsScratch (office : TicketOffice) (admission : Admission) (id : ScratchId) : Prop where
  presented : ∃ row, admission.scratch = some row ∧ office.loadScratch id = some row ∧ row.revokedAtMs = none ∧
    row.claimedBy = none ∧ admission.attempt.now < row.expiresAtMs
  actor : admission.actor = ⟨admission.document.id, .scratch ⟨id, admission.ticket.esbtSite,
    admission.document.row.record.authorizationEpoch⟩⟩

def ActsFor (office : TicketOffice) (admission : Admission) : Caller → Option DocumentRole → Prop
  | .principal session, some role => ActsAsSession admission session role
  | .scratch id, none => ActsAsScratch office admission id
  | _, _ => False

/-- What an admitting transaction finds in the store. -/
structure Admits (office : TicketOffice) (admission : Admission) : Prop where
  ticket : office.loadTicket admission.attempt.ticketId = some admission.ticket
  document : office.loadDocument admission.attempt.documentId = some admission.document
  unconsumed : admission.ticket.consumedAtMs = none
  unrevoked : admission.ticket.revokedAtMs = none
  unexpired : admission.attempt.now < admission.ticket.expiresAtMs
  clock : admission.clock = office.clock
  arrived : admission.attempt.now ≤ admission.clock
  live : admission.document.row.record.deletedAtMs = none
  ofDocument : admission.ticket.documentId = admission.document.id
  epoch : admission.ticket.authorizationEpoch = admission.document.row.record.authorizationEpoch
  minted : ∃ caller role minted, MintedAs office.log admission.ticket caller role minted ∧
    ActsFor office admission caller role

structure Issued (office : TicketOffice) : Prop where
  distinct : (office.tickets.map (·.id)).Nodup
  supplied : ∀ ticket ∈ office.tickets, ticket.id < office.drawn
  minted : ∀ ticket ∈ office.tickets, ∃ caller role minted, MintedAs office.log ticket caller role minted
  used : ∀ admission, .admitted admission ∈ office.log → admission.ticket.id < office.drawn ∧
    ∀ ticket ∈ office.tickets, ticket.id = admission.ticket.id → ticket.consumedAtMs ≠ none
  once : ∀ id, office.log.countP (·.admits id) ≤ 1
  arrived : ∀ attempt ∈ office.attempts, attempt.now ≤ office.clock

/-! ## Routes that neither mint nor admit -/

structure SameTicket (ticket later : DocumentTicketRecord) : Prop where
  id : later.id = ticket.id
  documentId : later.documentId = ticket.documentId
  esbtSite : later.esbtSite = ticket.esbtSite
  authority : later.authority = ticket.authority
  epoch : later.authorizationEpoch = ticket.authorizationEpoch
  expiry : later.expiresAtMs = ticket.expiresAtMs
  consumed : ticket.consumedAtMs ≠ none → later.consumedAtMs ≠ none

theorem SameTicket.refl (ticket : DocumentTicketRecord) : SameTicket ticket ticket :=
  ⟨rfl, rfl, rfl, rfl, rfl, rfl, fun h => h⟩

variable {caller : Caller}

theorem MintedAs.later {log log' : List TicketLog} {ticket later minted : DocumentTicketRecord}
    {role : Option DocumentRole} (h : MintedAs log ticket caller role minted) (hs : SameTicket ticket later)
    (hl : log ⊆ log') : MintedAs log' later caller role minted where
  logged := by
    rw [hs.documentId, hs.esbtSite]
    exact hl h.logged
  id := h.id.trans hs.id.symm
  epoch := h.epoch.trans hs.epoch.symm
  expiry := h.expiry.trans hs.expiry.symm
  granted := by
    rw [hs.authority]
    exact h.granted

structure Remain (tickets later : List DocumentTicketRecord) : Prop where
  ids : (later.map (·.id)).Sublist (tickets.map (·.id))
  rows : ∀ row ∈ later, ∃ ticket ∈ tickets, SameTicket ticket row

theorem Remain.refl (tickets : List DocumentTicketRecord) : Remain tickets tickets :=
  ⟨List.Sublist.refl _, fun ticket hm => ⟨ticket, hm, .refl ticket⟩⟩

variable {tickets : List DocumentTicketRecord}

theorem remain_map {f : DocumentTicketRecord → DocumentTicketRecord}
    (hf : ∀ ticket, SameTicket ticket (f ticket)) : Remain tickets (tickets.map f) where
  ids := by
    rw [map_map, map_congr_left (g := fun ticket : DocumentTicketRecord => ticket.id)]
    intro ticket _
    exact (hf ticket).id
  rows := by
    intro row hm
    obtain ⟨ticket, ht, rfl⟩ := mem_map.mp hm
    exact ⟨ticket, ht, hf ticket⟩

theorem remain_filter {p : DocumentTicketRecord → Bool} :
    Remain tickets (tickets.filter p) :=
  ⟨List.filter_sublist.map _, fun row hm => ⟨row, (mem_filter.mp hm).1, .refl row⟩⟩

section
open TicketOffice
variable {hash : Bytes → Bytes} {office later : TicketOffice}

structure Quiet (office later : TicketOffice) : Prop where
  tickets : Remain office.tickets later.tickets
  drawn : later.drawn = office.drawn
  log : later.log = office.log
  arrived : (∀ attempt ∈ office.attempts, attempt.now ≤ office.clock) →
    ∀ attempt ∈ later.attempts, attempt.now ≤ later.clock

theorem Quiet.refl (office : TicketOffice) : Quiet office office := ⟨.refl _, rfl, rfl, fun h => h⟩

theorem Issued.quiet (h : Issued office) (hq : Quiet office later) : Issued later where
  distinct := h.distinct.sublist hq.tickets.ids
  supplied := by
    intro row hm
    obtain ⟨ticket, hm, hs⟩ := hq.tickets.rows row hm
    rw [hs.id, hq.drawn]
    exact h.supplied ticket hm
  minted := by
    intro row hm
    obtain ⟨ticket, hm, hs⟩ := hq.tickets.rows row hm
    obtain ⟨caller, role, minted, hw⟩ := h.minted ticket hm
    exact ⟨caller, role, minted, hw.later hs (hq.log ▸ List.Subset.refl _)⟩
  used := by
    intro admission ha
    rw [hq.log] at ha
    obtain ⟨hd, hu⟩ := h.used admission ha
    refine ⟨hq.drawn ▸ hd, fun row hm hid => ?_⟩
    obtain ⟨ticket, hm, hs⟩ := hq.tickets.rows row hm
    exact hs.consumed (hu ticket hm (hs.id ▸ hid))
  once := by
    rw [hq.log]
    exact h.once
  arrived := hq.arrived h.arrived

theorem revokeTickets_quiet {affected : DocumentId → Bool} (h : Quiet office later) :
    Quiet office (later.revokeTickets affected) where
  tickets := by
    have hr : Remain later.tickets (later.revokeTickets affected).tickets := by
      refine remain_map fun ticket => ?_
      split
      · exact ⟨rfl, rfl, rfl, rfl, rfl, rfl, fun h => h⟩
      · exact .refl ticket
    refine ⟨hr.ids.trans h.tickets.ids, fun row hm => ?_⟩
    obtain ⟨middle, hm, hs⟩ := hr.rows row hm
    obtain ⟨ticket, hm, ht⟩ := h.tickets.rows middle hm
    exact ⟨ticket, hm, hs.id.trans ht.id, hs.documentId.trans ht.documentId, hs.esbtSite.trans ht.esbtSite,
      hs.authority.trans ht.authority, hs.epoch.trans ht.epoch, hs.expiry.trans ht.expiry,
      fun hc => hs.consumed (ht.consumed hc)⟩
  drawn := h.drawn
  log := h.log
  arrived := h.arrived

theorem documents_quiet (documents : List RoomDocument) (scratches : List ScratchRecord) :
    Quiet office { office with documents := documents, scratches := scratches } :=
  ⟨.refl _, rfl, rfl, fun h => h⟩

theorem shareChange_quiet {id : DocumentId} {acl : List DocumentAclRecord} :
    Quiet office (office.shareChange id acl) := by
  unfold shareChange
  cases office.loadDocument id with
  | none => exact .refl office
  | some document =>
    simp only
    split
    · exact revokeTickets_quiet (documents_quiet _ _)
    · exact .refl office

theorem delete_quiet {id : DocumentId} : Quiet office (office.delete id) := by
  unfold delete
  cases office.loadDocument id with
  | none => exact .refl office
  | some document =>
    simp only
    split
    · exact revokeTickets_quiet (documents_quiet _ _)
    · exact .refl office

theorem restore_quiet {id : DocumentId} : Quiet office (office.restore id) := by
  unfold restore
  cases office.loadDocument id with
  | none => exact .refl office
  | some document =>
    simp only
    split
    · exact .refl office
    · exact documents_quiet _ _

theorem purge_quiet {id : DocumentId} : Quiet office (office.purge id) := by
  unfold purge
  cases office.loadDocument id with
  | none => exact .refl office
  | some document =>
    simp only
    split
    · exact .refl office
    · exact ⟨remain_filter, rfl, rfl, fun h => h⟩

theorem claim_quiet {id : ScratchId} {principalId : PrincipalId} : Quiet office (office.claim id principalId) := by
  unfold TicketOffice.claim
  cases office.loadScratch id with
  | none => exact .refl office
  | some scratch =>
    simp only
    split
    · exact .refl office
    · exact revokeTickets_quiet (documents_quiet _ _)

theorem createDocument_quiet {id : DocumentId} {owner : DocumentOwner} {publicEdit : Bool} :
    Quiet office (office.createDocument id owner publicEdit) := by
  unfold TicketOffice.createDocument
  split
  · exact .refl office
  · exact documents_quiet _ _

theorem scratchCreate_quiet {id : ScratchId} {expiresAtMs : Millis} :
    Quiet office (office.scratchCreate id expiresAtMs) := by
  unfold TicketOffice.scratchCreate
  split
  · exact .refl office
  · exact documents_quiet _ _

theorem arrive_quiet {attempt : UpgradeAttempt} (h : attempt.now = office.clock) :
    Quiet office { office with attempts := office.attempts ++ [attempt] } where
  tickets := .refl _
  drawn := rfl
  log := rfl
  arrived := by
    intro ha other hm
    rcases mem_append.mp hm with hm | hm
    · exact ha other hm
    · rw [mem_singleton.mp hm]
      exact Nat.le_of_eq h

theorem tick_quiet {clock : Millis} : Quiet office { office with clock := max office.clock clock } :=
  ⟨.refl _, rfl, rfl, fun h attempt hm => Nat.le_trans (h attempt hm) (Nat.le_max_left _ _)⟩

/-! ## Minting -/

structure IssuedFor (id : TicketId) (authority : TicketAuthority) (document : RoomDocument) (site : SiteId)
    (ticket : DocumentTicketRecord) : Prop where
  id : ticket.id = id
  authority : ticket.authority = authority
  esbtSite : ticket.esbtSite = site
  documentId : ticket.documentId = document.id
  unconsumed : ticket.consumedAtMs = none

variable {id : TicketId}

theorem issue_spec {secret : Bytes} {authority : TicketAuthority} {document : RoomDocument}
    {site : SiteId} {now : Millis} {ticket : DocumentTicketRecord}
    (h : issue hash id secret authority document site now = .ok ticket) :
    IssuedFor id authority document site ticket := by
  unfold issue requireTicketSecret requireClientSite at h
  split at h
  · cases h
  split at h
  · cases h
  · cases h
    exact ⟨rfl, rfl, rfl, rfl, rfl⟩

theorem issueDocumentTicket_spec {secret : Bytes} {session : AuthenticatedSession}
    {document : RoomDocument} {role : DocumentRole} {site : SiteId} {now : Millis} {ticket : DocumentTicketRecord}
    (h : issueDocumentTicket hash id secret session document role site now = .ok ticket) :
    IssuedFor id (.principal session.principalId session.id session.deviceId role) document site ticket := by
  unfold issueDocumentTicket at h
  split at h
  · cases h
  split at h
  · cases h
  · split at h
    · cases h
    · exact issue_spec h

theorem issuePublicDocumentTicket_spec {secret : Bytes} {session : AuthenticatedSession}
    {document : RoomDocument} {site : SiteId} {now : Millis} {ticket : DocumentTicketRecord}
    (h : issuePublicDocumentTicket hash id secret session document site now = .ok ticket) :
    IssuedFor id (.principal session.principalId session.id session.deviceId .editor) document site ticket := by
  unfold issuePublicDocumentTicket at h
  split at h
  · cases h
  split at h
  · cases h
  · split at h
    · cases h
    · exact issue_spec h

theorem issueScratchDocumentTicket_spec {secret : Bytes} {scratch : ScratchRecord}
    {document : RoomDocument} {site : SiteId} {now : Millis} {ticket : DocumentTicketRecord}
    (h : issueScratchDocumentTicket hash id secret scratch document site now = .ok ticket) :
    IssuedFor id (.scratch scratch.id) document site ticket := by
  unfold issueScratchDocumentTicket at h
  split at h
  · cases h
  · cases hl : requireLiveScratch scratch now with
    | error => rw [hl] at h; cases h
    | ok => rw [hl] at h; exact issue_spec h

theorem issuePublicScratchDocumentTicket_spec {secret : Bytes} {scratch : ScratchRecord}
    {document : RoomDocument} {site : SiteId} {now : Millis} {ticket : DocumentTicketRecord}
    (h : issuePublicScratchDocumentTicket hash id secret scratch document site now = .ok ticket) :
    IssuedFor id (.scratch scratch.id) document site ticket := by
  unfold issuePublicScratchDocumentTicket at h
  split at h
  · cases h
  cases hl : requireLiveScratch scratch now with
  | error => rw [hl] at h; cases h
  | ok =>
    rw [hl] at h
    cases hp : document.row.publicEdit with
    | false => rw [hp] at h; cases h
    | true => rw [hp] at h; exact issue_spec h

variable {issued : Except DocumentTicketError DocumentTicketRecord}

theorem Issued.insert (h : Issued office) {site : SiteId} {role : Option DocumentRole}
    (hi : ∀ ticket, issued = .ok ticket → ∃ authority document,
      IssuedFor office.drawn authority document site ticket ∧ grants caller role authority) :
    Issued (office.insertTicket caller site role issued) := by
  unfold TicketOffice.insertTicket
  cases issued with
  | error => exact h
  | ok ticket =>
    obtain ⟨authority, document, hf, hg⟩ := hi ticket rfl
    refine ⟨?_, ?_, ?_, ?_, h.once, h.arrived⟩
    · rw [map_append, map_singleton, nodup_append]
      refine ⟨h.distinct, nodup_singleton _, fun id hm other ho => ?_⟩
      obtain ⟨row, hrow, rfl⟩ := mem_map.mp hm
      rw [mem_singleton.mp ho, hf.id]
      exact Nat.ne_of_lt (h.supplied row hrow)
    · intro row hm
      rcases mem_append.mp hm with hm | hm
      · exact Nat.lt_succ_of_lt (h.supplied row hm)
      · rw [mem_singleton.mp hm, hf.id]
        exact Nat.lt_succ_self _
    · intro row hm
      rcases mem_append.mp hm with hm | hm
      · obtain ⟨caller, role, minted, hw⟩ := h.minted row hm
        exact ⟨caller, role, minted, hw.later (.refl row) (subset_cons_self _ _)⟩
      rw [mem_singleton.mp hm]
      refine ⟨caller, role, ticket, ?_, rfl, rfl, rfl, hf.authority ▸ hg⟩
      rw [hf.esbtSite]
      exact mem_cons_self
    · intro admission ha
      rcases mem_cons.mp ha with ha | ha
      · cases ha
      obtain ⟨hd, hu⟩ := h.used admission ha
      refine ⟨Nat.lt_succ_of_lt hd, fun row hm hid => ?_⟩
      rcases mem_append.mp hm with hm | hm
      · exact hu row hm hid
      · rw [mem_singleton.mp hm, hf.id] at hid
        exact absurd hid (Nat.ne_of_gt hd)

theorem Issued.principalRoomSession (h : Issued office) (session : AuthenticatedSession) (documentId : DocumentId)
    (site : SiteId) (secret : Bytes) (now : Millis) :
    Issued (office.principalRoomSession hash session documentId site secret now) := by
  unfold TicketOffice.principalRoomSession
  cases office.loadDocument documentId with
  | none => exact h
  | some document =>
    simp only
    split
    · exact h
    cases callerRole document session.principalId with
    | none => exact h
    | some role =>
      simp only
      split
      · exact h.insert fun ticket hi => ⟨_, _, issuePublicDocumentTicket_spec hi, rfl⟩
      · exact h.insert fun ticket hi => ⟨_, _, issueDocumentTicket_spec hi, rfl⟩

theorem loadScratch_id {id : ScratchId} {scratch : ScratchRecord} (h : office.loadScratch id = some scratch) :
    scratch.id = id := beq_iff_eq.mp (find?_some h :)

theorem loadTicket_id {ticket : DocumentTicketRecord} (h : office.loadTicket id = some ticket) :
    ticket ∈ office.tickets ∧ ticket.id = id := ⟨mem_of_find?_eq_some h, beq_iff_eq.mp (find?_some h :)⟩

theorem Issued.scratchRoomSession (h : Issued office) (scratchId : ScratchId) (documentId : DocumentId)
    (site : SiteId) (secret : Bytes) (now : Millis) :
    Issued (office.scratchRoomSession hash scratchId documentId site secret now) := by
  unfold TicketOffice.scratchRoomSession
  cases office.loadDocument documentId with
  | none => exact h
  | some document =>
    simp only
    split
    · exact h
    cases hl : office.loadScratch scratchId with
    | none => exact h
    | some scratch =>
      have hid := loadScratch_id hl
      simp only
      split
      · exact h.insert fun ticket hi => ⟨_, _, issueScratchDocumentTicket_spec hi, congrArg _ hid⟩
      · split
        · exact h.insert fun ticket hi => ⟨_, _, issuePublicScratchDocumentTicket_spec hi, congrArg _ hid⟩
        · exact h

/-! ## Redemption -/

theorem requireLivePresentedTicket_ok {ticket : DocumentTicketRecord} {secret : Bytes} {now : Millis}
    (h : requireLivePresentedTicket hash ticket secret now = .ok ()) :
    ticket.consumedAtMs = none ∧ ticket.revokedAtMs = none ∧ now < ticket.expiresAtMs := by
  unfold requireLivePresentedTicket at h
  split at h
  · cases h
  split at h
  · cases h
  split at h
  · cases h
  split at h
  · cases h
  · rename_i _ hc hr he
    exact ⟨Option.not_isSome_iff_eq_none.mp hc, Option.not_isSome_iff_eq_none.mp hr, Nat.lt_of_not_le he⟩

theorem requireLiveScratch_ok {scratch : ScratchRecord} {now : Millis} (h : requireLiveScratch scratch now = .ok ()) :
    scratch.revokedAtMs = none ∧ scratch.claimedBy = none ∧ now < scratch.expiresAtMs := by
  unfold requireLiveScratch at h
  split at h
  · cases h
  · rename_i hl
    rw [not_or, not_or] at hl
    exact ⟨Option.not_isSome_iff_eq_none.mp hl.1, Option.not_isSome_iff_eq_none.mp hl.2.1, Nat.lt_of_not_le hl.2.2⟩

theorem requireBinding_ok {ticket : DocumentTicketRecord} {document : RoomDocument} {site : SiteId}
    (h : requireBinding ticket document site = .ok ()) :
    ticket.documentId = document.id ∧ ticket.authorizationEpoch = document.row.record.authorizationEpoch := by
  unfold requireBinding at h
  split at h
  · cases h
  split at h
  · cases h
  split at h
  · cases h
  · rename_i hd _ he
    exact ⟨Decidable.not_not.mp hd, Decidable.not_not.mp he⟩

theorem requireSession_ok {principalId : PrincipalId} {sessionId : SessionId} {deviceId : DeviceId}
    {session : AuthenticatedSession} {now : Millis}
    (h : requireSession principalId sessionId deviceId session now = .ok ()) :
    now < session.expiresAtMs ∧ session.principalId = principalId ∧ session.id = sessionId ∧
      session.deviceId = deviceId := by
  unfold requireSession at h
  split at h
  · cases h
  split at h
  · cases h
  rename_i he hm
  rw [not_or, not_or] at hm
  exact ⟨Nat.lt_of_not_le he, (Decidable.not_not.mp hm.2.1).symm, (Decidable.not_not.mp hm.1).symm,
    (Decidable.not_not.mp hm.2.2).symm⟩

structure Redeems (ticket : DocumentTicketRecord) (document : RoomDocument) (now : Millis) : Prop where
  unconsumed : ticket.consumedAtMs = none
  unrevoked : ticket.revokedAtMs = none
  unexpired : now < ticket.expiresAtMs
  ofDocument : ticket.documentId = document.id
  epoch : ticket.authorizationEpoch = document.row.record.authorizationEpoch

structure RedeemsSession (ticket : DocumentTicketRecord) (principalId : PrincipalId) (sessionId : SessionId)
    (deviceId : DeviceId) (role : DocumentRole) (session : AuthenticatedSession) (document : RoomDocument)
    (now : Millis) (actor : DocumentActor) : Prop extends Redeems ticket document now where
  presented : now < session.expiresAtMs ∧ session.principalId = principalId ∧ session.id = sessionId ∧
    session.deviceId = deviceId
  actor : actor = ⟨ticket.documentId,
    .principal ⟨principalId, sessionId, deviceId, ticket.esbtSite, role, ticket.authorizationEpoch⟩⟩

structure RedeemsScratch (ticket : DocumentTicketRecord) (scratch : ScratchRecord) (document : RoomDocument)
    (now : Millis) (actor : DocumentActor) : Prop extends Redeems ticket document now where
  presented : scratch.revokedAtMs = none ∧ scratch.claimedBy = none ∧ now < scratch.expiresAtMs
  actor : actor = ⟨ticket.documentId, .scratch ⟨scratch.id, ticket.esbtSite, ticket.authorizationEpoch⟩⟩

section
variable {ticket : DocumentTicketRecord} {principalId : PrincipalId} {sessionId : SessionId} {deviceId : DeviceId}
  {role : DocumentRole} {secret : Bytes} {session : AuthenticatedSession} {document : RoomDocument} {site : SiteId}
  {now : Millis} {scratchId : ScratchId} {scratch : ScratchRecord} {actor : DocumentActor}

theorem redeemDocumentTicket_spec
    (h : redeemDocumentTicket hash ticket principalId sessionId deviceId role secret session document site now =
      .ok actor) :
    RedeemsSession ticket principalId sessionId deviceId role session document now actor := by
  unfold redeemDocumentTicket at h
  obtain ⟨_, hp, h⟩ := bind_ok h
  obtain ⟨hc, hr, he⟩ := requireLivePresentedTicket_ok hp
  split at h
  · cases h
  split at h
  · cases h
  obtain ⟨_, hs, h⟩ := bind_ok h
  obtain ⟨_, hb, h⟩ := bind_ok h
  obtain ⟨hd, ha⟩ := requireBinding_ok hb
  cases h
  exact ⟨⟨hc, hr, he, hd, ha⟩, requireSession_ok hs, rfl⟩

theorem redeemPublicDocumentTicket_spec
    (h : redeemPublicDocumentTicket hash ticket principalId sessionId deviceId role secret session document site now =
      .ok actor) :
    RedeemsSession ticket principalId sessionId deviceId role session document now actor := by
  unfold redeemPublicDocumentTicket at h
  obtain ⟨_, hp, h⟩ := bind_ok h
  obtain ⟨hc, hr, he⟩ := requireLivePresentedTicket_ok hp
  split at h
  · cases h
  split at h
  · cases h
  obtain ⟨_, hs, h⟩ := bind_ok h
  obtain ⟨_, hb, h⟩ := bind_ok h
  obtain ⟨hd, ha⟩ := requireBinding_ok hb
  cases h
  exact ⟨⟨hc, hr, he, hd, ha⟩, requireSession_ok hs, rfl⟩

theorem redeemScratchDocumentTicket_spec
    (h : redeemScratchDocumentTicket hash ticket scratchId secret scratch document site now = .ok actor) :
    RedeemsScratch ticket scratch document now actor := by
  unfold redeemScratchDocumentTicket at h
  obtain ⟨_, hp, h⟩ := bind_ok h
  obtain ⟨hc, hr, he⟩ := requireLivePresentedTicket_ok hp
  split at h
  · cases h
  rename_i hid
  obtain ⟨_, hl, h⟩ := bind_ok h
  split at h
  · cases h
  obtain ⟨_, hb, h⟩ := bind_ok h
  obtain ⟨hd, ha⟩ := requireBinding_ok hb
  cases h
  rw [Decidable.not_not.mp hid]
  exact ⟨⟨hc, hr, he, hd, ha⟩, requireLiveScratch_ok hl, rfl⟩

theorem redeemPublicScratchDocumentTicket_spec
    (h : redeemPublicScratchDocumentTicket hash ticket scratchId secret scratch document site now = .ok actor) :
    RedeemsScratch ticket scratch document now actor := by
  unfold redeemPublicScratchDocumentTicket at h
  obtain ⟨_, hp, h⟩ := bind_ok h
  obtain ⟨hc, hr, he⟩ := requireLivePresentedTicket_ok hp
  split at h
  · cases h
  rename_i hid
  obtain ⟨_, hl, h⟩ := bind_ok h
  split at h
  · cases h
  split at h
  · cases h
  obtain ⟨_, hb, h⟩ := bind_ok h
  obtain ⟨hd, ha⟩ := requireBinding_ok hb
  cases h
  rw [Decidable.not_not.mp hid]
  exact ⟨⟨hc, hr, he, hd, ha⟩, requireLiveScratch_ok hl, rfl⟩

end

/-! ## The admitting transaction -/

section
variable {attempt : UpgradeAttempt} {ticket : DocumentTicketRecord} {document : RoomDocument} {actor : DocumentActor}
  {scratch : Option ScratchRecord}

theorem RedeemsSession.acts {principalId : PrincipalId} {sessionId : SessionId} {deviceId : DeviceId}
    {role : DocumentRole} {session : AuthenticatedSession} (hc : attempt.cookie = some session)
    (ha : ticket.authority = .principal principalId sessionId deviceId role)
    (h : RedeemsSession ticket principalId sessionId deviceId role session document attempt.now actor) :
    ∀ caller granted, grants caller granted ticket.authority →
      ActsFor office ⟨attempt, ticket, document, scratch, office.clock, actor⟩ caller granted := by
  intro caller granted hg
  rw [ha] at hg
  cases caller with
  | scratch => cases granted <;> cases hg
  | principal minted =>
    cases granted with
    | none => cases hg
    | some role' =>
      cases hg
      refine ⟨⟨session, hc, h.presented⟩, ?_⟩
      rw [h.actor, h.ofDocument, h.epoch]

theorem RedeemsScratch.acts {scratchId : ScratchId} {row : ScratchRecord}
    (hl : office.loadScratch scratchId = some row) (ha : ticket.authority = .scratch scratchId)
    (h : RedeemsScratch ticket row document attempt.now actor) :
    ∀ caller granted, grants caller granted ticket.authority →
      ActsFor office ⟨attempt, ticket, document, some row, office.clock, actor⟩ caller granted := by
  intro caller granted hg
  rw [ha] at hg
  cases caller with
  | principal => cases granted <;> cases hg
  | scratch id =>
    cases granted with
    | some => cases hg
    | none =>
      cases hg
      refine ⟨⟨row, rfl, hl, h.presented⟩, ?_⟩
      rw [h.actor, h.ofDocument, h.epoch, loadScratch_id hl]

theorem redeem_spec (h : office.redeem hash attempt ticket document = some (actor, scratch)) :
    Redeems ticket document attempt.now ∧ ∀ caller role, grants caller role ticket.authority →
      ActsFor office ⟨attempt, ticket, document, scratch, office.clock, actor⟩ caller role := by
  unfold redeem at h
  split at h
  · rename_i principalId sessionId deviceId role hauthority
    obtain ⟨session, hc, hm⟩ := Option.bind_eq_some_iff.mp h
    simp only [Option.map_eq_some_iff, Prod.mk.injEq] at hm
    obtain ⟨redeemed, ho, rfl, rfl⟩ := hm
    cases howner : document.row.record.owner with
    | scratch =>
      rw [howner] at ho
      have hr := redeemPublicDocumentTicket_spec (toOption_ok ho)
      exact ⟨hr.toRedeems, hr.acts hc hauthority⟩
    | principal =>
      rw [howner] at ho
      have hr := redeemDocumentTicket_spec (toOption_ok ho)
      exact ⟨hr.toRedeems, hr.acts hc hauthority⟩
  · rename_i scratchId hauthority
    obtain ⟨row, hl, hm⟩ := Option.bind_eq_some_iff.mp h
    simp only [Option.map_eq_some_iff, Prod.mk.injEq] at hm
    obtain ⟨redeemed, ho, rfl, rfl⟩ := hm
    split at ho
    · have hr := redeemScratchDocumentTicket_spec (toOption_ok ho)
      exact ⟨hr.toRedeems, hr.acts hl hauthority⟩
    · have hr := redeemPublicScratchDocumentTicket_spec (toOption_ok ho)
      exact ⟨hr.toRedeems, hr.acts hl hauthority⟩

end

theorem admitAttempt_cases {attempt : UpgradeAttempt} :
    office.admitAttempt hash attempt = office ∨ ∃ ticket document scratch actor,
      office.loadTicket attempt.ticketId = some ticket ∧ office.loadDocument attempt.documentId = some document ∧
      requireLiveDocument document.row.record = true ∧
      office.redeem hash attempt ticket document = some (actor, scratch) ∧
      office.admitAttempt hash attempt =
        { office with
          tickets := office.tickets.map fun row =>
            if row.id = attempt.ticketId ∧ row.consumedAtMs = none ∧ row.revokedAtMs = none then
              { row with consumedAtMs := some attempt.now }
            else row
          log := .admitted ⟨attempt, ticket, document, scratch, office.clock, actor⟩ :: office.log } := by
  unfold admitAttempt
  split
  · rename_i ticket document ht hd
    split
    · exact .inl rfl
    rename_i hlive
    cases hr : office.redeem hash attempt ticket document with
    | none => exact .inl rfl
    | some redeemed =>
      obtain ⟨actor, scratch⟩ := redeemed
      simp only
      split
      · refine .inr ⟨ticket, document, scratch, actor, ht, hd, ?_, hr, rfl⟩
        simpa using hlive
      · exact .inl rfl
  · exact .inl rfl

theorem admitAttempt_clock {attempt : UpgradeAttempt} : (office.admitAttempt hash attempt).clock = office.clock := by
  obtain heq | ⟨_, _, _, _, -, -, -, -, heq⟩ := @admitAttempt_cases hash office attempt <;> rw [heq]

theorem Issued.unused (h : Issued office) {ticket : DocumentTicketRecord} (hm : ticket ∈ office.tickets)
    (hc : ticket.consumedAtMs = none) : office.log.countP (·.admits ticket.id) = 0 := by
  rw [countP_eq_zero]
  intro entry he ha
  cases entry with
  | minted => cases ha
  | admitted admission => exact (h.used admission he).2 ticket hm (beq_iff_eq.mp ha).symm hc

theorem Issued.admitAttempt (h : Issued office) {attempt : UpgradeAttempt} :
    Issued (office.admitAttempt hash attempt) := by
  obtain heq | ⟨ticket, document, scratch, actor, ht, -, -, hr, heq⟩ := @admitAttempt_cases hash office attempt
  · rw [heq]
    exact h
  obtain ⟨hm, hid⟩ := loadTicket_id ht
  obtain ⟨hred, -⟩ := redeem_spec hr
  have hremain : Remain office.tickets (office.tickets.map fun row =>
      if row.id = attempt.ticketId ∧ row.consumedAtMs = none ∧ row.revokedAtMs = none then
        { row with consumedAtMs := some attempt.now }
      else row) := by
    refine remain_map fun row => ?_
    split
    · exact ⟨rfl, rfl, rfl, rfl, rfl, rfl, fun _ hc => by cases hc⟩
    · exact .refl row
  have hmoved : Issued { office with tickets := office.tickets.map fun row =>
      if row.id = attempt.ticketId ∧ row.consumedAtMs = none ∧ row.revokedAtMs = none then
        { row with consumedAtMs := some attempt.now }
      else row } := h.quiet ⟨hremain, rfl, rfl, fun ha => ha⟩
  rw [heq]
  refine ⟨hmoved.distinct, hmoved.supplied, ?_, ?_, ?_, h.arrived⟩
  · intro row hrow
    obtain ⟨caller, role, minted, hw⟩ := hmoved.minted row hrow
    exact ⟨caller, role, minted, hw.later (.refl row) (subset_cons_self _ _)⟩
  · intro admission ha
    rcases mem_cons.mp ha with ha | ha
    · cases ha
      refine ⟨h.supplied ticket hm, fun row hrow hrid hnone => ?_⟩
      obtain ⟨old, ho, rfl⟩ := mem_map.mp hrow
      split at hrid <;> split at hnone
      · cases hnone
      · contradiction
      · contradiction
      · rename_i hother
        have hsame : old = ticket := inj_on_of_nodup_map h.distinct ho hm hrid
        rw [hsame] at hother
        exact hother ⟨hid, hred.unconsumed, hred.unrevoked⟩
    · exact hmoved.used admission ha
  · intro id
    rw [countP_cons]
    by_cases hsame : ticket.id = id
    · rw [← hsame, h.unused hm hred.unconsumed]
      split <;> omega
    rw [if_neg]
    · exact h.once id
    · intro ha
      exact hsame (beq_iff_eq.mp ha)

theorem Issued.admitUpgrade (h : Issued office) (i : Nat) : Issued (office.admitUpgrade hash i) := by
  unfold TicketOffice.admitUpgrade
  cases ha : office.attempts[i]? with
  | none => exact h
  | some attempt =>
    have hadmitted : Issued (office.admitAttempt hash attempt) := h.admitAttempt
    refine ⟨hadmitted.distinct, hadmitted.supplied, hadmitted.minted, hadmitted.used, hadmitted.once, ?_⟩
    intro other hm
    rw [show ({ office.admitAttempt hash attempt with attempts := office.attempts.eraseIdx i } : TicketOffice).clock =
      office.clock from admitAttempt_clock]
    exact h.arrived other (mem_of_mem_eraseIdx hm)

/-! ## Whole runs -/

theorem issued_init : Issued init where
  distinct := nodup_nil
  supplied := by simp [init]
  minted := by simp [init]
  used := by simp [init]
  once := by simp [init]
  arrived := by simp [init]

theorem issued_step (h : Issued office) (event : TicketEvent) : Issued (office.step hash event) := by
  cases event with
  | createDocument => exact h.quiet createDocument_quiet
  | scratchCreate => exact h.quiet scratchCreate_quiet
  | principalRoomSession => exact h.principalRoomSession ..
  | scratchRoomSession => exact h.scratchRoomSession ..
  | arrive => exact h.quiet (arrive_quiet rfl)
  | admitUpgrade => exact h.admitUpgrade _
  | shareChange => exact h.quiet shareChange_quiet
  | linkRedeem => exact h.quiet (documents_quiet _ _)
  | delete => exact h.quiet delete_quiet
  | restore => exact h.quiet restore_quiet
  | purge => exact h.quiet purge_quiet
  | claim => exact h.quiet claim_quiet
  | tick => exact h.quiet tick_quiet

theorem issued_after (events : List TicketEvent) : Issued (after hash events) :=
  Transition.run_inv (C := fun _ _ => True) (I := Issued) (fun _ event h _ => issued_step h event) issued_init
    (Transition.along_of fun _ _ => trivial)

variable {admission : Admission}

theorem admitAttempt_log (h : Issued office) {attempt : UpgradeAttempt} (hn : attempt.now ≤ office.clock)
    (ha : .admitted admission ∈ (office.admitAttempt hash attempt).log) :
    .admitted admission ∈ office.log ∨ Admits office admission := by
  obtain heq | ⟨ticket, document, scratch, actor, ht, hd, hl, hr, heq⟩ := @admitAttempt_cases hash office attempt
  · rw [heq] at ha
    exact .inl ha
  rw [heq] at ha
  rcases mem_cons.mp ha with ha | ha
  · cases ha
    obtain ⟨hred, hacts⟩ := redeem_spec hr
    obtain ⟨caller, role, minted, hw⟩ := h.minted ticket (loadTicket_id ht).1
    exact .inr ⟨ht, hd, hred.unconsumed, hred.unrevoked, hred.unexpired, rfl, hn, Option.isNone_iff_eq_none.mp hl,
      hred.ofDocument, hred.epoch, caller, role, minted, hw, hacts caller role hw.granted⟩
  · exact .inl ha

theorem insertTicket_log {site : SiteId} {role : Option DocumentRole}
    (ha : .admitted admission ∈ (office.insertTicket caller site role issued).log) :
    .admitted admission ∈ office.log := by
  unfold TicketOffice.insertTicket at ha
  cases issued with
  | error => exact ha
  | ok ticket =>
    rcases mem_cons.mp ha with ha | ha
    · cases ha
    · exact ha

variable {documentId : DocumentId}

theorem principalRoomSession_log {session : AuthenticatedSession} {site : SiteId}
    {secret : Bytes} {now : Millis}
    (ha : .admitted admission ∈ (office.principalRoomSession hash session documentId site secret now).log) :
    .admitted admission ∈ office.log := by
  unfold TicketOffice.principalRoomSession at ha
  repeat' split at ha
  all_goals first | exact insertTicket_log ha | exact ha

theorem scratchRoomSession_log {scratchId : ScratchId} {site : SiteId} {secret : Bytes}
    {now : Millis}
    (ha : .admitted admission ∈ (office.scratchRoomSession hash scratchId documentId site secret now).log) :
    .admitted admission ∈ office.log := by
  unfold TicketOffice.scratchRoomSession at ha
  repeat' split at ha
  all_goals first | exact insertTicket_log ha | exact ha

theorem step_admits (h : Issued office) {event : TicketEvent}
    (ha : .admitted admission ∈ (office.step hash event).log) :
    .admitted admission ∈ office.log ∨ Admits office admission := by
  have quiet {later : TicketOffice} (hq : Quiet office later) (ha : .admitted admission ∈ later.log) :
      .admitted admission ∈ office.log ∨ Admits office admission := by
    rw [hq.log] at ha
    exact .inl ha
  cases event with
  | createDocument => exact quiet createDocument_quiet ha
  | scratchCreate => exact quiet scratchCreate_quiet ha
  | principalRoomSession => exact .inl (principalRoomSession_log ha)
  | scratchRoomSession => exact .inl (scratchRoomSession_log ha)
  | arrive => exact quiet (arrive_quiet rfl) ha
  | admitUpgrade i =>
    rw [show office.step hash (.admitUpgrade i) = office.admitUpgrade hash i from rfl, TicketOffice.admitUpgrade] at ha
    cases hi : office.attempts[i]? with
    | none =>
      rw [hi] at ha
      exact .inl ha
    | some attempt =>
      rw [hi] at ha
      exact admitAttempt_log h (h.arrived attempt (mem_of_getElem? hi)) ha
  | shareChange => exact quiet shareChange_quiet ha
  | linkRedeem => exact .inl ha
  | delete => exact quiet delete_quiet ha
  | restore => exact quiet restore_quiet ha
  | purge => exact quiet purge_quiet ha
  | claim => exact quiet claim_quiet ha
  | tick => exact .inl ha

theorem admission_at (events : List TicketEvent)
    (ha : .admitted admission ∈ (after hash events).log) :
    ∃ before event rest, events = before ++ event :: rest ∧ Admits (after hash before) admission := by
  induction events using List.reverseRecOn with
  | nil => cases ha
  | append_singleton events event ih =>
    have hstep : after hash (events ++ [event]) = (after hash events).step hash event := Transition.run_snoc ..
    rw [hstep] at ha
    rcases step_admits (issued_after events) ha with ha | ha
    · obtain ⟨before, first, rest, rfl, hadmits⟩ := ih ha
      exact ⟨before, first, rest ++ [event], by simp, hadmits⟩
    · exact ⟨events, event, [], rfl, ha⟩

/-- No ticket admits twice, and whatever is admitted had an unused ticket that was live when the attempt arrived, of
a live document with the ticket's epoch, and is who the ticket was minted for. -/
theorem tickets_admit_once (hash : Bytes → Bytes) (events : List TicketEvent) :
    (∀ id, (after hash events).log.countP (·.admits id) ≤ 1) ∧
    ∀ admission, .admitted admission ∈ (after hash events).log →
      ∃ before event rest, events = before ++ event :: rest ∧ Admits (after hash before) admission :=
  ⟨(issued_after events).once, fun _ ha => admission_at events ha⟩

def slowUpgrade : List TicketEvent :=
  [.createDocument 1 (.principal 1) false,
    .principalRoomSession ⟨1, 1, 1, 100000⟩ 1 2 (List.replicate ticketSecretBytes 7) 0,
    .arrive 0 (List.replicate ticketSecretBytes 7) 1 (some ⟨1, 1, 1, 100000⟩), .tick 60000, .admitUpgrade 0]

/-- Such an upgrade is admitted after its ticket has expired. -/
theorem slowUpgrade_expired : ¬ ∀ (hash : Bytes → Bytes) (events : List TicketEvent) (admission : Admission),
    .admitted admission ∈ (after hash events).log → admission.clock < admission.ticket.expiresAtMs := by
  intro h
  have hlog : (after (fun secret => secret) slowUpgrade).log.all (fun entry => match entry with
      | .admitted admission => decide (admission.clock < admission.ticket.expiresAtMs)
      | .minted .. => true) = true := by
    rw [all_eq_true]
    intro entry he
    cases entry with
    | minted => rfl
    | admitted admission => exact decide_eq_true (h _ _ _ he)
  exact absurd hlog (by decide +kernel)

theorem slowUpgrade_once : (after (fun secret => secret) slowUpgrade).log.countP (·.admits 0) = 1 ∧
    (after (fun secret => secret) slowUpgrade).log.countP (·.admits 0) ≤ 1 :=
  ⟨by decide +kernel, (tickets_admit_once _ slowUpgrade).1 0⟩

end

end Marks.Tickets
