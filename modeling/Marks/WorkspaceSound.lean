import Marks.Workspace
import Marks.AuthoritySound

/-! # No document is stranded

A claim moves every document of its workspace, and nothing gives a claimed workspace a document again except
the late insert of a create or duplicate whose caller was admitted before the claim. The runs without such an
insert are exactly those in which no claimed workspace owns a document. -/

namespace Marks

namespace Workspace

def claimant (ws : Workspace) (s : ScratchId) : Option PrincipalId := (ws.loadScratch s).bind (·.claimedBy)

def Moved (s : ScratchId) (p : PrincipalId) (d : CatalogDocument) : Prop :=
  d.row.record.owner = .principal p ∧ (∃ e e', d.moves = [(p, e, e')] ∧ e < e') ∧
    ∀ row ∈ d.sites, row.authority ≠ .scratch s

def NoStranded (ws : Workspace) : Prop :=
  ∀ s p, ws.claimant s = some p → ∀ d ∈ ws.documents,
    d.row.record.owner ≠ .scratch s ∧ (d.createdBy = .scratch s → Moved s p d)

def InTime (ws : Workspace) (e : WorkspaceEvent) : Prop :=
  ∀ n id creation s, e = .commit n id → ws.creations[n]? = some creation → creation.caller = .scratch s →
    ws.inserts creation id = true → ws.claimant s = none

def Settled (s : ScratchId) (d : CatalogDocument) : Option PrincipalId → Prop
  | none => d.row.record.owner = .scratch s ∧ d.moves = []
  | some p => Moved s p d

structure Placed (ws : Workspace) (d : CatalogDocument) : Prop where
  settled : ∀ s, d.createdBy = .scratch s → Settled s d (ws.claimant s)
  owned : ∀ s, d.row.record.owner = .scratch s → d.createdBy = .scratch s

def AllPlaced (ws : Workspace) : Prop := ∀ d ∈ ws.documents, Placed ws d

theorem noStranded_of_placed {ws : Workspace} (h : AllPlaced ws) : NoStranded ws := by
  intro s p hp d hd
  refine ⟨fun howner => ?_, fun hcreated => ?_⟩
  · have := (h d hd).settled s ((h d hd).owned s howner)
    rw [hp] at this
    rw [this.1] at howner
    exact DocumentOwner.noConfusion howner
  · have := (h d hd).settled s hcreated
    rwa [hp] at this

/-! ## Routes on a document -/

variable {now : Millis}

section
variable {auth auth' : AuthorityTables} {site : SiteId}

variable {requested : Option SiteId}

theorem allocateSite_rows {authority : SiteAuthority}
    (h : allocateSite auth requested authority = .ok (auth', site)) :
    ∀ row ∈ auth'.sites, row ∈ auth.sites ∨ row.authority = authority := by
  unfold allocateSite at h
  split at h
  · split at h
    · cases h
      exact fun row hrow => Or.inl hrow
    · simp at h
  · split at h
    · cases h
      intro row hrow
      rcases List.mem_append.mp hrow with hold | hnew
      · exact Or.inl hold
      · rw [List.mem_singleton.mp hnew]
        exact Or.inr rfl
    · simp at h

variable {secretHash : Bytes}

variable {id : TicketId}

theorem principalRoomSession_rows {session : AuthenticatedSession}
    (h : principalRoomSession auth session requested id secretHash now = .ok (auth', site)) :
    auth'.document = auth.document ∧ ∀ row ∈ auth'.sites, row ∈ auth.sites ∨
      row.authority = .principal session.principalId session.deviceId := by
  obtain ⟨role, sites, ticket, -, allocated, -, rfl⟩ := principalRoomSession_ok h
  have hrows := allocateSite_rows allocated
  exact ⟨rfl, hrows⟩

theorem issueScratchTicket_live {scratch : ScratchRecord}
    {role : Option DocumentRole} {ticket : TicketRecord}
    (h : issueScratchTicket auth id secretHash scratch role site now = .ok ticket) :
    scratch.claimedBy = none := by
  unfold issueScratchTicket at h
  by_cases hlive : requireLiveScratch scratch now = true
  · simp only [requireLiveScratch, Bool.and_eq_true, Option.isNone_iff_eq_none] at hlive
    exact hlive.1.2
  · simp [hlive] at h

theorem scratchRoomSession_rows {scratchId : ScratchId}
    (h : scratchRoomSession auth scratchId requested id secretHash now = .ok (auth', site)) :
    auth'.document = auth.document ∧ (auth.loadScratch scratchId).bind (·.claimedBy) = none ∧
      ∀ row ∈ auth'.sites, row ∈ auth.sites ∨ row.authority = .scratch scratchId := by
  obtain ⟨scratch, role, sites, ticket, hscratch, allocated, issued, rfl⟩ := scratchRoomSession_ok h
  have hrows := allocateSite_rows allocated
  rw [hscratch, Option.bind_some]
  exact ⟨rfl, issueScratchTicket_live issued, hrows⟩

end

variable {ws : Workspace}

def KeepsPlaces (ws : Workspace) (f : AuthorityTables → Except ApiError AuthorityTables) : Prop :=
  ∀ auth auth', f auth = .ok auth' → auth.scratches = ws.scratches →
    auth'.document.record.owner = auth.document.record.owner ∧
      ∀ row ∈ auth'.sites, row ∈ auth.sites ∨ ∀ s, row.authority = .scratch s → ws.claimant s = none

theorem principalSession_keepsPlaces (session : AuthenticatedSession) (requested : Option SiteId)
    (id : TicketId) (secretHash : Bytes) (now : Millis) :
    KeepsPlaces ws fun db => (principalRoomSession db session requested id secretHash now).map (·.1) := by
  intro auth auth' h _
  cases hs : principalRoomSession auth session requested id secretHash now with
  | error error => simp [hs, Except.map] at h
  | ok result =>
    obtain ⟨next, site⟩ := result
    have : next = auth' := by simpa [hs, Except.map] using h
    subst this
    obtain ⟨hdoc, hrows⟩ := principalRoomSession_rows hs
    refine ⟨by rw [hdoc], fun row hrow => ?_⟩
    rcases hrows row hrow with hold | hnew
    · exact Or.inl hold
    · refine Or.inr fun s hs => ?_
      rw [hnew] at hs
      exact SiteAuthority.noConfusion hs

theorem scratchSession_keepsPlaces (scratchId : ScratchId) (requested : Option SiteId)
    (id : TicketId) (secretHash : Bytes) (now : Millis) :
    KeepsPlaces ws fun db => (scratchRoomSession db scratchId requested id secretHash now).map (·.1) := by
  intro auth auth' h hscratches
  cases hs : scratchRoomSession auth scratchId requested id secretHash now with
  | error error => simp [hs, Except.map] at h
  | ok result =>
    obtain ⟨next, site⟩ := result
    have : next = auth' := by simpa [hs, Except.map] using h
    subst this
    obtain ⟨hdoc, hunclaimed, hrows⟩ := scratchRoomSession_rows hs
    refine ⟨by rw [hdoc], fun row hrow => ?_⟩
    rcases hrows row hrow with hold | hnew
    · exact Or.inl hold
    refine Or.inr fun s hs => ?_
    rw [hnew] at hs
    rw [← SiteAuthority.scratch.inj hs]
    rw [AuthorityTables.loadScratch, hscratches] at hunclaimed
    exact hunclaimed

theorem delete_keepsPlaces (caller : Caller) (now : Millis) :
    KeepsPlaces ws fun db => deleteDocument db caller now := by
  intro auth auth' h _
  simp only [deleteDocument] at h
  split at h
  · simp at h
  · cases h
    exact ⟨rfl, fun row hrow => Or.inl hrow⟩

theorem restore_keepsPlaces (caller : Caller) : KeepsPlaces ws fun db => restoreDocument db caller := by
  intro auth auth' h _
  simp only [restoreDocument] at h
  split at h
  · simp at h
  split at h
  · cases h
    exact ⟨rfl, fun row hrow => Or.inl hrow⟩
  · simp at h

theorem onDocument_placed {f : AuthorityTables → Except ApiError AuthorityTables} (hf : KeepsPlaces ws f)
    (h : AllPlaced ws) (id : DocumentId) : AllPlaced (ws.onDocument id f) := by
  intro d hd
  obtain ⟨old, hold, rfl⟩ := List.mem_map.mp hd
  have hplaced := h old hold
  split
  · split
    · next auth' hok =>
      obtain ⟨howner, hrows⟩ := hf _ _ hok rfl
      refine ⟨fun s hcreated => ?_, fun s hs => hplaced.owned s (howner.symm.trans hs)⟩
      have hsettled := hplaced.settled s hcreated
      change Settled s (old.withTables auth') (ws.claimant s)
      cases hclaimant : ws.claimant s with
      | none =>
        rw [hclaimant] at hsettled
        exact ⟨howner.trans hsettled.1, hsettled.2⟩
      | some p =>
        rw [hclaimant] at hsettled
        refine ⟨howner.trans hsettled.1, hsettled.2.1, fun row hrow hauthority => ?_⟩
        rcases hrows row hrow with hsame | hnew
        · exact hsettled.2.2 row hsame hauthority
        · rw [hnew s hauthority] at hclaimant
          cases hclaimant
    · exact ⟨hplaced.settled, hplaced.owned⟩
  · exact ⟨hplaced.settled, hplaced.owned⟩

/-! ## Creates and claims -/

theorem placed_same {ws ws' : Workspace} (hdocuments : ws'.documents = ws.documents)
    (hclaimant : ∀ s, ws'.claimant s = ws.claimant s) (h : AllPlaced ws) : AllPlaced ws' := by
  intro d hd
  rw [hdocuments] at hd
  refine ⟨fun s hcreated => ?_, (h d hd).owned⟩
  rw [hclaimant]
  exact (h d hd).settled s hcreated

variable {db : AuthorityTables}

theorem scratchCreate_claimant {id : ScratchId} {expiresAtMs : Millis}
    (h : scratchCreate (scratchTables ws.scratches) id expiresAtMs = .ok db) (s : ScratchId) :
    claimant { ws with scratches := db.scratches } s = ws.claimant s := by
  unfold scratchCreate at h
  split at h
  · simp at h
  next hnew =>
  cases h
  simp only [claimant, loadScratch, AuthorityTables.loadScratch, scratchTables, List.find?_append]
  by_cases hs : id = s
  · have hnone : ws.scratches.find? (·.id == s) = none := by
      rw [← hs]
      simpa [AuthorityTables.loadScratch, scratchTables] using hnew
    simp [hnone, hs]
  · simp [hs]

theorem admitCreation_placed (h : AllPlaced ws) (creation : Creation) (now : Millis) :
    AllPlaced (ws.admitCreation creation now) := by
  have hgrown : AllPlaced { ws with creations := ws.creations ++ [creation] } :=
    @placed_same ws _ rfl (fun _ => rfl) h
  cases hcaller : creation.caller with
  | principal session =>
    simp only [admitCreation, hcaller, if_true]
    exact hgrown
  | scratch s =>
    simp only [admitCreation, hcaller]
    split
    · exact hgrown
    · exact h

theorem commit_placed (h : AllPlaced ws) {n : Nat} {id : DocumentId} (hin : InTime ws (.commit n id)) :
    AllPlaced (ws.commit n id) := by
  cases hcreation : ws.creations[n]? with
  | none =>
    simp only [commit, hcreation]
    exact h
  | some creation =>
    simp only [commit, hcreation]
    split
    · next hinserts =>
      intro d hd
      rcases List.mem_append.mp hd with hold | hnew
      · exact ⟨(h d hold).settled, (h d hold).owned⟩
      rw [List.mem_singleton.mp hnew]
      refine ⟨fun s hcreated => ?_, fun s howner => howner⟩
      have hcaller : creation.caller = .scratch s := by
        cases hc : creation.caller with
        | principal session => simp [newDocument, callerOwner, hc] at hcreated
        | scratch id => simpa [newDocument, callerOwner, hc] using hcreated
      have hnone : ws.claimant s = none := hin n id creation s rfl hcreation hcaller hinserts
      change Settled s (newDocument creation id) (ws.claimant s)
      rw [hnone]
      exact ⟨hcreated, rfl⟩
    · exact @placed_same ws _ rfl (fun _ => rfl) h

variable {s : ScratchId} {p : PrincipalId}

theorem claimed_other {scratches : List ScratchRecord} {device : DeviceId}
    {d : CatalogDocument} (h : d.row.record.owner ≠ .scratch s) :
    d.claimed scratches s p device now = d := by
  have hd : (d.tables scratches).document.record.owner ≠ .scratch s := h
  simp only [CatalogDocument.claimed, if_neg h, claimScratchDocuments, if_neg hd]
  rfl

theorem claimed_own {scratches : List ScratchRecord} {s : ScratchId} {p : PrincipalId} {device : DeviceId}
    {now : Millis} {d : CatalogDocument} (h : d.row.record.owner = .scratch s) (hmoves : d.moves = []) :
    Moved s p (d.claimed scratches s p device now) ∧
      (d.claimed scratches s p device now).createdBy = d.createdBy := by
  have hd : (d.tables scratches).document.record.owner = .scratch s := h
  simp only [CatalogDocument.claimed, if_pos h, claimScratchDocuments, if_pos hd]
  refine ⟨⟨?_, ⟨d.row.record.authorizationEpoch, d.row.record.authorizationEpoch + 1, ?_, Nat.lt_succ_self _⟩,
    ?_⟩, rfl⟩
  · split <;> rfl
  · rw [hmoves]
    split <;> rfl
  intro row hrow
  have hmem : row ∈ d.sites.map fun row => if row.authority = .scratch s then
      { row with authority := SiteAuthority.principal p device } else row := by
    split at hrow <;> exact hrow
  obtain ⟨old, -, rfl⟩ := List.mem_map.mp hmem
  split
  · simp
  · assumption

theorem persistScratchClaim_cases
    (h : persistScratchClaim (scratchTables ws.scratches) s p now = .ok db) :
    (ws.claimant s = some p ∧ db.scratches = ws.scratches) ∨
      (ws.claimant s = none ∧ claimant { ws with scratches := db.scratches } s = some p ∧
        ∀ t ≠ s, claimant { ws with scratches := db.scratches } t = ws.claimant t) := by
  unfold persistScratchClaim at h
  split at h
  · simp at h
  next scratch hscratch =>
  have hload : ws.loadScratch s = some scratch := hscratch
  split at h
  · simp at h
  split at h
  · next hclaimed =>
    split at h
    · next heq =>
      cases h
      exact Or.inl ⟨by rw [claimant, hload, Option.bind_some, hclaimed, heq], rfl⟩
    · simp at h
  · next hnone =>
    cases h
    -- the update keeps every row's id, so a row is found where it was found before
    have hfind : ∀ t, loadScratch { ws with scratches := ws.scratches.map fun row =>
        if row.id = s ∧ row.claimedBy = none then { row with claimedBy := some p } else row } t =
        (ws.loadScratch t).map fun row =>
          if row.id = s ∧ row.claimedBy = none then { row with claimedBy := some p } else row := by
      intro t
      simp only [loadScratch, AuthorityTables.loadScratch, scratchTables, List.find?_map]
      congr 1
      refine congrArg (fun q => List.find? q ws.scratches) (funext fun row => ?_)
      simp only [Function.comp]
      split <;> rfl
    have hid : scratch.id = s := by simpa using List.find?_some hload
    refine Or.inr ⟨by rw [claimant, hload, Option.bind_some, hnone], ?_, fun t ht => ?_⟩
    · refine (congrArg (Option.bind · (·.claimedBy)) (hfind s)).trans ?_
      rw [hload]
      simp [hid, hnone]
    refine (congrArg (Option.bind · (·.claimedBy)) (hfind t)).trans ?_
    rw [claimant]
    cases ht' : ws.loadScratch t with
    | none => rfl
    | some row =>
      have hrow : row.id = t := by simpa using List.find?_some ht'
      simp [hrow, ht]

theorem claim_placed (h : AllPlaced ws) (s : ScratchId) (p : PrincipalId) (device : DeviceId) (now : Millis) :
    AllPlaced (ws.claim s p device now) := by
  unfold claim
  split
  · exact h
  next db hok =>
  intro d hd
  obtain ⟨old, hold, rfl⟩ := List.mem_map.mp hd
  have hplaced := h old hold
  rcases persistScratchClaim_cases hok with ⟨hclaimed, hsame⟩ | ⟨hnone, hnow, hother⟩
  · have howner : old.row.record.owner ≠ .scratch s := by
      have := (noStranded_of_placed h) s p hclaimed old hold
      exact this.1
    rw [claimed_other howner]
    refine ⟨fun t ht => ?_, hplaced.owned⟩
    have := hplaced.settled t ht
    rw [claimant, loadScratch, hsame]
    exact this
  · by_cases howner : old.row.record.owner = .scratch s
    · have hcreated := hplaced.owned s howner
      have hsettled := hplaced.settled s hcreated
      rw [hnone] at hsettled
      obtain ⟨hmoved, hsame⟩ :=
        @claimed_own ws.scratches s p device now old howner hsettled.2
      refine ⟨fun t ht => ?_, fun t ht => ?_⟩
      · rw [hsame, hcreated] at ht
        rw [← DocumentOwner.scratch.inj ht]
        change Settled s _ (claimant { ws with scratches := db.scratches } s)
        rw [hnow]
        exact hmoved
      · rw [hmoved.1] at ht
        exact DocumentOwner.noConfusion ht
    · rw [claimed_other howner]
      refine ⟨fun t ht => ?_, hplaced.owned⟩
      have hne : t ≠ s := by
        intro heq
        subst heq
        have := hplaced.settled t ht
        rw [hnone] at this
        exact howner this.1
      have := hplaced.settled t ht
      rw [← hother t hne] at this
      exact this

/-! ## Runs -/

theorem step_placed : Transition.Kept (fun ws e => step ws e) InTime AllPlaced := by
  intro ws e h hin
  cases e with
  | scratchCreate id expiresAtMs =>
    simp only [step]
    split
    · next db hok => exact @placed_same ws _ rfl (scratchCreate_claimant hok) h
    · exact h
  | admission creation now => exact admitCreation_placed h creation now
  | commit n id => exact commit_placed h hin
  | claim s p device now => exact claim_placed h s p device now
  | principalSession document session requested ticket secretHash now =>
    exact onDocument_placed (principalSession_keepsPlaces session requested ticket secretHash now) h document
  | scratchSession document s requested ticket secretHash now =>
    exact onDocument_placed (scratchSession_keepsPlaces s requested ticket secretHash now) h document
  | delete document caller now => exact onDocument_placed (delete_keepsPlaces caller now) h document
  | restore document caller => exact onDocument_placed (restore_keepsPlaces caller) h document

theorem late_stranded {e : WorkspaceEvent} (h : ¬ InTime ws e) : ¬ NoStranded (ws.step e) := by
  simp only [InTime, not_forall] at h
  obtain ⟨n, id, creation, s, rfl, hcreation, hcaller, hinserts, hclaimed⟩ := h
  obtain ⟨p, hp⟩ := Option.ne_none_iff_exists'.mp hclaimed
  have hdocuments : (ws.step (.commit n id)).documents = ws.documents ++ [newDocument creation id] := by
    have hins : inserts { ws with creations := ws.creations.eraseIdx n } creation id = true := hinserts
    simp only [step, commit, hcreation, if_pos hins]
  have hscratches : (ws.step (.commit n id)).claimant s = some p := by
    have hins : inserts { ws with creations := ws.creations.eraseIdx n } creation id = true := hinserts
    simp only [step, commit, hcreation, if_pos hins]
    exact hp
  intro hno
  refine (hno s p hscratches (newDocument creation id) ?_).1 ?_
  · rw [hdocuments]
    exact List.mem_append_right _ (List.mem_singleton.mpr rfl)
  · simp [newDocument, callerOwner, hcaller]

theorem noStranded_iff_inTime (events : List WorkspaceEvent) :
    (∀ n, NoStranded (after (events.take n))) ↔
      Transition.Along (fun ws e => step ws e) InTime init events :=
  Transition.along_iff step_placed (fun _ => noStranded_of_placed) (fun _ _ _ => late_stranded)
    (by intro d hd; exact by cases hd)

def lateCreate : List WorkspaceEvent :=
  [.scratchCreate 1 1000, .admission ⟨.scratch 1, none, none⟩ 0, .claim 1 7 3 10, .commit 0 5]

theorem lateCreate_strands : ¬ NoStranded (after lateCreate) := by
  intro h
  have hd : (⟨5, ⟨⟨.scratch 1, 1, none⟩, true⟩, [], [], [], none, .scratch 1, []⟩ : CatalogDocument) ∈
      (after lateCreate).documents := by decide
  exact (h 1 7 (by decide) _ hd).1 rfl

end Workspace

end Marks
