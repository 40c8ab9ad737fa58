import Marks.Tape
import Marks.AuthoritySound
import Marks.DurableSound
import Marks.Tabs

/-! # One site, one replica

A server gives a site out once, so two replicas of a document share one only through a journal: a page is
opened from it while another replica is at its site, or without operations made there. Where neither
happens, running replicas have sites of their own and an operation's name is its own. -/

namespace Marks

open List

section
variable (E : Esbt)

def ReplicaJournalRecord.keepsName (record : ReplicaJournalRecord) (name : Operation) : Bool :=
  (E.carried record.snapshot).any (fun op => E.name op == name) ||
    record.pending.any fun m => (E.carried m.bytes).any fun op => E.name op == name

/-- No running page of another tab is at `site`. -/
def Tabs.vacant (w : Tabs E) (site : SiteId) : Bool :=
  w.tabs.all fun tab =>
    match tab.state with
    | .open page => page.stopped || E.site page.doc != site
    | _ => true

/-- A page is opened from a journal only where no running replica is at its site and the journal keeps
every operation made there. -/
def Tabs.soleOpen (w : Tabs E) : TabEvent E → Bool
  | .opens browser =>
    match w.journals browser with
    | some stored => w.vacant E stored.siteId && w.made.all fun op =>
        (E.name op).origin != stored.siteId || stored.keepsName E (E.name op)
    | none => true
  | _ => true

end

/-! ## Sites the server gave out -/

def AuthorityTables.siteIds (auth : AuthorityTables) : List SiteId := auth.sites.map (·.siteId)

variable {secretHash : Bytes} {now : Millis}

variable {ticket : TicketId}

section
variable {auth auth' : AuthorityTables} {site : SiteId}

variable {requested : Option SiteId}

theorem allocateSite_ids {authority : SiteAuthority}
    (h : allocateSite auth requested authority = .ok (auth', site)) :
    (auth' = auth ∧ requested = some site ∧ site ∈ auth.siteIds) ∨
      (auth'.siteIds = auth.siteIds ++ [site] ∧ site ∉ auth.siteIds ∧
        ∀ s, requested = some s → s ∉ auth.siteIds) := by
  unfold allocateSite at h
  split at h
  · next row hrow =>
    split at h
    · cases h
      obtain ⟨s, hs, hfind⟩ := Option.bind_eq_some_iff.mp hrow
      have hid : row.siteId = s := by simpa using find?_some hfind
      refine Or.inl ⟨rfl, by rw [hs, hid], ?_⟩
      exact mem_map.mpr ⟨row, mem_of_find?_eq_some hfind, rfl⟩
    · simp at h
  · next hnone =>
    split at h
    · next free hfree =>
      cases h
      obtain ⟨hfound, -⟩ := Option.filter_eq_some_iff.mp hfree
      have hnew := find?_some hfound
      refine Or.inr ⟨by simp [AuthorityTables.siteIds], ?_, ?_⟩
      · intro hmem
        rw [AuthorityTables.siteIds] at hmem
        simp [hmem] at hnew
      intro s hs hmem
      obtain ⟨row, hrow, hid⟩ := mem_map.mp hmem
      rw [hs, Option.bind_some] at hnone
      have := find?_eq_none.mp hnone row hrow
      simp [hid] at this
    · simp at h

theorem roomSession_ids {caller : Caller}
    (h : roomSession auth caller requested ticket secretHash now = .ok (auth', site)) :
    (∀ s ∈ auth.siteIds, s ∈ auth'.siteIds) ∧ site ∈ auth'.siteIds ∧
      (requested = some site ∨ site ∉ auth.siteIds) ∧
        ∀ s, requested = some s → s ∈ auth.siteIds → site = s := by
  have hids : ∃ mid authority, allocateSite auth requested authority = .ok (mid, site) ∧
      auth'.sites = mid.sites := by
    cases caller with
    | principal session =>
      obtain ⟨role, sites, ticket, -, allocated, -, rfl⟩ := principalRoomSession_ok h
      exact ⟨_, _, allocated, rfl⟩
    | scratch scratchId =>
      obtain ⟨scratch, role, sites, ticket, -, allocated, -, rfl⟩ := scratchRoomSession_ok h
      exact ⟨_, _, allocated, rfl⟩
  obtain ⟨mid, authority, hallocated, hsites⟩ := hids
  have hsame : auth'.siteIds = mid.siteIds := congrArg (List.map SiteRow.siteId) hsites
  rw [hsame]
  rcases allocateSite_ids hallocated with ⟨rfl, hreq, hmem⟩ | ⟨hnew, hfresh, hreq⟩
  · refine ⟨fun _ hs => hs, hmem, Or.inl hreq, fun s hs _ => ?_⟩
    exact Option.some.inj (hreq.symm.trans hs)
  · rw [hnew]
    exact ⟨fun _ hs => mem_append_left _ hs, mem_append_right _ (mem_singleton.mpr rfl),
      Or.inr hfresh, fun s hs hmem => absurd hmem (hreq s hs)⟩

theorem claim_ids {scratchId : ScratchId} {principalId : PrincipalId} {device : DeviceId}
    (h : claim auth scratchId principalId device now = .ok auth') : auth'.siteIds = auth.siteIds := by
  have hclaimed : (claimScratchDocuments auth scratchId principalId device now).siteIds = auth.siteIds := by
    have hmap : ∀ rows : List SiteRow, (rows.map fun row => if row.authority = .scratch scratchId then
        { row with authority := .principal principalId device } else row).map (·.siteId) =
          rows.map (·.siteId) := by
      intro rows
      rw [map_map]
      refine map_congr_left fun row _ => ?_
      simp only [Function.comp]
      split
      · rfl
      · rfl
    unfold claimScratchDocuments
    split
    · simp only [AuthorityTables.siteIds]
      split
      · exact hmap _
      · exact hmap _
    · rfl
  rw [← hclaimed]
  simp only [claim, persistScratchClaim] at h
  split at h
  · simp at h
  split at h
  · simp at h
  split at h
  · split at h
    · rw [← Except.ok.inj h]
    · simp at h
  · rw [← Except.ok.inj h]
    rfl

end

/-! ## A page goes on -/

def JournalJob.fallback : JournalJob → ReplicaJournalRecord
  | append fallback _ _ => fallback
  | checkpoint fallback => fallback
  | acknowledge fallback _ => fallback

variable {E : Esbt}

structure Continues (s t : Session E) : Prop where
  site : t.marksSiteId = s.marksSiteId
  doc_site : E.site t.doc = E.site s.doc
  held : ∀ op ∈ E.held s.doc, op ∈ E.held t.doc
  stopped : s.stopped = true → t.stopped = true
  lane : ∀ job ∈ t.lane, job ∈ s.lane ∨ job.fallback.siteId = s.marksSiteId

variable {job : JournalJob}

section
variable {s t u : Session E} {A : Allowed E}

theorem Continues.refl : Continues s s := ⟨rfl, rfl, fun _ h => h, id, fun _ h => Or.inl h⟩

theorem Continues.trans (h : Continues s t) (h' : Continues t u) : Continues s u where
  site := h'.site.trans h.site
  doc_site := h'.doc_site.trans h.doc_site
  held := fun op hop => h'.held op (h.held op hop)
  stopped := fun hs => h'.stopped (h.stopped hs)
  lane := by
    intro job hmem
    rcases h'.lane job hmem with hmem | hsite
    · exact h.lane job hmem
    · exact Or.inr (hsite.trans h.site)

theorem Continues.running (h : Continues s t) (hrun : t.stopped = false) : s.stopped = false := by
  by_contra hstop
  rw [h.stopped (Bool.not_eq_false _ ▸ hstop)] at hrun
  cases hrun

theorem enqueue_continues (hj : job.fallback.siteId = s.marksSiteId) :
    Continues s (s.enqueue job) := by
  refine ⟨rfl, rfl, fun _ h => h, id, fun job' hmem => ?_⟩
  rcases mem_append.mp hmem with hmem | hmem
  · exact Or.inl hmem
  · exact Or.inr (mem_singleton.mp hmem ▸ hj)

theorem atom_continues (ho : E.Origins) (hr : E.Replicates) (h : s.Atom A t) : Continues s t := by
  cases h with
  | quiet h =>
    exact ⟨h.site, by rw [h.doc], by rw [h.doc]; exact fun _ hop => hop, h.stopped,
      fun job hmem => Or.inl (h.lane ▸ hmem)⟩
  | sent m hm hs => exact ⟨rfl, rfl, fun _ h => h, id, fun _ h => Or.inl h⟩
  | shown m => exact ⟨rfl, rfl, fun _ h => h, id, fun _ h => Or.inl h⟩
  | minted kind bytes byTyping hm hb hs =>
    refine ⟨rfl, rfl, fun _ h => h, id, fun job hmem => ?_⟩
    rcases mem_append.mp hmem with hmem | hmem
    · exact Or.inl hmem
    · rw [mem_singleton.mp hmem]
      exact Or.inr rfl
  | edited change hm doc bytes hd hs =>
    exact ⟨rfl, ho.site_edit hd, fun op hop => (hr.edit_held hd op).mpr (Or.inl hop), id, fun _ h => Or.inl h⟩
  | loaded bytes hm doc hd => exact ⟨rfl, ho.site_load hd, hr.load_keeps hd, id, fun _ h => Or.inl h⟩
  | pruned version doc hd =>
    refine ⟨rfl, ho.site_prune hd, ?_, id, fun _ h => Or.inl h⟩
    rw [hr.prune_held hd]
    exact fun _ h => h
  | checkpointed hs => exact enqueue_continues rfl
  | acked receipt hm hs =>
    have hrec : Continues s (s.record (.acknowledged receipt.id)) :=
      ⟨rfl, rfl, fun _ h => h, id, fun _ h => Or.inl h⟩
    exact hrec.trans (enqueue_continues rfl)
  | retired id hm => exact ⟨rfl, rfl, fun _ h => h, fun h => h, fun _ h => Or.inl h⟩

theorem steps_continue (ho : E.Origins) (hr : E.Replicates) (h : s.Steps A t) : Continues s t :=
  h.keeps (P := fun t => Continues s t) (fun _ _ hat hst => hst.trans (atom_continues ho hr hat)) Continues.refl

theorem continues_of_eq (hd : t.doc = s.doc) (hm : t.marksSiteId = s.marksSiteId)
    (hs : s.stopped = true → t.stopped = true) (hl : ∀ job ∈ t.lane, job ∈ s.lane) : Continues s t :=
  ⟨hm, by rw [hd], fun op hop => hd ▸ hop, hs, fun job hmem => Or.inl (hl job hmem)⟩

end

variable {record : ReplicaJournalRecord}

section
variable {s : Session E}

def everything (E : Esbt) : Allowed E :=
  ⟨fun _ => True, fun _ _ _ _ => True, fun _ => True, fun _ => True, fun _ => True, fun _ => True⟩

theorem everything_cuts (doc : E.Doc) (version : Bytes) : Session.Cuts (everything E) doc version :=
  fun _ _ _ => trivial

theorem react_continues (ho : E.Origins) (hr : E.Replicates) (e : ClientEvent E) :
    Continues s (s.react E e) := by
  refine steps_continue ho hr (A := everything E) (Session.react_steps ?_)
  exact {
    walk := fun _ _ _ => trivial
    cut := fun doc version _ => everything_cuts doc version
    edit := fun _ _ => ⟨trivial, fun _ _ _ => trivial⟩
    fetched := fun _ _ => trivial
    update := fun _ _ => trivial
    snapshot := fun _ _ => trivial
    committed := fun _ _ => trivial
    tabUpdate := fun _ _ => ⟨trivial, fun _ _ _ => trivial⟩
    tabSnapshot := fun _ _ => trivial }

theorem settled_continues (ho : E.Origins) (hr : E.Replicates) (job : JournalJob) :
    Continues s (s.settled E job) := by
  refine steps_continue ho hr (A := everything E) (Session.settled_steps ?_ ?_ ?_)
  · exact fun _ _ _ _ => trivial
  · exact fun _ _ _ => trivial
  · exact fun doc version _ => everything_cuts doc version

theorem failed_continues : Continues s s.failed := by
  have hquiet : Session.Quiet { s with localSaved := false } s.failed := Session.recordStorageError_quiet
  exact continues_of_eq hquiet.doc hquiet.site hquiet.stopped fun job hmem => hquiet.lane ▸ hmem

theorem written_site {stored : Option ReplicaJournalRecord}
    (h : s.written E stored job = some record) : record.siteId = (stored.getD job.fallback).siteId := by
  cases job with
  | append fallback mutation byTyping => exact (appendMutation_rest h).1
  | checkpoint fallback =>
    obtain ⟨snapshot, -, hrecord⟩ := Option.map_eq_some_iff.mp h
    rw [← hrecord]
    rfl
  | acknowledge fallback receipt =>
    obtain ⟨snapshot, -, hrecord⟩ := Option.map_eq_some_iff.mp h
    rw [← hrecord]
    rfl

theorem persistAndSendMutation_doc (bytes : Bytes) (kind : MutationKind) (byTyping : Bool) :
    (s.persistAndSendMutation bytes kind byTyping).doc = s.doc := by
  by_cases h : s.stopped = true ∨ bytes = []
  · unfold Session.persistAndSendMutation
    rw [if_pos h]
  rw [Session.persistAndSendMutation_eq h]
  split
  · rfl
  · rfl

theorem edit_doc {change : E.Edit} (hrun : s.stopped = false) {doc : E.Doc} {bytes : Bytes}
    (h : E.edit s.doc change = some (doc, bytes)) : (s.edit E change).doc = doc := by
  unfold Session.edit
  rw [if_neg (by simp [hrun]), h]
  exact persistAndSendMutation_doc bytes .update true

end

/-! ## One event of a client -/

variable {e : ClientEvent E}

section
variable {c : Client E} {s t : Session E}

theorem client_continues (ho : E.Origins) (hr : E.Replicates) (hs : c.page = some s) (e : ClientEvent E)
    (ht : (c.step E e).page = some t) : Continues s t := by
  have hput : ∀ u : Session E, Continues s u → Continues s { u with out := [] } :=
    fun u hu => hu.trans (continues_of_eq rfl rfl id fun _ h => h)
  have hpage : c.onPage E (fun s => s.react E e) = c.putPage E (s.react E e) := by
    simp only [Client.onPage, hs]
  have hreact : (c.onPage E (fun s => s.react E e)).page = some t → Continues s t := by
    intro ht
    rw [hpage] at ht
    exact Option.some.inj ht ▸ hput _ (react_continues ho hr e)
  have hsame : c.page = some t → Continues s t := by
    intro ht
    rw [hs] at ht
    exact Option.some.inj ht ▸ Continues.refl
  cases e with
  | opens site =>
    simp only [Client.step, Client.opens, hs] at ht
    exact Option.some.inj ht ▸ Continues.refl
  | persist storage =>
    simp only [Client.step, Client.persist, hs] at ht
    split at ht
    · exact hsame (hs ▸ ht)
    next job lane hlane =>
    have hrest : Continues s { s with lane } :=
      continues_of_eq rfl rfl id fun _ h => hlane ▸ mem_cons_of_mem job h
    split at ht
    · exact Option.some.inj ht ▸ hput _ (hrest.trans failed_continues)
    refine Option.some.inj ht ▸ hput _ (hrest.trans ?_)
    split
    · exact settled_continues ho hr job
    · exact failed_continues
  | crash => simp [Client.step] at ht
  | commit mutation =>
    refine hsame ?_
    rw [← ht]
    simp only [Client.step, Client.commit]
    split
    · rfl
    · rfl
  | others operations => exact hsame ht
  | fetched bytes => exact hreact ht
  | checkpoint => exact hreact ht
  | edit change => exact hreact ht
  | prune version => exact hreact ht
  | compact => exact hreact ht
  | connect => exact hreact ht
  | socketOpen => exact hreact ht
  | socketClosing => exact hreact ht
  | message message => exact hreact ht
  | disconnect code => exact hreact ht
  | offline => exact hreact ht
  | pageHide => exact hreact ht
  | tab message => exact hreact ht

theorem client_journal (hs : c.page = some s) (e : ClientEvent E)
    (h : (c.step E e).journal = some record) :
    (∃ stored, c.journal = some stored ∧ record.siteId = stored.siteId) ∨
      ∃ job ∈ s.lane, record.siteId = job.fallback.siteId := by
  have hsame : c.journal = some record → (∃ stored, c.journal = some stored ∧ record.siteId = stored.siteId) ∨
      ∃ job ∈ s.lane, record.siteId = job.fallback.siteId := fun h => Or.inl ⟨record, h, rfl⟩
  have hreact : (c.onPage E (fun s => s.react E e)).journal = some record →
      (∃ stored, c.journal = some stored ∧ record.siteId = stored.siteId) ∨
        ∃ job ∈ s.lane, record.siteId = job.fallback.siteId := by
    intro h
    simp only [Client.onPage, hs] at h
    exact hsame h
  cases e with
  | opens site =>
    simp only [Client.step, Client.opens, hs] at h
    exact hsame h
  | persist storage =>
    simp only [Client.step, Client.persist, hs] at h
    split at h
    · exact hsame h
    next job lane hlane =>
    split at h
    · exact hsame h
    next stored hwritten =>
    have hrecord : record = stored := (Option.some.inj h).symm
    split at hwritten
    · simp at hwritten
    rw [hrecord, written_site hwritten]
    cases hjournal : c.journal with
    | none => exact Or.inr ⟨job, hlane ▸ mem_cons_self, rfl⟩
    | some old => exact Or.inl ⟨old, rfl, rfl⟩
  | crash => exact hsame h
  | commit mutation =>
    refine hsame ?_
    rw [← h]
    simp only [Client.step, Client.commit]
    split
    · rfl
    · rfl
  | others operations => exact hsame h
  | fetched bytes => exact hreact h
  | checkpoint => exact hreact h
  | edit change => exact hreact h
  | prune version => exact hreact h
  | compact => exact hreact h
  | connect => exact hreact h
  | socketOpen => exact hreact h
  | socketClosing => exact hreact h
  | message message => exact hreact h
  | disconnect code => exact hreact h
  | offline => exact hreact h
  | pageHide => exact hreact h
  | tab message => exact hreact h

variable {op : E.Op}

theorem makes_mem (ho : E.Origins) (hr : E.Replicates)
    (h : op ∈ Tabs.makes s e) :
    s.stopped = false ∧ (E.name op).origin = E.site s.doc ∧ (∀ known ∈ E.held s.doc, E.name known ≠ E.name op) ∧
      op ∈ E.held (s.react E e).doc ∧ ∀ op' ∈ Tabs.makes s e, E.name op = E.name op' → op = op' := by
  cases e with
  | edit change =>
    simp only [Tabs.makes] at h ⊢
    split at h
    · cases h
    next hrun =>
    have hrun : s.stopped = false := Bool.not_eq_true _ ▸ hrun
    split at h
    · next doc bytes hedit =>
      refine ⟨hrun, ho.edit_own hedit op h, hr.edit_fresh hedit op h, ?_, ?_⟩
      · show op ∈ E.held (s.edit E change).doc
        rw [edit_doc hrun hedit]
        exact (hr.edit_held hedit op).mpr (Or.inr h)
      · intro op' hop'
        simp only [hrun] at hop'
        exact hr.edit_once hedit op h op' hop'
    · cases h
  | _ => cases h

theorem makes_held (ho : E.Origins) (hr : E.Replicates) (hs : c.page = some s)
    (h : op ∈ Tabs.makes s e) (ht : (c.step E e).page = some t) : op ∈ E.held t.doc := by
  obtain ⟨-, -, -, hheld, -⟩ := makes_mem ho hr h
  cases e with
  | edit change =>
    simp only [Client.step, Client.onPage, hs] at ht
    cases ht
    exact hheld
  | _ => cases h

end

/-! ## The invariant -/

def TabState.page : TabState E → Option (Session E)
  | .open page => some page
  | _ => none

namespace Tabs

def pageAt (w : Tabs E) (t : TabId) : Option (Session E) := w.tabs[t]?.bind fun tab => tab.state.page

def SitesApart (w : Tabs E) : Prop :=
  ∀ t t' p p', w.pageAt t = some p → w.pageAt t' = some p' → p.stopped = false → p'.stopped = false →
    E.site p.doc = E.site p'.doc → t = t'

def NamesOnce (w : Tabs E) : Prop :=
  ∀ op ∈ w.made, ∀ op' ∈ w.made, E.name op = E.name op' → op = op'

structure Sited (ids : List SiteId) (page : Session E) : Prop where
  site : page.marksSiteId ∈ ids
  doc_site : E.site page.doc ∈ ids
  lane : ∀ job ∈ page.lane, job.fallback.siteId ∈ ids

def HoldsOwn (made : List E.Op) (page : Session E) : Prop :=
  ∀ op ∈ made, (E.name op).origin = E.site page.doc → ∃ known ∈ E.held page.doc, E.name known = E.name op

structure Apart (w : Tabs E) : Prop where
  sited : ∀ t page, w.pageAt t = some page → Sited w.auth.siteIds page
  journals : ∀ b record, w.journals b = some record → record.siteId ∈ w.auth.siteIds
  made : ∀ op ∈ w.made, (E.name op).origin ∈ w.auth.siteIds
  distinct : w.SitesApart
  holds : ∀ t page, w.pageAt t = some page → page.stopped = false → HoldsOwn w.made page
  once : w.NamesOnce

variable {page : Session E}

variable {ids : List SiteId}

theorem Sited.mono {ids' : List SiteId} (h : Sited ids page) (hids : ∀ s ∈ ids, s ∈ ids') :
    Sited ids' page :=
  ⟨hids _ h.site, hids _ h.doc_site, fun job hmem => hids _ (h.lane job hmem)⟩

theorem Sited.continues {p q : Session E} (h : Sited ids p) (hc : Continues p q) :
    Sited ids q where
  site := hc.site ▸ h.site
  doc_site := hc.doc_site ▸ h.doc_site
  lane := by
    intro job hmem
    rcases hc.lane job hmem with hold | hsite
    · exact h.lane job hold
    · exact hsite ▸ h.site

variable {w w' : Tabs E}

theorem Apart.put (h : Apart w) (t : TabId) (q : Option (Session E)) (new : List E.Op)
    (hauth : ∀ s ∈ w.auth.siteIds, s ∈ w'.auth.siteIds)
    (hpages : ∀ t', w'.pageAt t' = if t' = t then q else w.pageAt t')
    (hjournals : ∀ b record, w'.journals b = some record → record.siteId ∈ w'.auth.siteIds)
    (hmade : w'.made = w.made ++ new)
    (hsited : ∀ page, q = some page → Sited w'.auth.siteIds page)
    (halone : ∀ page, q = some page → page.stopped = false → ∀ t' p', t' ≠ t → w.pageAt t' = some p' →
      p'.stopped = false → E.site page.doc ≠ E.site p'.doc)
    (hholds : ∀ page, q = some page → page.stopped = false → HoldsOwn w'.made page)
    (hnew : ∀ op ∈ new, (E.name op).origin ∈ w'.auth.siteIds ∧
      (∀ t' p', t' ≠ t → w.pageAt t' = some p' → p'.stopped = false → (E.name op).origin ≠ E.site p'.doc) ∧
      (∀ known ∈ w.made, E.name known ≠ E.name op) ∧ ∀ op' ∈ new, E.name op = E.name op' → op = op') :
    Apart w' where
  sited := by
    intro t' page hpage
    rw [hpages] at hpage
    split at hpage
    · exact hsited page hpage
    · exact (h.sited t' page hpage).mono hauth
  journals := hjournals
  made := by
    intro op hop
    rw [hmade] at hop
    rcases mem_append.mp hop with hop | hop
    · exact hauth _ (h.made op hop)
    · exact (hnew op hop).1
  distinct := by
    intro t₁ t₂ p₁ p₂ h₁ h₂ hr₁ hr₂ hsite
    rw [hpages] at h₁ h₂
    by_cases ht₁ : t₁ = t <;> by_cases ht₂ : t₂ = t
    · exact ht₁.trans ht₂.symm
    · rw [if_pos ht₁] at h₁
      rw [if_neg ht₂] at h₂
      exact absurd hsite (halone p₁ h₁ hr₁ t₂ p₂ ht₂ h₂ hr₂)
    · rw [if_neg ht₁] at h₁
      rw [if_pos ht₂] at h₂
      exact absurd hsite.symm (halone p₂ h₂ hr₂ t₁ p₁ ht₁ h₁ hr₁)
    · rw [if_neg ht₁] at h₁
      rw [if_neg ht₂] at h₂
      exact h.distinct t₁ t₂ p₁ p₂ h₁ h₂ hr₁ hr₂ hsite
  holds := by
    intro t' page hpage hrun
    rw [hpages] at hpage
    by_cases ht : t' = t
    · rw [if_pos ht] at hpage
      exact hholds page hpage hrun
    rw [if_neg ht] at hpage
    intro op hop hsite
    rw [hmade] at hop
    rcases mem_append.mp hop with hop | hop
    · exact h.holds t' page hpage hrun op hop hsite
    · exact absurd hsite ((hnew op hop).2.1 t' page ht hpage hrun)
  once := by
    intro op hop op' hop' heq
    rw [hmade] at hop hop'
    rcases mem_append.mp hop with hop | hop <;> rcases mem_append.mp hop' with hop' | hop'
    · exact h.once op hop op' hop' heq
    · exact absurd heq ((hnew op' hop').2.2.1 op hop)
    · exact absurd heq.symm ((hnew op hop).2.2.1 op' hop')
    · exact (hnew op hop).2.2.2 op' hop' heq

theorem pageAt_setTab {t : TabId} {tab : Tab E} (ht : w.tabs[t]? = some tab) (browser : BrowserId)
    (state : TabState E) (t' : TabId) :
    (w.setTab t browser state).pageAt t' =
      if t' = t then state.page else w.pageAt t' := by
  have hlt : t < w.tabs.length := (List.getElem?_eq_some_iff.mp ht).1
  simp only [pageAt, setTab, getElem?_set]
  by_cases h : t = t'
  · subst h
    simp only [if_true, if_pos hlt, Option.bind_some]
  · rw [if_neg h, if_neg (Ne.symm h)]

theorem pageAt_snoc (browser : BrowserId) (state : TabState E) (hw : w'.tabs = w.tabs ++ [⟨browser, state⟩])
    (t' : TabId) :
    w'.pageAt t' =
      if t' = w.tabs.length then state.page else w.pageAt t' := by
  simp only [pageAt, hw]
  by_cases h : t' = w.tabs.length
  · subst h
    simp only [getElem?_concat_length, if_true, Option.bind_some]
  rw [if_neg h]
  by_cases hlt : t' < w.tabs.length
  · rw [getElem?_append_left hlt]
  have hnone : w.tabs[t']? = none := List.getElem?_eq_none_iff.mpr (Nat.le_of_not_lt hlt)
  have hpast : w.tabs.length < t' := Nat.lt_of_le_of_ne (Nat.le_of_not_lt hlt) (Ne.symm h)
  have hnone' : (w.tabs ++ [(⟨browser, state⟩ : Tab E)])[t']? = none := by
    rw [List.getElem?_eq_none_iff, length_append]
    exact hpast
  rw [hnone, hnone']

variable {browser : BrowserId}

theorem pageAt_open {t : TabId}
    (ht : w.tabs[t]? = some ⟨browser, .open page⟩) : w.pageAt t = some page := by
  simp only [pageAt, ht, Option.bind_some, TabState.page]

theorem putClient_page (browser : BrowserId) (c : Client E) : (w.putClient browser c).2.page = c.page := by
  simp only [putClient]
  cases c.page <;> rfl

theorem blank_page (browser : BrowserId) (site : SiteId) :
    ∃ page, (({ w.asClient browser none with journal := none } : Client E).opens E site).page = some page ∧
      page.doc = E.create site ∧ page.marksSiteId = site ∧ page.lane = [] :=
  ⟨_, rfl, rfl, rfl, rfl⟩

variable {stored : ReplicaJournalRecord}

theorem stored_page (ho : E.Origins) (hr : E.Replicates) {site : SiteId}
    (hstored : w.journals browser = some stored)
    (hpage : ((w.asClient browser none).opens E site).page = some page) :
    page.marksSiteId = stored.siteId ∧ E.site page.doc = stored.siteId ∧
      (∀ job ∈ page.lane, job.fallback.siteId = stored.siteId) ∧
      (page.stopped = false → ∀ name, stored.keepsName E name = true →
        ∃ known ∈ E.held page.doc, E.name known = name) := by
  simp only [Client.opens, asClient, Option.map_none, hstored] at hpage
  split at hpage
  · next doc hdoc =>
    let c : Client E := w.asClient browser none
    have hpage : { c.startStored E stored doc with out := [] } = page := Option.some.inj hpage
    have hsite : E.site doc = stored.siteId := by
      split at hdoc
      · rw [← Option.some.inj hdoc, ho.site_create]
      · rw [ho.site_load hdoc, ho.site_create]
    have hloaded : Continues (c.restored stored doc)
        (stored.pending.foldl (Client.importPending E) (c.restored stored doc)) :=
      steps_continue ho hr (A := everything E) (Session.importPendings_steps fun _ _ => trivial)
    have hgoes : Continues (c.restored stored doc) page := by
      refine hloaded.trans (hpage ▸ continues_of_eq rfl rfl (fun hstop => ?_) fun _ h => h)
      exact hstop
    refine ⟨hgoes.site, hgoes.doc_site.trans hsite, fun job hmem => ?_, fun hrun name hname => ?_⟩
    · rcases hgoes.lane job hmem with hmem | hfallback
      · cases hmem
      · exact hfallback
    have hfatal : (stored.pending.foldl (Client.importPending E) (c.restored stored doc)).storageFatal = false := by
      rw [← hpage] at hrun
      exact Session.running_writes hrun
    obtain ⟨-, hkeeps, hnames⟩ := Client.importPendings_names hr stored.pending _ hfatal
    have hheld : E.held (stored.pending.foldl (Client.importPending E) (c.restored stored doc)).doc =
        E.held page.doc := by rw [← hpage]; rfl
    rw [← hheld]
    simp only [ReplicaJournalRecord.keepsName, Bool.or_eq_true, any_eq_true, beq_iff_eq] at hname
    rcases hname with ⟨op, hop, hname⟩ | ⟨m, hm, op, hop, hname⟩
    · split at hdoc
      · next hempty =>
        rw [hempty, hr.carried_nil] at hop
        cases hop
      · obtain ⟨known, hk, hn⟩ := hr.load_names hdoc op hop
        exact ⟨known, hkeeps known hk, hn.trans hname⟩
    · obtain ⟨known, hk, hn⟩ := hnames m hm op hop
      exact ⟨known, hk, hn.trans hname⟩
  · split at hpage
    · simp at hpage
    · simp at hpage

theorem stored_journal {site : SiteId}
    (hstored : w.journals browser = some stored)
    (h : ((w.asClient browser none).opens E site).journal = some record) : record.siteId = stored.siteId := by
  simp only [Client.opens, asClient, Option.map_none, hstored] at h
  split at h
  · rw [← Option.some.inj h]
  split at h
  · rw [← Option.some.inj h]
  · rw [← Option.some.inj h]

theorem journals_given (h : Apart w) {journal : Option ReplicaJournalRecord}
    (hjournal : ∀ record, journal = some record → record.siteId ∈ w.auth.siteIds) (b : BrowserId)
    (record : ReplicaJournalRecord) (hb : (if b = browser then journal else w.journals b) = some record) :
    record.siteId ∈ w.auth.siteIds := by
  split at hb
  · exact hjournal record hb
  · exact h.journals b record hb

theorem vacant_ne {site : SiteId} (h : w.vacant E site = true) {t : TabId}
    (hpage : w.pageAt t = some page) (hrun : page.stopped = false) : site ≠ E.site page.doc := by
  obtain ⟨⟨browser, state⟩, ht, hpage⟩ := Option.bind_eq_some_iff.mp hpage
  have hvacant := all_eq_true.mp h _ (mem_of_getElem? ht)
  cases state with
  | «open» found =>
    rw [Option.some.inj hpage] at hvacant
    simp only [hrun, Bool.false_or, bne_iff_ne] at hvacant
    exact Ne.symm hvacant
  | admitting => simp [TabState.page] at hpage
  | closed => simp [TabState.page] at hpage

theorem opens_apart (ho : E.Origins) (hr : E.Replicates) (h : Apart w)
    (hs : w.soleOpen E (.opens browser) = true) : Apart (w.opens browser) := by
  unfold opens
  cases hjournal : w.journals browser with
  | none =>
    refine h.put w.tabs.length none [] (fun _ hs => hs) ?_ h.journals (append_nil _).symm ?_ ?_ ?_ ?_
    · exact pageAt_snoc browser .admitting rfl
    · exact fun _ hpage => by cases hpage
    · exact fun _ hpage => by cases hpage
    · exact fun _ hpage => by cases hpage
    · exact fun _ hop => by cases hop
  | some stored =>
    simp only [soleOpen, hjournal, Bool.and_eq_true] at hs
    obtain ⟨hvacant, hkept⟩ := hs
    have hgiven := h.journals browser stored hjournal
    let c := (w.asClient browser none).opens E 0
    refine h.put w.tabs.length c.page [] (fun _ hs => hs) ?_ ?_ (append_nil _).symm ?_ ?_ ?_ ?_
    · intro t'
      exact putClient_page browser c ▸ pageAt_snoc browser (w.putClient browser c).2 rfl t'
    · exact journals_given h fun record hrecord => stored_journal hjournal hrecord ▸ hgiven
    · intro page hpage
      obtain ⟨hsite, hdoc, hlane, -⟩ := stored_page ho hr hjournal hpage
      exact ⟨hsite ▸ hgiven, hdoc ▸ hgiven, fun job hmem => hlane job hmem ▸ hgiven⟩
    · intro page hpage _ t' p' _ hp' hrun'
      rw [(stored_page ho hr hjournal hpage).2.1]
      exact vacant_ne hvacant hp' hrun'
    · intro page hpage hrun op hop hsite
      obtain ⟨-, hdoc, -, hnames⟩ := stored_page ho hr hjournal hpage
      have hkept := all_eq_true.mp hkept op hop
      simp only [Bool.or_eq_true, bne_iff_ne] at hkept
      exact hnames hrun _ (hkept.resolve_left (not_not.mpr (hsite.trans hdoc)))
    · exact fun _ hop => by cases hop

theorem admitted_apart (ho : E.Origins) {t : TabId} {caller : Caller}
    (h : Apart w) : Apart (w.admitted t caller ticket secretHash now) := by
  unfold admitted
  split
  · next browser ht =>
    split
    · exact h
    next auth site hsession =>
    obtain ⟨hgrow, hgiven, hfresh, -⟩ := roomSession_ids hsession
    have hfresh : site ∉ w.auth.siteIds := hfresh.resolve_left (by simp)
    obtain ⟨page, hpage, hdoc, hsite, hlane⟩ := blank_page (w := { w with auth }) browser site
    simp only [hpage]
    have hat : E.site page.doc = site := by rw [hdoc, ho.site_create]
    refine h.put t (some page) [] hgrow ?_ ?_ (append_nil _).symm ?_ ?_ ?_ ?_
    · exact pageAt_setTab (w := { w with auth }) ht browser (.open page)
    · exact fun b record hb => hgrow _ (h.journals b record hb)
    · intro p hp
      cases hp
      refine ⟨hsite ▸ hgiven, hat ▸ hgiven, fun job hmem => ?_⟩
      rw [hlane] at hmem
      cases hmem
    · intro p hp _ t' p' _ hp' _ heq
      rw [← Option.some.inj hp, hat] at heq
      exact hfresh (heq ▸ (h.sited t' p' hp').doc_site)
    · intro p hp _ op hop heq
      rw [← Option.some.inj hp, hat] at heq
      exact absurd (heq ▸ h.made op hop) hfresh
    · exact fun _ hop => by cases hop
  · next browser page ht =>
    split
    · exact h
    next auth site hsession =>
    obtain ⟨hgrow, -, -, hkept⟩ := roomSession_ids hsession
    have hpage := pageAt_open ht
    have hsited := h.sited t page hpage
    have hsame : site = page.marksSiteId := hkept page.marksSiteId rfl hsited.site
    have heq : (if page.stopped then page else { page with marksSiteId := site }) = page := by
      rw [hsame]
      split
      · rfl
      · rfl
    simp only [heq]
    refine h.put t (some page) [] hgrow ?_ ?_ (append_nil _).symm ?_ ?_ ?_ ?_
    · exact pageAt_setTab (w := { w with auth }) ht browser (.open page)
    · exact fun b record hb => hgrow _ (h.journals b record hb)
    · exact fun p hp => Option.some.inj hp ▸ hsited.mono hgrow
    · intro p hp hrun t' p' hne hp' hrun' hsites
      rw [← Option.some.inj hp] at hrun hsites
      exact hne (h.distinct t t' page p' hpage hp' hrun hrun' hsites).symm
    · exact fun p hp hrun => Option.some.inj hp ▸ h.holds t page hpage (Option.some.inj hp ▸ hrun)
    · exact fun _ hop => by cases hop
  · exact h

theorem client_apart (ho : E.Origins) (hr : E.Replicates) {t : TabId} (h : Apart w) :
    Apart (w.client t e) := by
  unfold client
  split
  · next browser page ht =>
    have hpage := pageAt_open ht
    have hsited := h.sited t page hpage
    let c : Client E := w.asClient browser (some page)
    have hids : Continues page { page with ids := w.ids } := continues_of_eq rfl rfl id fun _ h => h
    have hgoes : ∀ q, (c.step E e).page = some q → Continues page q :=
      fun q hq => hids.trans (client_continues (s := { page with ids := w.ids }) ho hr rfl e hq)
    refine h.put t (c.step E e).page (makes page e) (fun _ hs => hs) ?_ ?_ rfl ?_ ?_ ?_ ?_
    · intro t'
      exact putClient_page browser (c.step E e) ▸ pageAt_setTab (w := (w.putClient browser (c.step E e)).1)
        ht browser (w.putClient browser (c.step E e)).2 t'
    · refine journals_given h fun record hrecord => ?_
      rcases client_journal (s := { page with ids := w.ids }) rfl e hrecord with ⟨old, hold, hsame⟩ | ⟨job, hjob, hsame⟩
      · exact hsame ▸ h.journals browser old hold
      · exact hsame ▸ hsited.lane job hjob
    · exact fun q hq => hsited.continues (hgoes q hq)
    · intro q hq hrun t' p' hne hp' hrun' hsites
      rw [(hgoes q hq).doc_site] at hsites
      exact hne (h.distinct t t' page p' hpage hp' ((hgoes q hq).running hrun) hrun' hsites).symm
    · intro q hq hrun op hop hsite
      rcases mem_append.mp hop with hop | hop
      · rw [(hgoes q hq).doc_site] at hsite
        obtain ⟨known, hk, hn⟩ := h.holds t page hpage ((hgoes q hq).running hrun) op hop hsite
        exact ⟨known, (hgoes q hq).held known hk, hn⟩
      · exact ⟨op, makes_held (s := { page with ids := w.ids }) ho hr rfl hop hq, rfl⟩
    · intro op hop
      obtain ⟨hrun, horigin, hnew, -, honce⟩ := makes_mem ho hr hop
      refine ⟨horigin ▸ hsited.doc_site, ?_, ?_, honce⟩
      · intro t' p' hne hp' hrun' hsites
        rw [horigin] at hsites
        exact hne (h.distinct t t' page p' hpage hp' hrun hrun' hsites).symm
      · intro known hk heq
        obtain ⟨held, hheld, hname⟩ := h.holds t page hpage hrun known hk (heq ▸ horigin)
        exact hnew held hheld (hname.trans heq)
  · exact h

theorem step_apart (ho : E.Origins) (hr : E.Replicates) {e : TabEvent E} (h : Apart w)
    (hs : w.soleOpen E e = true) : Apart (w.step e) := by
  cases e with
  | opens browser => exact opens_apart ho hr h hs
  | admitted t caller ticket secretHash now => exact admitted_apart ho h
  | client t e => exact client_apart ho hr h
  | claim scratchId principalId device now =>
    simp only [step]
    split
    · next auth hclaim =>
      have hids : auth.siteIds = w.auth.siteIds := claim_ids hclaim
      exact {
        sited := fun t page hpage => (h.sited t page hpage).mono fun _ hs => hids ▸ hs
        journals := fun b record hb => hids ▸ h.journals b record hb
        made := fun op hop => hids ▸ h.made op hop
        distinct := h.distinct
        holds := h.holds
        once := h.once }
    · exact h
  | tables auth => exact ⟨h.sited, h.journals, h.made, h.distinct, h.holds, h.once⟩

theorem init_apart (auth : AuthorityTables) : Apart (init auth : Tabs E) where
  sited := fun _ _ hpage => absurd hpage (by simp [pageAt, init])
  journals := fun _ _ hb => by cases hb
  made := fun _ hop => by cases hop
  distinct := fun _ _ _ _ hpage => absurd hpage (by simp [pageAt, init])
  holds := fun _ _ hpage => absurd hpage (by simp [pageAt, init])
  once := fun _ hop => by cases hop

/-- Pages are opened from journals only as `soleOpen` says. -/
def SoleOpens (auth : AuthorityTables) (events : List (TabEvent E)) : Prop :=
  Transition.Along step (fun w e => w.soleOpen E e = true) (init auth) events

instance (auth : AuthorityTables) (events : List (TabEvent E)) : Decidable (SoleOpens auth events) :=
  inferInstanceAs (Decidable (Transition.Along _ _ _ _))

/-- **Sites of running replicas.** -/
theorem running_sites_apart (ho : E.Origins) (hr : E.Replicates) (auth : AuthorityTables)
    (events : List (TabEvent E)) (h : SoleOpens auth events) :
    (after auth events).SitesApart ∧ (after auth events).NamesOnce := by
  have hapart : Apart (after auth events) :=
    Transition.run_inv (I := Apart) (fun w _ hw he => step_apart ho hr hw he) (init_apart auth) h
  exact ⟨hapart.distinct, hapart.once⟩

def asOwner : Caller := .principal ownerSession

def writing (browser : BrowserId) (t : TabId) (char : UInt8) : List (TabEvent tape) :=
  [.opens browser, .admitted t asOwner t [] 0, .client t (.edit char), .client t (.persist .ok)]

def reloading : List (TabEvent tape) :=
  writing 0 0 97 ++ [.client 0 .crash, .opens 0, .admitted 1 asOwner 1 [] 0, .client 1 (.edit (98 : UInt8))] ++
    writing 1 2 99

theorem reloading_sites_apart :
    (after ownedDocument.auth reloading).SitesApart ∧ (after ownedDocument.auth reloading).NamesOnce :=
  running_sites_apart tape_origins tape_replicates _ _ (by decide +kernel)

def secondTab : List (TabEvent tape) :=
  writing 0 0 97 ++ [.opens 0, .client 0 (.edit (98 : UInt8)), .client 1 (.edit (99 : UInt8))]

def firstEdit : tape.Op := (⟨2, 1, 98⟩ : LogOp)

def secondEdit : tape.Op := (⟨2, 1, 99⟩ : LogOp)

theorem secondTab_shares_site :
    ¬ (after ownedDocument.auth secondTab).SitesApart ∧ ¬ (after ownedDocument.auth secondTab).NamesOnce := by
  constructor
  · intro h
    have hat : ∀ t < 2, ((after ownedDocument.auth secondTab).pageAt t).map
        (fun page => (page.stopped, tape.site page.doc)) = some (false, 2) := by decide +kernel
    obtain ⟨p, hp, hpage⟩ := Option.map_eq_some_iff.mp (hat 0 (by decide))
    obtain ⟨p', hp', hpage'⟩ := Option.map_eq_some_iff.mp (hat 1 (by decide))
    obtain ⟨hrun, hsite⟩ := Prod.mk.inj hpage
    obtain ⟨hrun', hsite'⟩ := Prod.mk.inj hpage'
    cases h 0 1 p p' hp hp' hrun hrun' (hsite.trans hsite'.symm)
  · intro h
    have hmade : firstEdit ∈ (after ownedDocument.auth secondTab).made ∧
        secondEdit ∈ (after ownedDocument.auth secondTab).made := by decide +kernel
    cases h firstEdit hmade.1 secondEdit hmade.2 rfl

end Tabs

end Marks
