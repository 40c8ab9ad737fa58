import Marks.Tape
import Marks.SessionSound
import Marks.JournalSound

/-! # The own-site law

A session cuts updates for the server at version vectors it captured earlier. The cut is of its own site
where the version covers what the replica retains of every other site, and what the pending list, the
lane and the journal hold is then of that site too. -/

namespace Marks

open List

section
variable (E : Esbt)

def OwnSite (site : SiteId) (m : JournalMutation) : Prop :=
  m.kind = .update → ∀ op ∈ E.carried m.bytes, (E.name op).origin = site

def SendsOwnSite (log : List ClientEntry) : Prop :=
  ∀ site m, ClientEntry.sent site m ∈ log → OwnSite E site m

def coversOthers (site : SiteId) (doc : E.Doc) (version : Bytes) : Bool :=
  match E.exportUpdate doc version with
  | .ok _ => (E.retained doc).all fun op => (E.name op).origin == site || E.covers version (E.name op)
  | .error _ => true

def cutCovers (site : SiteId) : Option (E.Doc × Bytes) → Bool
  | some (doc, version) => coversOthers E site doc version
  | none => true

def ownTab (s : Session E) : ClientEvent E → Bool
  | .tab (.update bytes) =>
    s.stopped || (E.load s.doc bytes).isNone ||
      (E.carried bytes).all fun op => (E.name op).origin == s.marksSiteId
  | _ => true

def jobCut (s : Session E) : ClientEvent E → Option (E.Doc × Bytes)
  | .persist .ok =>
    match s.lane with
    | job :: _ => s.settledCut job
    | [] => none
  | _ => none

def ownCuts (c : Client E) (e : ClientEvent E) : Bool :=
  match c.page with
  | some s =>
    cutCovers E s.marksSiteId (s.cut e) && cutCovers E s.marksSiteId (jobCut E s e) && ownTab E s e
  | none => true

def JobOwn (site : SiteId) : JournalJob → Prop
  | .append fallback m _ =>
    fallback.siteId = site ∧ (∀ m ∈ fallback.pending, OwnSite E site m) ∧ OwnSite E site m
  | .checkpoint fallback => fallback.siteId = site ∧ ∀ m ∈ fallback.pending, OwnSite E site m
  | .acknowledge fallback _ => fallback.siteId = site ∧ ∀ m ∈ fallback.pending, OwnSite E site m

end

variable {E : Esbt}

structure PageOwn (log : List ClientEntry) (site : SiteId) (s : Session E) : Prop where
  site_eq : s.marksSiteId = site
  doc_site : E.site s.doc = site
  sends : SendsOwnSite E log
  pending : ∀ m ∈ s.pendingMutations, OwnSite E site m
  lane : ∀ job ∈ s.lane, JobOwn E site job

structure RecordOwn (E : Esbt) (record : ReplicaJournalRecord) : Prop where
  pending : ∀ m ∈ record.pending, OwnSite E record.siteId m

structure ClientOwn (c : Client E) : Prop where
  sends : SendsOwnSite E c.log
  stored : ∀ record, c.journal = some record → RecordOwn E record
  page : ∀ s, c.page = some s → s.out = [] ∧ PageOwn c.log s.marksSiteId s
  site : ∀ s record, c.page = some s → c.journal = some record → record.siteId = s.marksSiteId

section
variable {log : List ClientEntry} {s t : Session E} {A : Allowed E} {site : SiteId}

theorem SendsOwnSite.snoc {entry : ClientEntry} (h : SendsOwnSite E log)
    (he : ∀ site m, entry = .sent site m → OwnSite E site m) : SendsOwnSite E (log ++ [entry]) := by
  intro site m hmem
  rcases mem_append.mp hmem with hmem | hmem
  · exact h site m hmem
  · exact he site m (mem_singleton.mp hmem).symm

theorem PageOwn.record (h : PageOwn (log ++ s.out) site s) (entry : ClientEntry)
    (he : ∀ site m, entry = .sent site m → OwnSite E site m) :
    PageOwn (log ++ (s.record entry).out) site (s.record entry) := by
  have hout : log ++ (s.record entry).out = (log ++ s.out) ++ [entry] := by
    simp only [Session.record, append_assoc]
  rw [hout]
  exact { h with sends := h.sends.snoc he }

theorem PageOwn.enqueue (h : PageOwn log site s) (job : JournalJob) (hj : JobOwn E site job) :
    PageOwn log site (s.enqueue job) where
  site_eq := h.site_eq
  doc_site := h.doc_site
  sends := h.sends
  pending := h.pending
  lane := by
    intro job' hmem
    rcases mem_append.mp hmem with hmem | hmem
    · exact h.lane job' hmem
    · exact mem_singleton.mp hmem ▸ hj

theorem PageOwn.mint (h : PageOwn (log ++ s.out) site s) {kind : MutationKind} {bytes : Bytes}
    (byTyping : Bool) (hm : OwnSite E site ⟨s.ids, kind, bytes⟩) :
    PageOwn (log ++ (s.mint kind bytes byTyping).out) site (s.mint kind bytes byTyping) := by
  let mutation : JournalMutation := ⟨s.ids, kind, bytes⟩
  let next : Session E := { s with
    ids := s.ids + 1
    pendingMutations := s.pendingMutations ++ [mutation] }.record (.minted mutation byTyping)
  have hpending : ∀ m ∈ next.pendingMutations, OwnSite E site m := by
    intro m hmem
    rcases mem_append.mp hmem with hmem | hmem
    · exact h.pending m hmem
    · rw [mem_singleton.mp hmem]
      exact hm
  have hrec := h.record (.minted ⟨s.ids, kind, bytes⟩ byTyping) (by simp)
  have hnext : PageOwn (log ++ next.out) site next :=
    ⟨hrec.site_eq, hrec.doc_site, hrec.sends, hpending, hrec.lane⟩
  exact hnext.enqueue (.append next.emptyRecord mutation byTyping) ⟨h.site_eq, hpending, hm⟩

theorem atom_own (ho : E.Origins) (hs : ∀ m, A.sends m → OwnSite E site m)
    (hm : ∀ doc kind bytes byTyping id, A.mints doc kind bytes byTyping → E.site doc = site →
      OwnSite E site ⟨id, kind, bytes⟩)
    (h : s.Atom A t) (hp : PageOwn (log ++ s.out) site s) : PageOwn (log ++ t.out) site t := by
  cases h with
  | quiet h =>
    rw [h.out]
    exact ⟨h.site.trans hp.site_eq, h.doc ▸ hp.doc_site, hp.sends, h.pending ▸ hp.pending, h.lane ▸ hp.lane⟩
  | sent m hmem hrun =>
    refine hp.record _ fun site' m' heq => ?_
    injection heq with hsite hmm
    rw [← hsite, ← hmm, hp.site_eq]
    exact hs m hmem
  | shown m => exact hp.record _ (by simp)
  | minted kind bytes byTyping ha hb hrun => exact hp.mint byTyping (hm _ _ _ _ _ ha hp.doc_site)
  | edited change ha doc bytes hd _ => exact { hp with doc_site := (ho.site_edit hd).trans hp.doc_site }
  | loaded bytes ha doc hd => exact { hp with doc_site := (ho.site_load hd).trans hp.doc_site }
  | pruned version doc hd => exact { hp with doc_site := (ho.site_prune hd).trans hp.doc_site }
  | checkpointed _ => exact hp.enqueue (.checkpoint s.emptyRecord) ⟨hp.site_eq, hp.pending⟩
  | acked receipt _ _ =>
    exact (hp.record (.acknowledged receipt.id) (by simp)).enqueue (.acknowledge s.emptyRecord receipt)
      ⟨hp.site_eq, hp.pending⟩
  | retired id _ => exact { hp with pending := fun m hmem => hp.pending m (mem_of_mem_filter hmem) }

theorem steps_own (ho : E.Origins) (hs : ∀ m, A.sends m → OwnSite E site m)
    (hm : ∀ doc kind bytes byTyping id, A.mints doc kind bytes byTyping → E.site doc = site →
      OwnSite E site ⟨id, kind, bytes⟩)
    (h : Session.Steps A s t) (hp : PageOwn (log ++ s.out) site s) : PageOwn (log ++ t.out) site t :=
  h.keeps (P := fun s => PageOwn (log ++ s.out) site s) (fun _ _ => atom_own ho hs hm) hp

theorem cut_own (ho : E.Origins) {doc : E.Doc} {version bytes : Bytes} {kind : MutationKind} {id : MutationId}
    (hc : coversOthers E site doc version = true)
    (h : exportReconnectPayload E doc version = some (kind, bytes)) : OwnSite E site ⟨id, kind, bytes⟩ := by
  intro hkind op hop
  have hkind : kind = .update := hkind
  subst hkind
  unfold exportReconnectPayload at h
  split at h
  · next exported hexport =>
    injection h with h
    injection h with _ hbytes
    subst hbytes
    obtain ⟨hret, hcov⟩ := (ho.export_carried hexport op).mp hop
    simp only [coversOthers, hexport, all_eq_true, Bool.or_eq_true, beq_iff_eq] at hc
    rcases hc op hret with heq | hcovered
    · exact heq
    · rw [hcov] at hcovered
      cases hcovered
  · cases hs : E.exportCompactSnapshot doc with
    | none => simp [hs] at h
    | some snapshot => simp [hs] at h
  · simp at h

theorem failed_own (h : PageOwn (log ++ s.out) site s) : PageOwn (log ++ s.failed.out) site s.failed := by
  have hq : Session.Quiet { s with localSaved := false } s.failed := Session.recordStorageError_quiet
  rw [hq.out]
  exact ⟨hq.site.trans h.site_eq, hq.doc ▸ h.doc_site, h.sends, hq.pending ▸ h.pending, hq.lane ▸ h.lane⟩

end

/-! ## Each event -/

namespace Client

variable {c : Client E}

def ownAllowed (E : Esbt) (site : SiteId) : Allowed E where
  sends := OwnSite E site
  mints := fun doc kind bytes _ => E.site doc = site → ∀ id, OwnSite E site ⟨id, kind, bytes⟩
  edits := fun _ => True
  loads := fun _ => True
  acks := fun _ => True
  retires := fun _ => True

theorem steps_allowed (ho : E.Origins) {log : List ClientEntry} {s t : Session E} {site : SiteId}
    (h : Session.Steps (ownAllowed E site) s t) (hp : PageOwn (log ++ s.out) site s) :
    PageOwn (log ++ t.out) site t :=
  steps_own (A := ownAllowed E site) ho (fun _ hm => hm) (fun _ _ _ _ id hm hsite => hm hsite id) h hp

theorem putPage_own {s : Session E} (h : ClientOwn c) (hp : PageOwn (c.log ++ s.out) s.marksSiteId s)
    (hsite : ∀ record, c.journal = some record → record.siteId = s.marksSiteId) :
    ClientOwn (c.putPage E s) where
  sends := hp.sends
  stored := h.stored
  page := by
    intro s' hs'
    cases hs'
    exact ⟨rfl, ⟨rfl, hp.doc_site, hp.sends, hp.pending, hp.lane⟩⟩
  site := by
    intro s' record hs' hr
    cases hs'
    exact hsite record hr

theorem onPage_own (ho : E.Origins) {e : ClientEvent E} (h : ClientOwn c) (hc : ownCuts E c e = true) :
    ClientOwn (c.onPage E fun s => s.react E e) := by
  unfold onPage
  split
  · next s hpage =>
    obtain ⟨hout, hp⟩ := h.page s hpage
    simp only [ownCuts, hpage, Bool.and_eq_true] at hc
    obtain ⟨⟨hcut, -⟩, htab⟩ := hc
    have hadm : Session.Admits (ownAllowed E s.marksSiteId) s e := {
      walk := fun _ m hm => hp.pending m hm
      cut := by
        intro doc version heq kind bytes hexport _ id
        rw [heq] at hcut
        exact cut_own ho hcut hexport
      edit := fun change _ => ⟨trivial, fun doc bytes hedit hsite id _ op hop => by
        rw [ho.edit_own hedit op hop, ← ho.site_edit hedit]
        exact hsite⟩
      fetched := fun _ _ => trivial
      update := fun _ _ => trivial
      snapshot := fun _ _ => trivial
      committed := fun _ _ => trivial
      tabUpdate := fun bytes heq => ⟨trivial, fun hrun doc hdoc _ id _ op hop => by
        rw [heq] at htab
        simp only [ownTab, hrun, hdoc, Bool.false_or, Option.isNone_some, all_eq_true,
          beq_iff_eq] at htab
        exact htab op hop⟩
      tabSnapshot := fun _ _ => trivial }
    have hlog : c.log = c.log ++ s.out := by rw [hout, append_nil]
    have hreact : PageOwn (c.log ++ (s.react E e).out) s.marksSiteId (s.react E e) :=
      steps_allowed ho (Session.react_steps hadm) (hlog ▸ hp)
    refine putPage_own h (hreact.site_eq.symm ▸ hreact) fun record hr => ?_
    rw [hreact.site_eq]
    exact h.site s record hpage hr
  · exact h

theorem opens_own (ho : E.Origins) {site : SiteId} (h : ClientOwn c) : ClientOwn (c.opens E site) := by
  unfold opens
  split
  · exact h
  · next hpage hjournal =>
    refine putPage_own h (PageOwn.record ?_ (.opened []) (by simp)) fun record hr => ?_
    · exact {
        site_eq := rfl
        doc_site := ho.site_create site
        sends := (append_nil c.log).symm ▸ h.sends
        pending := fun _ hm => by cases hm
        lane := fun _ hm => absurd hm not_mem_nil }
    · rw [hjournal] at hr
      cases hr
  · next stored hpage hstored =>
    simp only []
    split
    · next doc hdoc =>
      have hdoc : E.site doc = stored.siteId := by
        split at hdoc
        · cases hdoc
          exact ho.site_create _
        · rw [ho.site_load hdoc]
          exact ho.site_create _
      have hrestored : PageOwn (c.log ++ (c.restored stored doc).out) stored.siteId (c.restored stored doc) := {
        site_eq := rfl
        doc_site := hdoc
        sends := (append_nil c.log).symm ▸ h.sends
        pending := (h.stored stored hstored).pending
        lane := fun _ hm => absurd hm not_mem_nil }
      have hsteps : Session.Steps (ownAllowed E stored.siteId) (c.restored stored doc)
          (stored.pending.foldl (importPending E) (c.restored stored doc)) :=
        Session.importPendings_steps fun _ _ => trivial
      have hloaded := steps_allowed ho hsteps hrestored
      have hsaved : ∀ t : Session E, PageOwn (c.log ++ t.out) stored.siteId t →
          PageOwn (c.log ++ { t with localSaved := true }.out) stored.siteId { t with localSaved := true } :=
        fun _ ht => ⟨ht.site_eq, ht.doc_site, ht.sends, ht.pending, ht.lane⟩
      have hopened := (hsaved _ hloaded).record (.opened stored.pending) (by simp)
      refine putPage_own h (hopened.site_eq.symm ▸ hopened) fun record hr => ?_
      rw [hstored] at hr
      cases hr
      exact hopened.site_eq.symm
    split
    · next snapshot _ =>
      exact {
        sends := h.sends.snoc (by simp)
        stored := fun record hr => by
          cases hr
          exact ⟨(h.stored stored hstored).pending⟩
        page := fun s hs => absurd (hpage ▸ hs) (by simp)
        site := fun s _ hs => absurd (hpage ▸ hs) (by simp) }
    · exact h

theorem written_own {s : Session E} {site : SiteId} {stored : Option ReplicaJournalRecord} {job : JournalJob}
    {record : ReplicaJournalRecord} (hjob : JobOwn E site job)
    (hstored : ∀ record, stored = some record → record.siteId = site ∧ RecordOwn E record)
    (h : s.written E stored job = some record) : record.siteId = site ∧ RecordOwn E record := by
  have hbase : ∀ fallback : ReplicaJournalRecord, fallback.siteId = site →
      (∀ m ∈ fallback.pending, OwnSite E site m) →
      (stored.getD fallback).siteId = site ∧ ∀ m ∈ (stored.getD fallback).pending, OwnSite E site m := by
    intro fallback hsite hpending
    cases stored with
    | none => exact ⟨hsite, hpending⟩
    | some base =>
      obtain ⟨hs, hr⟩ := hstored base rfl
      exact ⟨hs, hs ▸ hr.pending⟩
  cases job with
  | append fallback m byTyping =>
    obtain ⟨hsite, hpending⟩ := hbase fallback hjob.1 hjob.2.1
    obtain ⟨hsame, -⟩ := appendMutation_rest h
    refine ⟨hsame.trans hsite, ⟨fun x hx => ?_⟩⟩
    rw [hsame, hsite]
    rcases appendMutation_sub h x hx with hx | hx
    · exact hpending x hx
    · exact hx ▸ hjob.2.2
  | checkpoint fallback =>
    obtain ⟨snapshot, -, hrecord⟩ := Option.map_eq_some_iff.mp h
    obtain ⟨hsite, hpending⟩ := hbase fallback hjob.1 hjob.2
    rw [← hrecord]
    exact ⟨hsite, ⟨hsite ▸ hpending⟩⟩
  | acknowledge fallback receipt =>
    obtain ⟨snapshot, -, hrecord⟩ := Option.map_eq_some_iff.mp h
    obtain ⟨hsite, hpending⟩ := hbase fallback hjob.1 hjob.2
    rw [← hrecord]
    refine ⟨hsite, ⟨fun x hx => ?_⟩⟩
    have hx : x ∈ (stored.getD fallback).pending := mem_of_mem_filter hx
    exact hsite ▸ hpending x hx

theorem persist_own (ho : E.Origins) {storage : Storage} (h : ClientOwn c)
    (hc : ownCuts E c (.persist storage) = true) : ClientOwn (c.persist E storage) := by
  unfold persist
  split
  · exact h
  next s hpage =>
  obtain ⟨hout, hp⟩ := h.page s hpage
  split
  · exact h
  next job lane hlane =>
  have hjob : JobOwn E s.marksSiteId job := hp.lane job (hlane ▸ mem_cons_self)
  have hbase : ∀ {log}, SendsOwnSite E log → PageOwn (log ++ { s with lane }.out) s.marksSiteId { s with lane } := by
    intro log hsends
    have hnone : log ++ { s with lane }.out = log := (congrArg (log ++ ·) hout).trans (append_nil log)
    rw [hnone]
    exact ⟨rfl, hp.doc_site, hsends, hp.pending, fun job' hmem => hp.lane job' (hlane ▸ mem_cons_of_mem job hmem)⟩
  simp only []
  split
  · have hfailed := failed_own (hbase h.sends)
    exact putPage_own h (hfailed.site_eq.symm ▸ hfailed) fun record hr =>
      hfailed.site_eq.symm ▸ h.site s record hpage hr
  next stored hwrite =>
  have hwrite : { s with lane }.written E c.journal job = some stored := by
    split at hwrite
    · cases hwrite
    · exact hwrite
  obtain ⟨hsite, hrecord⟩ := written_own hjob (fun record hr => ⟨h.site s record hpage hr, h.stored record hr⟩) hwrite
  have hsends : SendsOwnSite E (c.log ++ [.written stored.pending]) := h.sends.snoc (by simp)
  have hc' : ClientOwn ({ c with
      journal := some stored
      log := c.log ++ [.written stored.pending] } : Client E) := {
    sends := hsends
    stored := fun record hr => by
      cases hr
      exact hrecord
    page := fun s' hs' => by
      rw [hpage] at hs'
      cases hs'
      exact ⟨hout, ⟨rfl, hp.doc_site, hsends, hp.pending, hp.lane⟩⟩
    site := fun s' record hs' hr => by
      rw [hpage] at hs'
      rw [← Option.some.inj hs', ← Option.some.inj hr]
      exact hsite }
  have hnext : ∀ {t : Session E}, PageOwn ((c.log ++ [.written stored.pending]) ++ t.out) s.marksSiteId t →
      ClientOwn (({ c with
        journal := some stored
        log := c.log ++ [.written stored.pending] } : Client E).putPage E t) := by
    intro t ht
    refine putPage_own hc' (ht.site_eq.symm ▸ ht) fun record hr => ?_
    rw [← Option.some.inj hr, ht.site_eq]
    exact hsite
  refine hnext ?_
  split
  · next hok =>
    refine steps_allowed ho (Session.settled_steps ?_ ?_ ?_) (hbase hsends)
    · intro fallback m byTyping heq
      rw [heq] at hjob
      exact hjob.2.2
    · exact fun _ _ _ => trivial
    intro doc version heq kind bytes hexport _ id
    simp only [ownCuts, hpage, hok, jobCut, hlane, Bool.and_eq_true] at hc
    have hcut : s.settledCut job = some (doc, version) := by
      cases job with
      | acknowledge fallback receipt => exact heq
      | append fallback m byTyping => exact heq
      | checkpoint fallback => exact heq
    rw [hcut] at hc
    exact cut_own ho hc.1.2 hexport
  · exact failed_own (hbase hsends)

theorem own_of_eq {c' : Client E} (h : ClientOwn c) (hl : c'.log = c.log) (hj : c'.journal = c.journal)
    (hp : ∀ s, c'.page = some s → c.page = some s) : ClientOwn c' where
  sends := hl ▸ h.sends
  stored := hj ▸ h.stored
  page := by
    intro s hs
    rw [hl]
    exact h.page s (hp s hs)
  site := by
    intro s record hs hr
    exact h.site s record (hp s hs) (hj ▸ hr)

theorem step_own (ho : E.Origins) {e : ClientEvent E} (h : ClientOwn c) (hc : ownCuts E c e = true) :
    ClientOwn (c.step E e) := by
  cases e with
  | opens site => exact opens_own ho h
  | persist storage => exact persist_own ho h hc
  | crash => exact own_of_eq h rfl rfl fun _ hs => absurd hs (by simp [step])
  | others operations => exact own_of_eq h rfl rfl fun _ hs => hs
  | commit mutation =>
    simp only [step, commit]
    split
    · exact own_of_eq h rfl rfl fun _ hs => hs
    · exact h
  | fetched bytes => exact onPage_own ho h hc
  | checkpoint => exact onPage_own ho h hc
  | edit change => exact onPage_own ho h hc
  | prune version => exact onPage_own ho h hc
  | compact => exact onPage_own ho h hc
  | connect => exact onPage_own ho h hc
  | socketOpen => exact onPage_own ho h hc
  | socketClosing => exact onPage_own ho h hc
  | message message => exact onPage_own ho h hc
  | disconnect code => exact onPage_own ho h hc
  | offline => exact onPage_own ho h hc
  | pageHide => exact onPage_own ho h hc
  | tab message => exact onPage_own ho h hc

def OwnCuts (events : List (ClientEvent E)) : Prop :=
  Transition.Along (fun c e => Client.step E c e) (fun c e => ownCuts E c e = true) (init E) events

instance (events : List (ClientEvent E)) : Decidable (OwnCuts events) :=
  Transition.decidableAlong _ _

/-- **The own-site law.** Where the replica is cut at versions that cover the other sites, every update sent
carries operations of the session's site only. -/
theorem own_site_law (ho : E.Origins) (events : List (ClientEvent E)) (h : OwnCuts events) :
    SendsOwnSite E (after E events).log := by
  have hown : ClientOwn (after E events) := by
    refine Transition.run_inv (fun _ _ => step_own ho) ?_ h
    exact {
      sends := fun _ _ hmem => by cases hmem
      stored := fun _ hr => by cases hr
      page := fun _ hs => by cases hs
      site := fun _ _ hs => absurd hs (by simp [init]) }
  exact hown.sends

def committing : List (ClientEvent tape) :=
  [.opens 1, .connect, .socketOpen, .message (.serverVv []), .message .synced, .edit (97 : UInt8),
    .persist .ok, .commit ⟨0, .update, [1, 1, 0, 97]⟩, .message (.committed ⟨0, 1, [1, 0]⟩)]

def relaying : List (ClientEvent tape) :=
  [.others [(⟨2, 0, 98⟩ : LogOp)], .message (.update [1, 2, 0, 98])]

theorem relaying_own_site :
    SendsOwnSite tape (after tape (committing ++ [.persist .ok] ++ relaying ++ [.persist .ok])).log :=
  own_site_law tape_origins _ (by decide +kernel)

/-- The relay is taken in before the acknowledgement settles, and the cut at its version carries it. -/
theorem relaying_not_own_site :
    ¬ SendsOwnSite tape (after tape (committing ++ relaying ++ [.persist .ok, .persist .ok])).log := by
  intro h
  have hsent : ClientEntry.sent 1 ⟨1, .update, [1, 2, 0, 98]⟩ ∈
      (after tape (committing ++ relaying ++ [.persist .ok, .persist .ok])).log := by
    decide +kernel
  have hcarried : tape.carried [1, 2, 0, 98] = [(⟨2, 0, 98⟩ : LogOp)] := rfl
  have horigin := h _ _ hsent rfl (⟨2, 0, 98⟩ : LogOp) (hcarried ▸ mem_singleton.mpr rfl)
  cases horigin

end Client

end Marks
