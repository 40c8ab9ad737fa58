import Marks.Tape
import Marks.JournalSound

/-! # What durable means

A session that reports itself durable has nothing pending, so what it emitted was acknowledged, and the
server's document holds it unless the server had another operation under the same name. Names are never
given twice as long as whatever was sent can be found in the journal after a crash. -/

namespace Marks

open List

/-! ## What the server and the world do -/

section
variable (E : Esbt)

/-- The mutations local changes emitted since the page was opened, and those it was opened with. -/
def emitted (log : List ClientEntry) : List JournalMutation :=
  log.foldl (fun found entry =>
    match entry with
    | .opened pending => pending
    | .minted m true => found ++ [m]
    | _ => found) []

def Known (log : List ClientEntry) (m : JournalMutation) : Prop :=
  ∃ byTyping, ClientEntry.minted m byTyping ∈ log

def Retains (record : ReplicaJournalRecord) (op : E.Op) : Prop :=
  op ∈ E.carried record.snapshot ∨ ∃ m ∈ record.pending, op ∈ E.carried m.bytes

def InJournal (journal : Option ReplicaJournalRecord) (op : E.Op) : Prop :=
  ∃ record, journal = some record ∧ Retains E record op

/-- The site this client writes at. -/
def Client.site (c : Client E) : Option SiteId :=
  match c.page with
  | some s => some s.marksSiteId
  | none => c.journal.map ReplicaJournalRecord.siteId

/-- The server acknowledges what it committed and relays what it holds, no other replica writes at this
client's site, and a page without a journal is given a site nobody wrote at. Other tabs are still. -/
def Client.Honest (c : Client E) : ClientEvent E → Prop
  | .message (.committed receipt) => ∃ m ∈ c.receipts, m.id = receipt.id
  | .message (.update bytes) => ∀ op ∈ E.carried bytes, op ∈ c.committed
  | .message (.snapshot bytes) => ∀ op ∈ E.carried bytes, op ∈ c.committed
  | .fetched bytes => ∀ op ∈ E.carried bytes, op ∈ c.committed
  | .others operations => ∀ op ∈ operations, c.site E ≠ some (E.name op).origin
  | .opens site => c.site E = none → ∀ op ∈ c.committed, (E.name op).origin ≠ site
  | .tab _ => False
  | _ => True

end

instance {E : Esbt} [DecidableEq E.Op] (c : Client E) (e : ClientEvent E) : Decidable (c.Honest E e) :=
  match e with
  | .message (.committed receipt) => inferInstanceAs (Decidable (∃ m ∈ c.receipts, m.id = receipt.id))
  | .message (.update bytes) => inferInstanceAs (Decidable (∀ op ∈ E.carried bytes, op ∈ c.committed))
  | .message (.snapshot bytes) => inferInstanceAs (Decidable (∀ op ∈ E.carried bytes, op ∈ c.committed))
  | .fetched bytes => inferInstanceAs (Decidable (∀ op ∈ E.carried bytes, op ∈ c.committed))
  | .others operations =>
    inferInstanceAs (Decidable (∀ op ∈ operations, c.site E ≠ some (E.name op).origin))
  | .opens site =>
    inferInstanceAs (Decidable (c.site E = none → ∀ op ∈ c.committed, (E.name op).origin ≠ site))
  | .tab _ => isFalse id
  | .message (.serverVv _) | .message .synced => isTrue trivial
  | .checkpoint | .edit _ | .prune _ | .compact | .connect | .socketOpen | .socketClosing => isTrue trivial
  | .disconnect _ | .offline | .pageHide | .persist _ | .crash | .commit _ => isTrue trivial

/-! ## The invariant -/

structure Sequenced (log : List ClientEntry) (ids : MutationId) : Prop where
  below : ∀ m, Known log m → m.id < ids
  once : ∀ m m', Known log m → Known log m' → m.id = m'.id → m = m'

variable {E : Esbt}

def JobAccounted (E : Esbt) (log : List ClientEntry) (doc : E.Doc) (site : SiteId) : JournalJob → Prop
  | .append fallback m _ =>
    (fallback.siteId = site ∧ fallback.snapshot = [] ∧
      ∀ x ∈ fallback.pending, Known log x ∧ ∀ op ∈ E.carried x.bytes, op ∈ E.held doc) ∧
    Known log m ∧ ∀ op ∈ E.carried m.bytes, op ∈ E.held doc
  | .checkpoint fallback =>
    fallback.siteId = site ∧ fallback.snapshot = [] ∧
      ∀ x ∈ fallback.pending, Known log x ∧ ∀ op ∈ E.carried x.bytes, op ∈ E.held doc
  | .acknowledge fallback receipt =>
    (fallback.siteId = site ∧ fallback.snapshot = [] ∧
      ∀ x ∈ fallback.pending, Known log x ∧ ∀ op ∈ E.carried x.bytes, op ∈ E.held doc) ∧
    ClientEntry.acknowledged receipt.id ∈ log

def Writing (s : Session E) : Prop := s.storageFatal = false ∨ s.lane ≠ []

/-- The page against the server's document, the receipts and the journal of `c`. -/
structure PageAccounted (c : Client E) (log : List ClientEntry) (site : SiteId) (s : Session E) : Prop where
  site_eq : s.marksSiteId = site
  doc_site : E.site s.doc = site
  numbered : Sequenced log s.ids
  journal : Writing s → ∀ op, InJournal E c.journal op → op ∈ E.held s.doc
  foreign : ∀ op ∈ E.held s.doc, (E.name op).origin ≠ site → op ∈ c.committed
  unique : ∀ op ∈ E.held s.doc, ∀ known,
    known ∈ c.committed ∨ InJournal E c.journal known ∨ known ∈ E.held s.doc →
      E.name op = E.name known → op = known
  pending : ∀ m ∈ s.pendingMutations, Known log m
  pending_held : Writing s → ∀ m ∈ s.pendingMutations, ∀ op ∈ E.carried m.bytes, op ∈ E.held s.doc
  lane : ∀ job ∈ s.lane, JobAccounted E log s.doc site job
  acks : ∀ id, ClientEntry.acknowledged id ∈ log → ∃ m ∈ c.receipts, m.id = id
  emits : ∀ m ∈ emitted log, Known log m ∧ (m ∈ s.pendingMutations ∨ ClientEntry.acknowledged m.id ∈ log)
  written : ∀ pending, ClientEntry.written pending ∈ log → ClientEntry.written pending ∈ c.log

structure ServerAccounted (c : Client E) : Prop where
  unique : ∀ op known, op ∈ c.committed ∨ InJournal E c.journal op →
    known ∈ c.committed ∨ InJournal E c.journal known → E.name op = E.name known → op = known
  foreign : ∀ record, c.journal = some record → ∀ op, InJournal E c.journal op →
    (E.name op).origin ≠ record.siteId → op ∈ c.committed
  own : ∀ site, c.site E = some site → ∀ op ∈ c.committed, (E.name op).origin = site → InJournal E c.journal op
  receipts : ∀ m ∈ c.receipts, Known c.log m ∧ ∀ op ∈ E.carried m.bytes, op ∈ c.committed

structure JournalAccounted (c : Client E) : Prop where
  written : ∀ m, Written c.log m → Known c.log m ∧ ∀ op ∈ E.carried m.bytes, InJournal E c.journal op
  kept : ∀ m, Written c.log m →
    (∃ record, c.journal = some record ∧ m ∈ record.pending) ∨ ClientEntry.acknowledged m.id ∈ c.log
  known : ∀ record, c.journal = some record → ∀ m ∈ record.pending, Known c.log m
  snapshot : ∀ record, c.journal = some record →
    record.snapshot = [] ∨ ∃ doc, E.exportFullSnapshot doc = some record.snapshot

structure Accounted (c : Client E) : Prop where
  numbered : Sequenced c.log c.ids
  acks : ∀ id, ClientEntry.acknowledged id ∈ c.log → ∃ m ∈ c.receipts, m.id = id
  server : ServerAccounted c
  journal : JournalAccounted c
  page : ∀ s, c.page = some s → s.out = [] ∧ s.ids = c.ids ∧ PageAccounted c c.log s.marksSiteId s
  site : ∀ s record, c.page = some s → c.journal = some record → record.siteId = s.marksSiteId

/-! ## Facts of the log -/

variable {doc : E.Doc}

variable {job : JournalJob}

section
variable {log extra : List ClientEntry} {m : JournalMutation} {entry : ClientEntry}

theorem Known.append (h : Known log m) : Known (log ++ extra) m := by
  obtain ⟨byTyping, hmem⟩ := h
  exact ⟨byTyping, mem_append_left _ hmem⟩

theorem known_snoc (he : ∀ m byTyping, entry ≠ .minted m byTyping) : Known (log ++ [entry]) m ↔ Known log m := by
  constructor
  · intro ⟨byTyping, hmem⟩
    rcases mem_append.mp hmem with hmem | hmem
    · exact ⟨byTyping, hmem⟩
    · exact absurd (mem_singleton.mp hmem).symm (he m byTyping)
  · exact Known.append

theorem known_minted {new : JournalMutation} {byTyping : Bool} :
    Known (log ++ [.minted new byTyping]) m ↔ Known log m ∨ m = new := by
  constructor
  · intro ⟨typing, hmem⟩
    rcases mem_append.mp hmem with hmem | hmem
    · exact Or.inl ⟨typing, hmem⟩
    · injection mem_singleton.mp hmem with heq _
      exact Or.inr heq
  · intro h
    rcases h with h | h
    · exact h.append
    · exact ⟨byTyping, by simp [h]⟩

theorem emitted_snoc : emitted (log ++ [entry]) =
    match entry with
    | .opened pending => pending
    | .minted m true => emitted log ++ [m]
    | _ => emitted log := by
  simp only [emitted, foldl_append, foldl_cons, foldl_nil]

variable {ids : MutationId}

theorem Sequenced.snoc (h : Sequenced log ids)
    (he : ∀ m byTyping, entry ≠ .minted m byTyping) : Sequenced (log ++ [entry]) ids where
  below := fun m hm => h.below m ((known_snoc he).mp hm)
  once := fun m m' hm hm' => h.once m m' ((known_snoc he).mp hm) ((known_snoc he).mp hm')

theorem Sequenced.mint (h : Sequenced log ids) {new : JournalMutation} (hid : new.id = ids)
    (byTyping : Bool) : Sequenced (log ++ [.minted new byTyping]) (ids + 1) where
  below := by
    intro m hm
    rcases known_minted.mp hm with hm | hm
    · exact Nat.lt_succ_of_lt (h.below m hm)
    · rw [hm, hid]
      exact Nat.lt_succ_self ids
  once := by
    intro m m' hm hm' heq
    rcases known_minted.mp hm with hm | hm
    · rcases known_minted.mp hm' with hm' | hm'
      · exact h.once m m' hm hm' heq
      · have hlt := h.below m hm
        rw [heq, hm', hid] at hlt
        exact absurd hlt (Nat.lt_irrefl _)
    · rcases known_minted.mp hm' with hm' | hm'
      · have hlt := h.below m' hm'
        rw [← heq, hm, hid] at hlt
        exact absurd hlt (Nat.lt_irrefl _)
      · rw [hm, hm']

theorem JobAccounted.mono {doc' : E.Doc} {site : SiteId}
    (h : JobAccounted E log doc site job) (hdoc : ∀ op ∈ E.held doc, op ∈ E.held doc') :
    JobAccounted E (log ++ extra) doc' site job := by
  have hfallback : ∀ fallback : ReplicaJournalRecord,
      (fallback.siteId = site ∧ fallback.snapshot = [] ∧
        ∀ x ∈ fallback.pending, Known log x ∧ ∀ op ∈ E.carried x.bytes, op ∈ E.held doc) →
      fallback.siteId = site ∧ fallback.snapshot = [] ∧
        ∀ x ∈ fallback.pending, Known (log ++ extra) x ∧ ∀ op ∈ E.carried x.bytes, op ∈ E.held doc' := by
    intro fallback ⟨hsite, hsnap, hall⟩
    exact ⟨hsite, hsnap, fun x hx => ⟨(hall x hx).1.append, fun op hop => hdoc op ((hall x hx).2 op hop)⟩⟩
  cases job with
  | append fallback m byTyping =>
    exact ⟨hfallback fallback h.1, h.2.1.append, fun op hop => hdoc op (h.2.2 op hop)⟩
  | checkpoint fallback => exact hfallback fallback h
  | acknowledge fallback receipt => exact ⟨hfallback fallback h.1, mem_append_left _ h.2⟩

end

/-! ## Small changes -/

section
variable {c : Client E} {log : List ClientEntry} {site : SiteId} {s t : Session E}

theorem PageAccounted.record (h : PageAccounted c (log ++ s.out) site s) (entry : ClientEntry)
    (hm : ∀ m byTyping, entry ≠ .minted m byTyping) (ho : ∀ pending, entry ≠ .opened pending)
    (hw : ∀ pending, entry ≠ .written pending)
    (ha : ∀ id, entry = .acknowledged id → ∃ m ∈ c.receipts, m.id = id) :
    PageAccounted c (log ++ (s.record entry).out) site (s.record entry) := by
  have hout : log ++ (s.record entry).out = (log ++ s.out) ++ [entry] := by
    simp only [Session.record, append_assoc]
  have hemitted : emitted ((log ++ s.out) ++ [entry]) = emitted (log ++ s.out) := by
    rw [emitted_snoc]
    cases entry with
    | minted m byTyping => exact absurd rfl (hm m byTyping)
    | opened pending => exact absurd rfl (ho pending)
    | written pending => rfl
    | broadcast m => rfl
    | sent site m => rfl
    | acknowledged id => rfl
  rw [hout]
  refine { h with numbered := h.numbered.snoc hm, pending := ?_, lane := ?_, acks := ?_, emits := ?_, written := ?_ }
  · exact fun m hmem => (h.pending m hmem).append
  · exact fun job hmem => (h.lane job hmem).mono fun _ hop => hop
  · intro id hmem
    rcases mem_append.mp hmem with hmem | hmem
    · exact h.acks id hmem
    · exact ha id (mem_singleton.mp hmem).symm
  · intro m hmem
    rw [hemitted] at hmem
    obtain ⟨hknown, hcase⟩ := h.emits m hmem
    exact ⟨hknown.append, hcase.imp id (mem_append_left _)⟩
  · intro pending hmem
    rcases mem_append.mp hmem with hmem | hmem
    · exact h.written pending hmem
    · exact absurd (mem_singleton.mp hmem).symm (hw pending)

theorem PageAccounted.enqueue (h : PageAccounted c log site s) (hs : s.storageFatal = false) (job : JournalJob)
    (hj : JobAccounted E log s.doc site job) : PageAccounted c log site (s.enqueue job) := by
  have hwriting : Writing s := Or.inl hs
  refine { h with journal := fun _ => h.journal hwriting, pending_held := fun _ => h.pending_held hwriting, lane := ?_ }
  intro job' hmem
  rcases mem_append.mp hmem with hmem | hmem
  · exact h.lane job' hmem
  · exact mem_singleton.mp hmem ▸ hj

theorem PageAccounted.fallback (h : PageAccounted c log site s) (hs : s.storageFatal = false) :
    s.emptyRecord.siteId = site ∧ s.emptyRecord.snapshot = [] ∧
      ∀ x ∈ s.emptyRecord.pending, Known log x ∧ ∀ op ∈ E.carried x.bytes, op ∈ E.held s.doc :=
  ⟨h.site_eq, rfl, fun x hx => ⟨h.pending x hx, h.pending_held (Or.inl hs) x hx⟩⟩

variable {bytes : Bytes}

theorem PageAccounted.mint (h : PageAccounted c (log ++ s.out) site s) (hs : s.storageFatal = false)
    (kind : MutationKind) (byTyping : Bool) (hb : ∀ op ∈ E.carried bytes, op ∈ E.held s.doc) :
    PageAccounted c (log ++ (s.mint kind bytes byTyping).out) site (s.mint kind bytes byTyping) := by
  let mutation : JournalMutation := ⟨s.ids, kind, bytes⟩
  let next : Session E := { s with
    ids := s.ids + 1
    pendingMutations := s.pendingMutations ++ [mutation] }.record (.minted mutation byTyping)
  have hout : log ++ next.out = (log ++ s.out) ++ [.minted mutation byTyping] := by
    simp only [next, Session.record, append_assoc]
  have hnext : PageAccounted c (log ++ next.out) site next := by
    rw [hout]
    refine {
      site_eq := h.site_eq
      doc_site := h.doc_site
      numbered := h.numbered.mint rfl byTyping
      journal := h.journal
      foreign := h.foreign
      unique := h.unique
      pending := ?_
      pending_held := ?_
      lane := fun job hmem => (h.lane job hmem).mono fun _ hop => hop
      acks := ?_
      emits := ?_
      written := ?_ }
    · intro m hmem
      rcases mem_append.mp hmem with hmem | hmem
      · exact (h.pending m hmem).append
      · exact known_minted.mpr (Or.inr (mem_singleton.mp hmem))
    · intro hwriting m hmem op hop
      rcases mem_append.mp hmem with hmem | hmem
      · exact h.pending_held hwriting m hmem op hop
      · rw [mem_singleton.mp hmem] at hop
        exact hb op hop
    · intro id hmem
      rcases mem_append.mp hmem with hmem | hmem
      · exact h.acks id hmem
      · simp at hmem
    · intro m hmem
      have hold : m ∈ emitted (log ++ s.out) ∨ m = mutation := by
        rw [emitted_snoc] at hmem
        cases byTyping with
        | true => simpa using hmem
        | false => exact Or.inl hmem
      rcases hold with hold | hold
      · obtain ⟨hknown, hcase⟩ := h.emits m hold
        exact ⟨hknown.append, hcase.imp (mem_append_left _) (mem_append_left _)⟩
      · exact ⟨known_minted.mpr (Or.inr hold), Or.inl (by rw [hold]; exact mem_append_right _ (by simp))⟩
    · intro pending hmem
      rcases mem_append.mp hmem with hmem | hmem
      · exact h.written pending hmem
      · simp at hmem
  refine hnext.enqueue hs (.append next.emptyRecord mutation byTyping) ⟨hnext.fallback hs, ?_, hb⟩
  rw [hout]
  exact known_minted.mpr (Or.inr rfl)

theorem PageAccounted.grow (h : PageAccounted c log site s) (hsite : E.site doc = site)
    (hkeeps : ∀ op ∈ E.held s.doc, op ∈ E.held doc)
    (hforeign : ∀ op ∈ E.held doc, (E.name op).origin ≠ site → op ∈ c.committed)
    (hunique : ∀ op ∈ E.held doc, ∀ known,
      known ∈ c.committed ∨ InJournal E c.journal known ∨ known ∈ E.held doc →
        E.name op = E.name known → op = known) :
    PageAccounted c log site { s with doc } where
  site_eq := h.site_eq
  doc_site := hsite
  numbered := h.numbered
  journal := fun hw op hop => hkeeps op (h.journal hw op hop)
  foreign := hforeign
  unique := hunique
  pending := h.pending
  pending_held := fun hw m hm op hop => hkeeps op (h.pending_held hw m hm op hop)
  lane := fun job hmem => by
    have hmono : JobAccounted E (log ++ []) doc site job := (h.lane job hmem).mono hkeeps
    rwa [append_nil] at hmono
  acks := h.acks
  emits := h.emits
  written := h.written

structure HonestChanges (c : Client E) (log : List ClientEntry) (A : Allowed E) : Prop where
  mints : ∀ doc kind bytes byTyping, A.mints doc kind bytes byTyping → ∀ op ∈ E.carried bytes, op ∈ E.held doc
  loads : ∀ bytes, A.loads bytes → ∀ op ∈ E.carried bytes, op ∈ c.committed
  acks : ∀ receipt, A.acks receipt → ∃ m ∈ c.receipts, m.id = receipt.id
  retires : ∀ id, A.retires id → ClientEntry.acknowledged id ∈ log

theorem edited_accounted (ho : E.Origins) (hr : E.Replicates) (hc : ServerAccounted c)
    (hsite : c.site E = some site) (h : PageAccounted c log site s) (hs : s.stopped = false) {change : E.Edit}
    (hd : E.edit s.doc change = some (doc, bytes)) :
    PageAccounted c log site { s with doc } := by
  have hwriting : Writing s := Or.inl (Session.running_writes hs)
  have hown : ∀ op ∈ E.carried bytes, (E.name op).origin = site :=
    fun op hop => (ho.edit_own hd op hop).trans h.doc_site
  have hnew : ∀ op ∈ E.carried bytes, ∀ known,
      known ∈ c.committed ∨ InJournal E c.journal known ∨ known ∈ E.held s.doc → E.name op ≠ E.name known := by
    intro op hop known hknown heq
    have hheld : known ∈ E.held s.doc := by
      rcases hknown with hk | hk | hk
      · refine h.journal hwriting known (hc.own site hsite known hk ?_)
        rw [← heq]
        exact hown op hop
      · exact h.journal hwriting known hk
      · exact hk
    exact hr.edit_fresh hd op hop known hheld heq.symm
  have hheld := hr.edit_held hd
  refine h.grow ((ho.site_edit hd).trans h.doc_site) (fun op hop => (hheld op).mpr (Or.inl hop)) ?_ ?_
  · intro op hop hne
    rcases (hheld op).mp hop with hop | hop
    · exact h.foreign op hop hne
    · exact absurd (hown op hop) hne
  · intro op hop known hknown heq
    have hcase : (known ∈ c.committed ∨ InJournal E c.journal known ∨ known ∈ E.held s.doc) ∨
        known ∈ E.carried bytes := by
      rcases hknown with hk | hk | hk
      · exact Or.inl (Or.inl hk)
      · exact Or.inl (Or.inr (Or.inl hk))
      · exact ((hheld known).mp hk).imp (fun hk => Or.inr (Or.inr hk)) id
    rcases (hheld op).mp hop with hop | hop
    · rcases hcase with hcase | hcase
      · exact h.unique op hop known hcase heq
      · exact absurd heq.symm (hnew known hcase op (Or.inr (Or.inr hop)))
    · rcases hcase with hcase | hcase
      · exact absurd heq (hnew op hop known hcase)
      · exact hr.edit_once hd op hop known hcase heq

theorem loaded_accounted (ho : E.Origins) (hr : E.Replicates) (hc : ServerAccounted c)
    (h : PageAccounted c log site s) (hb : ∀ op ∈ E.carried bytes, op ∈ c.committed)
    (hd : E.load s.doc bytes = some doc) : PageAccounted c log site { s with doc } := by
  refine h.grow ((ho.site_load hd).trans h.doc_site) (hr.load_keeps hd) ?_ ?_
  · intro op hop hne
    rcases hr.load_held hd op hop with hop | hop
    · exact h.foreign op hop hne
    · exact hb op hop
  · intro op hop known hknown heq
    have hcase : known ∈ c.committed ∨ InJournal E c.journal known ∨ known ∈ E.held s.doc := by
      rcases hknown with hk | hk | hk
      · exact Or.inl hk
      · exact Or.inr (Or.inl hk)
      · rcases hr.load_held hd known hk with hk | hk
        · exact Or.inr (Or.inr hk)
        · exact Or.inl (hb known hk)
    rcases hr.load_held hd op hop with hop | hop
    · exact h.unique op hop known hcase heq
    have hop := hb op hop
    rcases hcase with hk | hk | hk
    · exact hc.unique op known (Or.inl hop) (Or.inl hk) heq
    · exact hc.unique op known (Or.inl hop) (Or.inr hk) heq
    · exact (h.unique known hk op (Or.inl hop) heq.symm).symm

variable {A : Allowed E}

theorem atom_accounted (ho : E.Origins) (hr : E.Replicates) (hc : ServerAccounted c)
    (hsite : c.site E = some site) (ha : HonestChanges c log A) (hat : s.Atom A t)
    (h : PageAccounted c (log ++ s.out) site s) : PageAccounted c (log ++ t.out) site t := by
  cases hat with
  | quiet hq =>
    have hwriting : Writing t → Writing s := by
      intro hw
      rcases hw with hw | hw
      · refine Or.inl ?_
        cases hf : s.storageFatal with
        | false => rfl
        | true => rw [hq.fatal hf] at hw; cases hw
      · exact Or.inr (hq.lane ▸ hw)
    rw [hq.out]
    exact {
      site_eq := hq.site.trans h.site_eq
      doc_site := hq.doc ▸ h.doc_site
      numbered := hq.ids ▸ h.numbered
      journal := fun hw => hq.doc ▸ h.journal (hwriting hw)
      foreign := hq.doc ▸ h.foreign
      unique := hq.doc ▸ h.unique
      pending := hq.pending ▸ h.pending
      pending_held := fun hw => hq.doc ▸ hq.pending ▸ h.pending_held (hwriting hw)
      lane := hq.doc ▸ hq.lane ▸ h.lane
      acks := h.acks
      emits := hq.pending ▸ h.emits
      written := h.written }
  | sent m hm hs => exact h.record _ (by simp) (by simp) (by simp) (by simp)
  | shown m => exact h.record _ (by simp) (by simp) (by simp) (by simp)
  | minted kind bytes byTyping hm hb hs =>
    exact h.mint (Session.running_writes hs) kind byTyping (ha.mints _ _ _ _ hm)
  | edited change hm doc bytes hd hs => exact edited_accounted ho hr hc hsite h hs hd
  | loaded bytes hm doc hd => exact loaded_accounted ho hr hc h (ha.loads bytes hm) hd
  | pruned version doc hd =>
    have hheld := hr.prune_held hd
    refine h.grow ((ho.site_prune hd).trans h.doc_site) ?_ ?_ ?_
    · rw [hheld]
      exact fun _ hop => hop
    · rw [hheld]
      exact h.foreign
    · rw [hheld]
      exact h.unique
  | checkpointed hs => exact h.enqueue hs (.checkpoint s.emptyRecord) (h.fallback hs)
  | acked receipt hm hs =>
    have hrec := h.record (.acknowledged receipt.id) (by simp) (by simp) (by simp) (by
      intro id heq
      injection heq with heq
      exact heq ▸ ha.acks receipt hm)
    have hfatal := Session.running_writes hs
    refine hrec.enqueue hfatal (.acknowledge s.emptyRecord receipt) ⟨hrec.fallback hfatal, ?_⟩
    simp [Session.record]
  | retired id hm =>
    refine { h with
      pending := fun m hmem => h.pending m (mem_of_mem_filter hmem)
      pending_held := fun hw m hmem => h.pending_held hw m (mem_of_mem_filter hmem)
      emits := ?_ }
    intro m hmem
    obtain ⟨hknown, hcase⟩ := h.emits m hmem
    refine ⟨hknown, ?_⟩
    rcases hcase with hcase | hcase
    · by_cases heq : m.id = id
      · exact Or.inr (mem_append_left _ (heq ▸ ha.retires id hm))
      · exact Or.inl (mem_filter.mpr ⟨hcase, by simpa using heq⟩)
    · exact Or.inr hcase

theorem steps_accounted (ho : E.Origins) (hr : E.Replicates) (hc : ServerAccounted c)
    (hsite : c.site E = some site) (ha : HonestChanges c log A) (hst : Session.Steps A s t)
    (h : PageAccounted c (log ++ s.out) site s) : PageAccounted c (log ++ t.out) site t :=
  hst.keeps (P := fun s => PageAccounted c (log ++ s.out) site s)
    (fun _ _ => atom_accounted ho hr hc hsite ha) h

end

/-! ## What a job writes -/

/-- A record that takes the place of the journal: it keeps what the journal kept, the replica holds all of
it, and a pending mutation left it only when acknowledged. -/
structure Rewrites (c : Client E) (log : List ClientEntry) (site : SiteId) (doc : E.Doc)
    (record : ReplicaJournalRecord) : Prop where
  site : record.siteId = site
  covers : ∀ op, InJournal E c.journal op → Retains E record op
  held : ∀ op, Retains E record op → op ∈ E.held doc
  known : ∀ m ∈ record.pending, Known log m
  snapshot : record.snapshot = [] ∨ ∃ doc, E.exportFullSnapshot doc = some record.snapshot
  kept : ∀ stored, c.journal = some stored → ∀ m ∈ stored.pending,
    m ∈ record.pending ∨ ClientEntry.acknowledged m.id ∈ log

variable {stored : ReplicaJournalRecord}

section
variable {c : Client E} {log : List ClientEntry} {site : SiteId} {s : Session E}
  {fallback record : ReplicaJournalRecord}

theorem base_rewrites (hr : E.Replicates) (hj : JournalAccounted c)
    (hsite : ∀ record, c.journal = some record → record.siteId = site)
    (h : PageAccounted c c.log site s) (hw : Writing s)
    (hf : fallback.siteId = site ∧ fallback.snapshot = [] ∧
      ∀ x ∈ fallback.pending, Known c.log x ∧ ∀ op ∈ E.carried x.bytes, op ∈ E.held s.doc) :
    Rewrites c c.log site s.doc (c.journal.getD fallback) := by
  cases hjournal : c.journal with
  | some stored =>
    exact {
      site := hsite stored hjournal
      covers := fun op ⟨record, hrecord, hop⟩ => Option.some.inj (hjournal ▸ hrecord) ▸ hop
      held := fun op hop => h.journal hw op ⟨stored, hjournal, hop⟩
      known := hj.known stored hjournal
      snapshot := hj.snapshot stored hjournal
      kept := fun record hrecord m hm => Or.inl (Option.some.inj (hjournal ▸ hrecord) ▸ hm) }
  | none =>
    refine {
      site := hf.1
      covers := fun op ⟨record, hrecord, _⟩ => absurd (hjournal ▸ hrecord) (by simp)
      held := ?_
      known := fun m hm => (hf.2.2 m hm).1
      snapshot := Or.inl hf.2.1
      kept := fun record hrecord => absurd (hjournal ▸ hrecord) (by simp) }
    intro op hop
    rcases hop with hop | ⟨m, hm, hop⟩
    · rw [Option.getD_none, hf.2.1, hr.carried_nil] at hop
      cases hop
    · exact (hf.2.2 m hm).2 op hop

theorem Rewrites.append (h : Rewrites c log site s.doc record) {m : JournalMutation} (hm : Known log m)
    (hheld : ∀ op ∈ E.carried m.bytes, op ∈ E.held s.doc)
    (ha : appendMutation record m = some stored) : Rewrites c log site s.doc stored := by
  obtain ⟨hsite, hsnapshot⟩ := appendMutation_rest ha
  have hkeeps := appendMutation_keeps ha
  have hsub := appendMutation_sub ha
  refine {
    site := hsite.trans h.site
    covers := ?_
    held := ?_
    known := ?_
    snapshot := hsnapshot ▸ h.snapshot
    kept := fun old hold x hx => (h.kept old hold x hx).imp (hkeeps x) id }
  · intro op hop
    rcases h.covers op hop with hop | ⟨x, hx, hop⟩
    · exact Or.inl (hsnapshot ▸ hop)
    · exact Or.inr ⟨x, hkeeps x hx, hop⟩
  · intro op hop
    rcases hop with hop | ⟨x, hx, hop⟩
    · exact h.held op (Or.inl (hsnapshot ▸ hop))
    · rcases hsub x hx with hx | hx
      · exact h.held op (Or.inr ⟨x, hx, hop⟩)
      · exact hheld op (hx ▸ hop)
  · intro x hx
    rcases hsub x hx with hx | hx
    · exact h.known x hx
    · exact hx ▸ hm

theorem Rewrites.resnapshot (hr : E.Replicates) (h : Rewrites c log site s.doc record) {snapshot : Bytes}
    (hs : E.exportFullSnapshot s.doc = some snapshot)
    (hsite : stored.siteId = record.siteId) (hsnapshot : stored.snapshot = snapshot)
    (hsub : ∀ m ∈ stored.pending, m ∈ record.pending)
    (hkept : ∀ m ∈ record.pending, m ∈ stored.pending ∨ ClientEntry.acknowledged m.id ∈ log) :
    Rewrites c log site s.doc stored where
  site := hsite.trans h.site
  covers := fun op hop => Or.inl (hsnapshot ▸ (hr.full_held hs op).mpr (h.held op (h.covers op hop)))
  held := by
    intro op hop
    rcases hop with hop | ⟨m, hm, hop⟩
    · exact (hr.full_held hs op).mp (hsnapshot ▸ hop)
    · exact h.held op (Or.inr ⟨m, hsub m hm, hop⟩)
  known := fun m hm => h.known m (hsub m hm)
  snapshot := Or.inr ⟨s.doc, hsnapshot ▸ hs⟩
  kept := by
    intro old hold m hm
    rcases h.kept old hold m hm with hm | hm
    · exact hkept m hm
    · exact Or.inr hm

theorem written_rewrites (hr : E.Replicates) (hj : JournalAccounted c)
    (hsite : ∀ record, c.journal = some record → record.siteId = site)
    (h : PageAccounted c c.log site s) (hw : Writing s)
    (hjob : JobAccounted E c.log s.doc site job)
    (hstored : s.written E c.journal job = some stored) : Rewrites c c.log site s.doc stored := by
  cases job with
  | append fallback m byTyping =>
    exact (base_rewrites hr hj hsite h hw hjob.1).append hjob.2.1 hjob.2.2 hstored
  | checkpoint fallback =>
    obtain ⟨snapshot, hs, hrecord⟩ := Option.map_eq_some_iff.mp hstored
    subst hrecord
    exact (base_rewrites hr hj hsite h hw hjob).resnapshot hr hs rfl rfl (fun _ hm => hm) fun _ hm => Or.inl hm
  | acknowledge fallback receipt =>
    obtain ⟨snapshot, hs, hrecord⟩ := Option.map_eq_some_iff.mp hstored
    subst hrecord
    refine (base_rewrites hr hj hsite h hw hjob.1).resnapshot hr hs rfl rfl
      (fun _ hm => mem_of_mem_filter hm) fun m hm => ?_
    by_cases heq : m.id = receipt.id
    · exact Or.inr (heq ▸ hjob.2)
    · exact Or.inl (mem_filter.mpr ⟨hm, by simpa using heq⟩)

end

/-! ## Each event -/

namespace Client

variable {c : Client E}

theorem site_of_page {s : Session E} (h : c.page = some s) : c.site E = some s.marksSiteId := by
  simp only [site, h]

theorem site_of_journal (h : Accounted c) {record : ReplicaJournalRecord} (hj : c.journal = some record) :
    c.site E = some record.siteId := by
  unfold site
  cases hp : c.page with
  | some s => exact congrArg some (h.site s record hp hj).symm
  | none => simp only [hj, Option.map_some]

theorem putPage_accounted {s : Session E} (hc : ServerAccounted c) (hj : JournalAccounted c)
    (hsite : ∀ record, c.journal = some record → record.siteId = s.marksSiteId)
    (hown : ∀ op ∈ c.committed, (E.name op).origin = s.marksSiteId → InJournal E c.journal op)
    (h : PageAccounted c (c.log ++ s.out) s.marksSiteId s) : Accounted (c.putPage E s) := by
  have hwritten : ∀ m, Written (c.log ++ s.out) m → Written c.log m :=
    fun m ⟨pending, hmem, hm⟩ => ⟨pending, h.written pending hmem, hm⟩
  exact {
    numbered := h.numbered
    acks := h.acks
    server := {
      unique := hc.unique
      foreign := hc.foreign
      own := fun site hs => Option.some.inj hs ▸ hown
      receipts := fun m hm => ⟨(hc.receipts m hm).1.append, (hc.receipts m hm).2⟩ }
    journal := {
      written := fun m hm => ⟨(hj.written m (hwritten m hm)).1.append, (hj.written m (hwritten m hm)).2⟩
      kept := fun m hm => (hj.kept m (hwritten m hm)).imp id (mem_append_left _)
      known := fun record hr m hm => (hj.known record hr m hm).append
      snapshot := hj.snapshot }
    page := by
      intro s' hs'
      cases hs'
      exact ⟨rfl, rfl, { h with written := fun _ hmem => hmem }⟩
    site := by
      intro s' record hs' hr
      cases hs'
      exact hsite record hr }

def honestAllowed (c : Client E) (log : List ClientEntry) : Allowed E where
  sends := fun _ => True
  mints := fun doc _ bytes _ => ∀ op ∈ E.carried bytes, op ∈ E.held doc
  edits := fun _ => True
  loads := fun bytes => ∀ op ∈ E.carried bytes, op ∈ c.committed
  acks := fun receipt => ∃ m ∈ c.receipts, m.id = receipt.id
  retires := fun id => ClientEntry.acknowledged id ∈ log

theorem honest_changes (log : List ClientEntry) : HonestChanges c log (honestAllowed c log) where
  mints := fun _ _ _ _ h => h
  loads := fun _ h => h
  acks := fun _ h => h
  retires := fun _ h => h

theorem cuts_held (hr : E.Replicates) (log : List ClientEntry) (doc : E.Doc) (version : Bytes) :
    Session.Cuts (honestAllowed c log) doc version := by
  intro kind bytes h op hop
  unfold exportReconnectPayload at h
  split at h
  · next exported hexport =>
    injection h with h
    injection h with _ hbytes
    exact hr.update_held hexport op (hbytes ▸ hop)
  · obtain ⟨snapshot, hs, heq⟩ := Option.map_eq_some_iff.mp h
    injection heq with _ hbytes
    exact hr.compact_held hs op (hbytes ▸ hop)
  · simp at h

variable {e : ClientEvent E}

theorem onPage_accounted (ho : E.Origins) (hr : E.Replicates) (h : Accounted c)
    (he : c.Honest E e) : Accounted (c.onPage E fun s => s.react E e) := by
  unfold onPage
  split
  · next s hpage =>
    obtain ⟨hout, hids, hp⟩ := h.page s hpage
    have hadm : Session.Admits (honestAllowed c c.log) s e := {
      walk := fun _ _ _ => trivial
      cut := fun doc version _ => cuts_held hr c.log doc version
      edit := fun change _ => ⟨trivial, fun doc bytes hedit op hop =>
        (hr.edit_held hedit op).mpr (Or.inr hop)⟩
      fetched := fun bytes heq => by subst heq; exact he
      update := fun bytes heq => by subst heq; exact he
      snapshot := fun bytes heq => by subst heq; exact he
      committed := fun receipt heq => by subst heq; exact he
      tabUpdate := fun bytes heq => by subst heq; exact absurd he id
      tabSnapshot := fun bytes heq => by subst heq; exact absurd he id }
    have hlog : c.log = c.log ++ s.out := by rw [hout, append_nil]
    have hreact := steps_accounted ho hr h.server (site_of_page hpage) (honest_changes c.log)
      (Session.react_steps hadm) (hlog ▸ hp)
    refine putPage_accounted h.server h.journal ?_ ?_ (hreact.site_eq.symm ▸ hreact)
    · intro record hrecord
      rw [hreact.site_eq]
      exact h.site s record hpage hrecord
    · rw [hreact.site_eq]
      exact h.server.own s.marksSiteId (site_of_page hpage)
  · exact h

/-! ## Opening a page -/

theorem emitted_opened {log : List ClientEntry} {pending : List JournalMutation} :
    emitted (log ++ [.opened pending]) = pending := emitted_snoc

structure Restores (c : Client E) (stored : ReplicaJournalRecord) (s : Session E) : Prop where
  site_eq : s.marksSiteId = stored.siteId
  doc_site : E.site s.doc = stored.siteId
  ids : s.ids = c.ids
  held : ∀ op ∈ E.held s.doc, Retains E stored op
  pending : s.pendingMutations = stored.pending
  lane : s.lane = []
  out : s.out = []

theorem importPending_restores (ho : E.Origins) (hr : E.Replicates)
    {s : Session E} (h : Restores c stored s) {m : JournalMutation} (hm : m ∈ stored.pending) :
    Restores c stored (importPending E s m) := by
  unfold importPending
  split
  · next doc hd =>
    refine { h with doc_site := (ho.site_load hd).trans h.doc_site, held := ?_ }
    intro op hop
    rcases hr.load_held hd op hop with hop | hop
    · exact h.held op hop
    · exact Or.inr ⟨m, hm, hop⟩
  · have hq := Session.recordStorageError_quiet (s := s)
    exact {
      site_eq := hq.site.trans h.site_eq
      doc_site := hq.doc ▸ h.doc_site
      ids := hq.ids.trans h.ids
      held := hq.doc ▸ h.held
      pending := hq.pending.trans h.pending
      lane := hq.lane.trans h.lane
      out := hq.out.trans h.out }

theorem importPending_names (hr : E.Replicates) {s : Session E} {m : JournalMutation}
    (hrun : (importPending E s m).storageFatal = false) :
    s.storageFatal = false ∧
      (∀ op ∈ E.held s.doc, op ∈ E.held (importPending E s m).doc) ∧
      ∀ op ∈ E.carried m.bytes, ∃ known ∈ E.held (importPending E s m).doc, E.name known = E.name op := by
  unfold importPending at hrun ⊢
  split at hrun
  · next doc hd =>
    simp only
    exact ⟨hrun, hr.load_keeps hd, hr.load_names hd⟩
  · have hstop := Session.recordStorageError_fatal (s := s)
    rw [hstop] at hrun
    cases hrun

theorem importPendings_names (hr : E.Replicates) (pending : List JournalMutation) (s : Session E)
    (hrun : (pending.foldl (importPending E) s).storageFatal = false) :
    s.storageFatal = false ∧
      (∀ op ∈ E.held s.doc, op ∈ E.held (pending.foldl (importPending E) s).doc) ∧
      ∀ m ∈ pending, ∀ op ∈ E.carried m.bytes,
        ∃ known ∈ E.held (pending.foldl (importPending E) s).doc, E.name known = E.name op := by
  induction pending generalizing s with
  | nil => exact ⟨hrun, fun _ hop => hop, fun _ hm => by cases hm⟩
  | cons first pending ih =>
    rw [foldl_cons] at hrun ⊢
    obtain ⟨hnext, hkeeps, hnames⟩ := ih (importPending E s first) hrun
    obtain ⟨hs, hkeep, hname⟩ := importPending_names hr hnext
    refine ⟨hs, fun op hop => hkeeps op (hkeep op hop), fun m hm op hop => ?_⟩
    rcases mem_cons.mp hm with heq | hm
    · obtain ⟨known, hk, hn⟩ := hname op (heq ▸ hop)
      exact ⟨known, hkeeps known hk, hn⟩
    · exact hnames m hm op hop

theorem startStored_accounted (ho : E.Origins) (hr : E.Replicates) (h : Accounted c)
    (hstored : c.journal = some stored)
    (hdoc : E.site doc = stored.siteId)
    (hsub : ∀ op ∈ E.held doc, op ∈ E.carried stored.snapshot)
    (hnames : ∀ op ∈ E.carried stored.snapshot, ∃ known ∈ E.held doc, E.name known = E.name op) :
    Accounted (c.putPage E (c.startStored E stored doc)) := by
  have hrestored : Restores c stored (c.restored stored doc) :=
    ⟨rfl, hdoc, rfl, fun op hop => Or.inl (hsub op hop), rfl, rfl, rfl⟩
  have hfold : ∀ pending : List JournalMutation, (∀ m ∈ pending, m ∈ stored.pending) → ∀ s : Session E,
      Restores c stored s → Restores c stored (pending.foldl (importPending E) s) := by
    intro pending
    induction pending with
    | nil => exact fun _ _ hs => hs
    | cons m pending ih =>
      intro hall s hs
      refine ih (fun x hx => hall x (mem_cons_of_mem m hx)) _ ?_
      exact importPending_restores ho hr hs (hall m mem_cons_self)
  have hloaded := hfold stored.pending (fun _ hm => hm) _ hrestored
  have hall : ∀ op, Retains E stored op → InJournal E c.journal op := fun op hop => ⟨stored, hstored, hop⟩
  let loaded := stored.pending.foldl (importPending E) (c.restored stored doc)
  -- the names are those of the journal's operations, and within the journal a name is one operation
  have hjournal : loaded.storageFatal = false → ∀ op, Retains E stored op → op ∈ E.held loaded.doc := by
    intro hrun op hop
    obtain ⟨-, hkeeps, hpending⟩ := importPendings_names hr stored.pending _ hrun
    have hnamed : ∃ known ∈ E.held loaded.doc, E.name known = E.name op := by
      rcases hop with hop | ⟨m, hm, hop⟩
      · obtain ⟨known, hk, hn⟩ := hnames op hop
        exact ⟨known, hkeeps known hk, hn⟩
      · exact hpending m hm op hop
    obtain ⟨known, hk, hn⟩ := hnamed
    have heq : known = op :=
      h.server.unique known op (Or.inr (hall known (hloaded.held known hk))) (Or.inr (hall op hop)) hn
    exact heq ▸ hk
  have hwriting : Writing { loaded with localSaved := true } → loaded.storageFatal = false := by
    intro hw
    rcases hw with hw | hw
    · exact hw
    · exact absurd hloaded.lane hw
  have hmem : ∀ op, InJournal E c.journal op → Retains E stored op :=
    fun op ⟨record, hrecord, hop⟩ => Option.some.inj (hstored ▸ hrecord) ▸ hop
  have hsite := hloaded.site_eq
  have hopened : PageAccounted c (c.log ++ (c.startStored E stored doc).out) stored.siteId
      (c.startStored E stored doc) := by
    have hout : (c.startStored E stored doc).out = [.opened stored.pending] := by
      show loaded.out ++ [.opened stored.pending] = _
      rw [hloaded.out, nil_append]
    have hnumbered : Sequenced c.log loaded.ids := hloaded.ids ▸ h.numbered
    rw [hout]
    exact {
      site_eq := hsite
      doc_site := hloaded.doc_site
      numbered := hnumbered.snoc (by simp)
      journal := fun hw op hop => hjournal (hwriting hw) op (hmem op hop)
      foreign := fun op hop hne => h.server.foreign stored hstored op (hall op (hloaded.held op hop)) hne
      unique := fun op hop known hknown heq => by
        refine h.server.unique op known (Or.inr (hall op (hloaded.held op hop))) ?_ heq
        rcases hknown with hk | hk | hk
        · exact Or.inl hk
        · exact Or.inr hk
        · exact Or.inr (hall known (hloaded.held known hk))
      pending := fun m hm => (h.journal.known stored hstored m (hloaded.pending ▸ hm)).append
      pending_held := fun hw m hm op hop =>
        hjournal (hwriting hw) op (Or.inr ⟨m, hloaded.pending ▸ hm, hop⟩)
      lane := fun job hm => absurd (hloaded.lane ▸ hm) not_mem_nil
      acks := fun id hid => by
        rcases mem_append.mp hid with hid | hid
        · exact h.acks id hid
        · simp at hid
      emits := fun m hm => by
        rw [emitted_opened] at hm
        exact ⟨(h.journal.known stored hstored m hm).append, Or.inl (hloaded.pending.symm ▸ hm)⟩
      written := fun pending hp => by
        rcases mem_append.mp hp with hp | hp
        · exact hp
        · simp at hp }
  have hsite' : (c.startStored E stored doc).marksSiteId = stored.siteId := hsite
  refine putPage_accounted h.server h.journal ?_ ?_ (hsite'.symm ▸ hopened)
  · intro record hrecord
    have heq : stored = record := Option.some.inj (hstored.symm.trans hrecord)
    rw [hsite', heq]
  · rw [hsite']
    exact h.server.own _ (site_of_journal h hstored)

theorem opens_accounted (ho : E.Origins) (hr : E.Replicates) {site : SiteId} (h : Accounted c)
    (he : c.Honest E (.opens site)) : Accounted (c.opens E site) := by
  unfold opens
  split
  · exact h
  · next hpage hjournal =>
    have hnone : c.site E = none := by simp only [Client.site, hpage, hjournal, Option.map_none]
    have hown := he hnone
    have hnot : ∀ op, ¬ InJournal E c.journal op := fun op ⟨record, hrecord, _⟩ => by
      rw [hjournal] at hrecord
      cases hrecord
    refine putPage_accounted h.server h.journal ?_ ?_ ?_
    · intro record hrecord
      rw [hjournal] at hrecord
      cases hrecord
    · exact fun op hop heq => absurd heq (hown op hop)
    have hempty : ∀ op, op ∉ E.held (E.create site) := fun op hop => by
      rw [hr.held_create] at hop
      cases hop
    exact {
      site_eq := rfl
      doc_site := ho.site_create site
      numbered := h.numbered.snoc (by simp)
      journal := fun _ op hop => absurd hop (hnot op)
      foreign := fun op hop => absurd hop (hempty op)
      unique := fun op hop => absurd hop (hempty op)
      pending := fun _ hm => by cases hm
      pending_held := fun _ _ hm => by cases hm
      lane := fun _ hm => by cases hm
      acks := fun id hid => by
        rcases mem_append.mp hid with hid | hid
        · exact h.acks id hid
        · simp [Session.record, freshSession] at hid
      emits := fun m hm => by
        have hnil : emitted (c.log ++ [.opened []]) = [] := emitted_opened
        cases hnil ▸ hm
      written := fun pending hp => by
        rcases mem_append.mp hp with hp | hp
        · exact hp
        · simp [Session.record, freshSession] at hp }
  · next stored hpage hstored =>
    simp only []
    split
    · next doc hdoc =>
      split at hdoc
      · next hblank =>
        cases hdoc
        refine startStored_accounted ho hr h hstored (ho.site_create _) ?_ ?_
        · intro op hop
          rw [hr.held_create] at hop
          cases hop
        · intro op hop
          rw [hblank, hr.carried_nil] at hop
          cases hop
      · refine startStored_accounted ho hr h hstored ((ho.site_load hdoc).trans (ho.site_create _)) ?_
          (hr.load_names hdoc)
        intro op hop
        rcases hr.load_held hdoc op hop with hop | hop
        · rw [hr.held_create] at hop
          cases hop
        · exact hop
    · next hnone =>
      -- a journal's snapshot is empty or a full one, and a full one loads
      split at hnone
      · cases hnone
      next hsnap =>
      rcases h.journal.snapshot stored hstored with hs | ⟨doc, hs⟩
      · exact absurd hs hsnap
      · have hloads := hr.full_loads hs stored.siteId
        rw [hnone] at hloads
        cases hloads

/-! ## The lane -/

theorem persist_accounted (ho : E.Origins) (hr : E.Replicates) {storage : Storage} (h : Accounted c) :
    Accounted (c.persist E storage) := by
  unfold persist
  split
  · exact h
  next s hpage =>
  obtain ⟨hout, hids, hp⟩ := h.page s hpage
  split
  · exact h
  next job lane hlane =>
  have hjob := hp.lane job (hlane ▸ mem_cons_self)
  have hwriting : Writing s := Or.inr (by rw [hlane]; simp)
  have hnext : PageAccounted c c.log s.marksSiteId { s with lane } := { hp with
    journal := fun _ => hp.journal hwriting
    pending_held := fun _ => hp.pending_held hwriting
    lane := fun job' hmem => hp.lane job' (hlane ▸ mem_cons_of_mem job hmem) }
  have hnone : ∀ log : List ClientEntry, log ++ { s with lane }.out = log :=
    fun log => (congrArg (log ++ ·) hout).trans (append_nil log)
  have hsite := site_of_page hpage
  have hfailed : ∀ {c' : Client E}, ServerAccounted c' → c'.site E = some s.marksSiteId →
      PageAccounted c' (c'.log ++ { s with lane }.out) s.marksSiteId { s with lane } →
      PageAccounted c' (c'.log ++ { s with lane }.failed.out) s.marksSiteId { s with lane }.failed := by
    intro c' hc' hs' hp'
    refine steps_accounted ho hr hc' hs' (honest_changes c'.log) ?_ hp'
    exact Session.Steps.trans (t := { { s with lane } with localSaved := false })
      (Session.Quiet.steps ⟨rfl, rfl, rfl, rfl, rfl, rfl, id, id⟩) Session.recordStorageError_quiet.steps
  simp only []
  split
  · have hf := hfailed h.server hsite ((hnone c.log).symm ▸ hnext)
    refine putPage_accounted h.server h.journal ?_ ?_ (hf.site_eq.symm ▸ hf)
    · intro record hrecord
      rw [hf.site_eq]
      exact h.site s record hpage hrecord
    · rw [hf.site_eq]
      exact h.server.own _ hsite
  next stored hwrite =>
  have hwrite : { s with lane }.written E c.journal job = some stored := by
    split at hwrite
    · cases hwrite
    · exact hwrite
  have hrew : Rewrites c c.log s.marksSiteId s.doc stored :=
    written_rewrites (s := s) hr h.journal (fun record => h.site s record hpage) hp hwriting hjob hwrite
  let wrote : Client E := { c with journal := some stored, log := c.log ++ [.written stored.pending] }
  have hin : ∀ op, InJournal E wrote.journal op ↔ Retains E stored op := by
    intro op
    constructor
    · intro ⟨record, hrecord, hop⟩
      exact Option.some.inj hrecord ▸ hop
    · exact fun hop => ⟨stored, rfl, hop⟩
  have hwsite : wrote.site E = some s.marksSiteId := by simp only [wrote, Client.site, hpage]
  have hserver : ServerAccounted wrote := {
    unique := by
      intro op known hop hknown heq
      rcases hop with hop | hop
      · rcases hknown with hk | hk
        · exact h.server.unique op known (Or.inl hop) (Or.inl hk) heq
        · have hk := hrew.held known ((hin known).mp hk)
          exact (hp.unique known hk op (Or.inl hop) heq.symm).symm
      · have hop := hrew.held op ((hin op).mp hop)
        rcases hknown with hk | hk
        · exact hp.unique op hop known (Or.inl hk) heq
        · exact hp.unique op hop known (Or.inr (Or.inr (hrew.held known ((hin known).mp hk)))) heq
    foreign := by
      intro record hrecord op hop hne
      rw [← Option.some.inj hrecord, hrew.site] at hne
      exact hp.foreign op (hrew.held op ((hin op).mp hop)) hne
    own := by
      intro site hs op hop horigin
      rw [hwsite] at hs
      exact (hin op).mpr (hrew.covers op (h.server.own site (hs ▸ hsite) op hop horigin))
    receipts := fun m hm => ⟨(h.server.receipts m hm).1.append, (h.server.receipts m hm).2⟩ }
  have hcases : ∀ m, Written wrote.log m → Written c.log m ∨ m ∈ stored.pending := by
    intro m ⟨pending, hmem, hm⟩
    rcases mem_append.mp hmem with hmem | hmem
    · exact Or.inl ⟨pending, hmem, hm⟩
    · injection mem_singleton.mp hmem with heq
      exact Or.inr (heq ▸ hm)
  have hjournal : JournalAccounted wrote := {
    written := by
      intro m hm
      rcases hcases m hm with hm | hm
      · obtain ⟨hknown, hkept⟩ := h.journal.written m hm
        exact ⟨hknown.append, fun op hop => (hin op).mpr (hrew.covers op (hkept op hop))⟩
      · exact ⟨(hrew.known m hm).append, fun op hop => (hin op).mpr (Or.inr ⟨m, hm, hop⟩)⟩
    kept := by
      intro m hm
      rcases hcases m hm with hm | hm
      · rcases h.journal.kept m hm with ⟨record, hrecord, hmem⟩ | hack
        · rcases hrew.kept record hrecord m hmem with hmem | hack
          · exact Or.inl ⟨stored, rfl, hmem⟩
          · exact Or.inr (mem_append_left _ hack)
        · exact Or.inr (mem_append_left _ hack)
      · exact Or.inl ⟨stored, rfl, hm⟩
    known := fun record hrecord m hm => (hrew.known m (Option.some.inj hrecord ▸ hm)).append
    snapshot := fun record hrecord => Option.some.inj hrecord ▸ hrew.snapshot }
  have hpagew : PageAccounted wrote wrote.log s.marksSiteId { s with lane } := {
    site_eq := rfl
    doc_site := hp.doc_site
    numbered := hp.numbered.snoc (by simp)
    journal := fun _ op hop => hrew.held op ((hin op).mp hop)
    foreign := hp.foreign
    unique := fun op hop known hknown heq => by
      refine hp.unique op hop known ?_ heq
      rcases hknown with hk | hk | hk
      · exact Or.inl hk
      · exact Or.inr (Or.inr (hrew.held known ((hin known).mp hk)))
      · exact Or.inr (Or.inr hk)
    pending := fun m hm => (hp.pending m hm).append
    pending_held := fun _ => hp.pending_held hwriting
    lane := fun job' hmem => (hnext.lane job' hmem).mono fun _ hop => hop
    acks := fun id hid => by
      rcases mem_append.mp hid with hid | hid
      · exact hp.acks id hid
      · simp at hid
    emits := fun m hm => by
      have hsame : emitted (c.log ++ [.written stored.pending]) = emitted c.log := emitted_snoc
      obtain ⟨hknown, hcase⟩ := hp.emits m (hsame ▸ hm)
      exact ⟨hknown.append, hcase.imp id (mem_append_left _)⟩
    written := fun _ hmem => hmem }
  have hput : ∀ {t : Session E}, PageAccounted wrote (wrote.log ++ t.out) s.marksSiteId t →
      Accounted (wrote.putPage E t) := by
    intro t ht
    refine putPage_accounted hserver hjournal ?_ ?_ (ht.site_eq.symm ▸ ht)
    · intro record hrecord
      rw [← Option.some.inj hrecord, ht.site_eq]
      exact hrew.site
    · rw [ht.site_eq]
      exact hserver.own _ hwsite
  refine hput ?_
  have hstart : PageAccounted wrote (wrote.log ++ { s with lane }.out) s.marksSiteId { s with lane } :=
    (hnone wrote.log).symm ▸ hpagew
  split
  · refine steps_accounted ho hr hserver hwsite (honest_changes wrote.log) (Session.settled_steps ?_ ?_ ?_) hstart
    · exact fun _ _ _ _ => trivial
    · intro fallback receipt heq
      subst heq
      exact mem_append_left _ hjob.2
    · exact fun doc version _ => cuts_held hr wrote.log doc version
  · exact hfailed hserver hwsite hstart

/-! ## The server -/

variable {op : E.Op}

theorem commitOp_accounted (h : Accounted c)
    (hop : InJournal E c.journal op ∨ c.site E ≠ some (E.name op).origin) :
    Accounted { c with committed := commitOp E c.committed op } := by
  by_cases hknown : c.committed.any (fun known => E.name known == E.name op) = true
  · have hsame : commitOp E c.committed op = c.committed := by
      unfold commitOp
      rw [if_pos hknown]
    rw [hsame]
    exact h
  have hnew : commitOp E c.committed op = c.committed ++ [op] := by
    unfold commitOp
    rw [if_neg hknown]
  have hfresh : ∀ known ∈ c.committed, E.name known ≠ E.name op := by
    intro known hk heq
    exact hknown (any_eq_true.mpr ⟨known, hk, by simpa using heq⟩)
  have hmem : ∀ x, x ∈ c.committed ++ [op] ↔ x ∈ c.committed ∨ x = op := by simp
  -- whatever shares the new operation's name is that operation
  have hjournal : ∀ x, InJournal E c.journal x → E.name x = E.name op → x = op := by
    intro x hx heq
    rcases hop with hop | hop
    · exact h.server.unique x op (Or.inr hx) (Or.inr hop) heq
    obtain ⟨record, hrecord, hkeeps⟩ := hx
    rw [site_of_journal h hrecord] at hop
    have hne : (E.name x).origin ≠ record.siteId := fun heq' => hop (by rw [← heq, heq'])
    exact absurd heq (hfresh x (h.server.foreign record hrecord x ⟨record, hrecord, hkeeps⟩ hne))
  have hheld : ∀ s, c.page = some s → ∀ x ∈ E.held s.doc, E.name x = E.name op → x = op := by
    intro s hpage x hx heq
    obtain ⟨-, -, hp⟩ := h.page s hpage
    rcases hop with hop | hop
    · exact hp.unique x hx op (Or.inr (Or.inl hop)) heq
    · rw [site_of_page hpage] at hop
      have hne : (E.name x).origin ≠ s.marksSiteId := fun heq' => hop (by rw [← heq, heq'])
      exact absurd heq (hfresh x (hp.foreign x hx hne))
  rw [hnew]
  exact {
    numbered := h.numbered
    acks := h.acks
    server := {
      unique := by
        intro a b ha hb heq
        have hcase : ∀ x, x ∈ c.committed ++ [op] ∨ InJournal E c.journal x →
            (x ∈ c.committed ∨ InJournal E c.journal x) ∨ x = op := by
          intro x hx
          rcases hx with hx | hx
          · exact ((hmem x).mp hx).imp Or.inl id
          · exact Or.inl (Or.inr hx)
        have hsame : ∀ x, (x ∈ c.committed ∨ InJournal E c.journal x) → E.name x = E.name op → x = op := by
          intro x hx hxop
          rcases hx with hx | hx
          · exact absurd hxop (hfresh x hx)
          · exact hjournal x hx hxop
        rcases hcase a ha with ha | ha
        · rcases hcase b hb with hb | hb
          · exact h.server.unique a b ha hb heq
          · rw [hb]
            exact hsame a ha (hb ▸ heq)
        · rcases hcase b hb with hb | hb
          · rw [ha]
            exact (hsame b hb (ha ▸ heq.symm)).symm
          · rw [ha, hb]
      foreign := fun record hrecord x hx hne =>
        (hmem x).mpr (Or.inl (h.server.foreign record hrecord x hx hne))
      own := by
        intro site hs x hx horigin
        rcases (hmem x).mp hx with hx | hx
        · exact h.server.own site hs x hx horigin
        rcases hop with hop | hop
        · exact hx ▸ hop
        · refine absurd ?_ hop
          rw [← hx, horigin]
          exact hs
      receipts := fun m hm =>
        ⟨(h.server.receipts m hm).1, fun x hx => (hmem x).mpr (Or.inl ((h.server.receipts m hm).2 x hx))⟩ }
    journal := ⟨h.journal.written, h.journal.kept, h.journal.known, h.journal.snapshot⟩
    page := by
      intro s hpage
      obtain ⟨hout, hids, hp⟩ := h.page s hpage
      refine ⟨hout, hids, ?_⟩
      exact { hp with
        journal := hp.journal
        foreign := fun x hx hne => (hmem x).mpr (Or.inl (hp.foreign x hx hne))
        unique := by
          intro x hx known hk heq
          rcases hk with hk | hk | hk
          · rcases (hmem known).mp hk with hk | hk
            · exact hp.unique x hx known (Or.inl hk) heq
            · rw [hk]
              exact hheld s hpage x hx (hk ▸ heq)
          · exact hp.unique x hx known (Or.inr (Or.inl hk)) heq
          · exact hp.unique x hx known (Or.inr (Or.inr hk)) heq
        acks := hp.acks
        written := hp.written }
    site := h.site }

theorem commitOps_accounted (operations : List E.Op) (c : Client E) (h : Accounted c)
    (hop : ∀ op ∈ operations, InJournal E c.journal op ∨ c.site E ≠ some (E.name op).origin) :
    Accounted (c.commitOps E operations) := by
  induction operations generalizing c with
  | nil => exact h
  | cons op operations ih =>
    refine ih { c with committed := commitOp E c.committed op } ?_ fun x hx => ?_
    · exact commitOp_accounted h (hop op mem_cons_self)
    · exact hop x (mem_cons_of_mem op hx)

theorem commitOp_keeps {committed : List E.Op} {known : E.Op} (h : known ∈ committed) :
    known ∈ commitOp E committed op := by
  unfold commitOp
  split
  · exact h
  · exact mem_append_left _ h

theorem commitOps_names (operations committed : List E.Op) :
    (∀ known ∈ committed, known ∈ operations.foldl (commitOp E) committed) ∧
      ∀ op ∈ operations, ∃ known ∈ operations.foldl (commitOp E) committed, E.name known = E.name op := by
  induction operations generalizing committed with
  | nil => exact ⟨fun _ h => h, fun _ h => by cases h⟩
  | cons first operations ih =>
    obtain ⟨hkeeps, hnames⟩ := ih (commitOp E committed first)
    refine ⟨fun known hk => hkeeps known (commitOp_keeps hk), fun op hop => ?_⟩
    rcases mem_cons.mp hop with heq | hop
    · have hfirst : ∃ known ∈ commitOp E committed first, E.name known = E.name first := by
        unfold commitOp
        split
        · next h =>
          obtain ⟨known, hk, hn⟩ := any_eq_true.mp h
          exact ⟨known, hk, by simpa using hn⟩
        · exact ⟨first, by simp, rfl⟩
      obtain ⟨known, hk, hn⟩ := hfirst
      exact ⟨known, hkeeps known hk, heq ▸ hn⟩
    · exact hnames op hop

theorem commit_accounted (h : Accounted c) (hj : Journaled c) (m : JournalMutation) :
    Accounted (c.commit E m) := by
  unfold commit
  split
  · next hsent =>
    obtain ⟨entry, hentry, hm⟩ := any_eq_true.mp hsent
    have hwritten : Written c.log m := by
      cases entry with
      | sent site m' =>
        have heq : m' = m := by simpa using hm
        obtain ⟨before, after, hlog⟩ := append_of_mem hentry
        have hw := hj.sends before site m' after hlog
        rw [hlog, ← heq]
        exact hw.append
      | opened pending => cases hm
      | minted m' byTyping => cases hm
      | written pending => cases hm
      | broadcast m' => cases hm
      | acknowledged id => cases hm
    obtain ⟨hknown, hkept⟩ := h.journal.written m hwritten
    have hops := commitOps_accounted (E.carried m.bytes) c h fun op hop => Or.inl (hkept op hop)
    obtain ⟨-, hnames⟩ := commitOps_names (E.carried m.bytes) c.committed
    have hcommitted : ∀ op ∈ E.carried m.bytes, op ∈ (c.commitOps E (E.carried m.bytes)).committed := by
      intro op hop
      obtain ⟨known, hk, hn⟩ := hnames op hop
      have heq : known = op := hops.server.unique known op (Or.inl hk) (Or.inr (hkept op hop)) hn
      exact heq ▸ hk
    have hacks : ∀ id, (∃ x ∈ c.receipts, x.id = id) → ∃ x ∈ c.receipts ++ [m], x.id = id :=
      fun id ⟨x, hx, hid⟩ => ⟨x, mem_append_left _ hx, hid⟩
    exact {
      numbered := hops.numbered
      acks := fun id hid => hacks id (hops.acks id hid)
      server := {
        unique := hops.server.unique
        foreign := hops.server.foreign
        own := hops.server.own
        receipts := by
          intro x hx
          rcases mem_append.mp hx with hx | hx
          · exact hops.server.receipts x hx
          · rw [mem_singleton.mp hx]
            exact ⟨hknown, hcommitted⟩ }
      journal := ⟨hops.journal.written, hops.journal.kept, hops.journal.known, hops.journal.snapshot⟩
      page := by
        intro s hpage
        obtain ⟨hout, hids, hp⟩ := hops.page s hpage
        exact ⟨hout, hids, { hp with
          journal := hp.journal
          foreign := hp.foreign
          unique := hp.unique
          acks := fun id hid => hacks id (hp.acks id hid)
          written := hp.written }⟩
      site := hops.site }
  · exact h

theorem crash_accounted (h : Accounted c) : Accounted { c with page := none } where
  numbered := h.numbered
  acks := h.acks
  server := {
    unique := h.server.unique
    foreign := h.server.foreign
    own := by
      intro site hs
      obtain ⟨record, hrecord, hsite⟩ := Option.map_eq_some_iff.mp hs
      exact hsite ▸ h.server.own record.siteId (site_of_journal h hrecord)
    receipts := h.server.receipts }
  journal := ⟨h.journal.written, h.journal.kept, h.journal.known, h.journal.snapshot⟩
  page := fun _ hs => by cases hs
  site := fun _ _ hs => by cases hs

theorem step_accounted (ho : E.Origins) (hr : E.Replicates) (hj : Journaled c)
    (h : Accounted c) (he : c.Honest E e) : Accounted (c.step E e) := by
  cases e with
  | opens site => exact opens_accounted ho hr h he
  | persist storage => exact persist_accounted ho hr h
  | crash => exact crash_accounted h
  | others operations => exact commitOps_accounted operations c h fun op hop => Or.inr (he op hop)
  | commit mutation => exact commit_accounted h hj mutation
  | fetched bytes => exact onPage_accounted ho hr h he
  | checkpoint => exact onPage_accounted ho hr h he
  | edit change => exact onPage_accounted ho hr h he
  | prune version => exact onPage_accounted ho hr h he
  | compact => exact onPage_accounted ho hr h he
  | connect => exact onPage_accounted ho hr h he
  | socketOpen => exact onPage_accounted ho hr h he
  | socketClosing => exact onPage_accounted ho hr h he
  | message message => exact onPage_accounted ho hr h he
  | disconnect code => exact onPage_accounted ho hr h he
  | offline => exact onPage_accounted ho hr h he
  | pageHide => exact onPage_accounted ho hr h he
  | tab message => exact onPage_accounted ho hr h he

/-! ## Durability -/

def HonestRun (events : List (ClientEvent E)) : Prop :=
  Transition.Along (fun c e => Client.step E c e) (fun c e => c.Honest E e) (init E) events

instance [DecidableEq E.Op] (events : List (ClientEvent E)) : Decidable (HonestRun events) :=
  Transition.decidableAlong _ _

theorem after_accounted (ho : E.Origins) (hr : E.Replicates) {events : List (ClientEvent E)}
    (hh : HonestRun events) (hw : SettledWalks events) : Accounted (after E events) := by
  have hboth : Transition.Along (fun c e => Client.step E c e)
      (fun c e => c.Honest E e ∧ c.settledWalks e = true) (init E) events :=
    Transition.along_and hh hw
  have hkept : Transition.Kept (fun c e => Client.step E c e)
      (fun c e => c.Honest E e ∧ c.settledWalks e = true) (fun c => Journaled c ∧ Accounted c) :=
    Transition.Kept.and (fun c e h he => step_journaled h he.2)
      fun c e hj h he => step_accounted ho hr hj h he.1
  refine (Transition.run_inv hkept ⟨?_, ?_⟩ hboth).2
  · exact {
      sends := SendsJournaled.nil
      stored := fun _ hr => by cases hr
      page := fun _ hs => absurd hs (by simp [init]) }
  · have hnot : ∀ op, ¬ InJournal E (init E).journal op := by
      rintro op ⟨record, hrecord, -⟩
      cases hrecord
    have hknown : ∀ m, ¬ Known (init E).log m := by
      rintro m ⟨_, hm⟩
      cases hm
    exact {
      numbered := ⟨fun m hm => absurd hm (hknown m), fun m _ hm => absurd hm (hknown m)⟩
      acks := fun _ hid => by cases hid
      server := {
        unique := fun op known hop => by
          rcases hop with hop | hop
          · cases hop
          · exact absurd hop (hnot op)
        foreign := fun _ hrecord => by cases hrecord
        own := fun _ _ _ hop => by cases hop
        receipts := fun _ hm => absurd hm not_mem_nil }
      journal := {
        written := by
          rintro m ⟨_, hm, -⟩
          cases hm
        kept := by
          rintro m ⟨_, hm, -⟩
          cases hm
        known := fun _ hrecord => by cases hrecord
        snapshot := fun _ hrecord => absurd hrecord (by simp [init]) }
      page := fun _ hs => by cases hs
      site := fun _ _ hs => absurd hs (by simp [init]) }

def DurableSound (c : Client E) : Prop :=
  ∀ s, c.page = some s → s.isDurable = true →
    ∀ m ∈ emitted c.log, ∀ op ∈ E.carried m.bytes, op ∈ c.committed

def PendingKept (c : Client E) : Prop :=
  ∀ m, Written c.log m →
    (∃ record, c.journal = some record ∧ m ∈ record.pending) ∨ ClientEntry.acknowledged m.id ∈ c.log

theorem durable_of_accounted (h : Accounted c) : DurableSound c := by
  intro s hpage hdurable m hm op hop
  obtain ⟨-, -, hp⟩ := h.page s hpage
  obtain ⟨hknown, hcase⟩ := hp.emits m hm
  have hnone : s.pendingMutations = [] := by
    simp only [Session.isDurable, Bool.and_eq_true, List.isEmpty_iff] at hdurable
    exact hdurable.1.1.1.2
  rcases hcase with hcase | hcase
  · rw [hnone] at hcase
    cases hcase
  obtain ⟨m', hm', hid⟩ := h.acks m.id hcase
  obtain ⟨hknown', hops⟩ := h.server.receipts m' hm'
  have heq : m' = m := h.numbered.once m' m hknown' hknown hid
  exact hops op (heq ▸ hop)

def savingThenCrash : List (ClientEvent tape) :=
  [.opens 1, .edit (97 : UInt8), .persist .ok, .connect, .socketOpen, .message (.serverVv []),
    .message .synced, .commit ⟨0, .update, [1, 1, 0, 97]⟩, .message (.committed ⟨0, 1, [1, 0]⟩),
    .persist .ok]

def editingAgain (id : MutationId) (char : UInt8) (revision : Nat) : List (ClientEvent tape) :=
  [.opens 0, .edit char, .persist .ok, .connect, .socketOpen, .message (.serverVv [1, 0]),
    .message .synced, .commit ⟨id, .update, [1, 1, 1, char]⟩,
    .message (.committed ⟨id, revision, [1, 0, 1, 1]⟩), .persist .ok]

/-- An edit sent from the pending list while its append is outstanding, committed, and lost to a crash. -/
def overtaken : List (ClientEvent tape) :=
  savingThenCrash ++ [.disconnect none, .edit (98 : UInt8), .connect, .socketOpen,
    .message (.serverVv [1, 0]), .message .synced, .commit ⟨1, .update, [1, 1, 1, 98]⟩, .crash] ++
    editingAgain 2 99 2

def lostOp : tape.Op := (⟨1, 1, 99⟩ : LogOp)

end Client

end Marks
