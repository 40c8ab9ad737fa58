import Marks.DurableSound
import Marks.LocalTabs

/-! # What the tabs' journal keeps

A tab retires an edit with a snapshot of its own replica, and every tab's checkpoint replaces the snapshot of the
journal. What a tab reported durable stays in the journal as long as no tab replaces it with a replica that has yet
to import some of it. -/

namespace Marks

/-! ## Pages -/

namespace LocalPage

section
variable {E : Esbt}

structure GoesOn (s s' : LocalPage E) : Prop where
  emitted : s'.emitted = s.emitted
  held : ∀ op ∈ E.held s.doc, op ∈ E.held s'.doc
  pending : ∀ m ∈ s.pendingMutations, m ∈ s'.pendingMutations

namespace GoesOn

variable {s s' s'' : LocalPage E}

theorem refl : GoesOn s s := ⟨rfl, fun _ => id, fun _ => id⟩

theorem trans (h : GoesOn s s') (h' : GoesOn s' s'') : GoesOn s s'' :=
  ⟨h'.emitted.trans h.emitted, fun op hop => h'.held op (h.held op hop), fun m hm => h'.pending m (h.pending m hm)⟩

end GoesOn

theorem goesOn_same {s s' : LocalPage E} (hemitted : s'.emitted = s.emitted) (hdoc : s'.doc = s.doc)
    (hpending : s'.pendingMutations = s.pendingMutations) : GoesOn s s' :=
  ⟨hemitted, fun _ hop => hdoc ▸ hop, fun _ hm => hpending ▸ hm⟩

variable {s : LocalPage E}

theorem checkpointJournal_goesOn : GoesOn s s.checkpointJournal := by
  unfold checkpointJournal
  split
  · exact .refl
  · exact goesOn_same rfl rfl rfl

theorem recordStorageError_goesOn : GoesOn s s.recordStorageError := by
  unfold recordStorageError
  split
  · exact .refl
  · exact goesOn_same rfl rfl rfl

theorem failed_goesOn : GoesOn s s.failed := by
  have hunsaved : GoesOn s { s with localSaved := false } := goesOn_same rfl rfl rfl
  exact hunsaved.trans recordStorageError_goesOn

theorem scheduleTabSnapshot_goesOn : GoesOn s s.scheduleTabSnapshot := by
  unfold scheduleTabSnapshot
  split
  · exact .refl
  · exact goesOn_same rfl rfl rfl

theorem destroy_goesOn : GoesOn s s.destroy :=
  checkpointJournal_goesOn.trans (goesOn_same rfl rfl rfl)

theorem compactDurableLocalHistory_goesOn : GoesOn s (s.compactDurableLocalHistory) := by
  unfold compactDurableLocalHistory
  split
  · exact .refl
  · exact goesOn_same rfl rfl rfl

theorem sendSnapshot_goesOn : GoesOn s (s.sendSnapshot E).1 := by
  unfold sendSnapshot
  split
  · exact .refl
  simp only []
  split
  · exact goesOn_same rfl rfl rfl
  · split
    · exact goesOn_same rfl rfl rfl
    · exact goesOn_same rfl rfl rfl

theorem persistAndSendMutation_goesOn {id : MutationId} {bytes : Bytes} {kind : MutationKind} {broadcastTab : Bool} :
    GoesOn s (s.persistAndSendMutation id bytes kind broadcastTab) := by
  unfold persistAndSendMutation
  split
  · exact .refl
  · exact ⟨rfl, fun _ hop => hop, fun _ hm => List.mem_append_left _ hm⟩

theorem importFromTab_goesOn (hr : E.Replicates) {id : MutationId} {bytes : Bytes} {kind : MutationKind} :
    GoesOn s (s.importFromTab E id bytes kind) := by
  unfold importFromTab
  split
  · exact .refl
  split
  · exact .refl
  rename_i doc hload
  have himported : GoesOn s { s with doc } := 
    ⟨rfl, fun op hop => hr.load_keeps hload op hop, fun _ hm => hm⟩
  cases kind with
  | update => exact himported.trans persistAndSendMutation_goesOn
  | snapshot => exact himported

theorem onMessage_goesOn (hr : E.Replicates) {id : MutationId} {message : TabMessage} :
    GoesOn s (s.onMessage E id message) := by
  cases message with
  | hello => exact scheduleTabSnapshot_goesOn
  | requestSnapshot => exact scheduleTabSnapshot_goesOn
  | update bytes =>
    show GoesOn s (s.importFromTab E id bytes .update)
    exact importFromTab_goesOn hr
  | snapshot bytes =>
    show GoesOn s (s.importFromTab E id bytes .snapshot)
    exact importFromTab_goesOn hr

theorem importPending_emitted {mutation : JournalMutation} : (s.importPending E mutation).emitted = s.emitted := by
  unfold importPending
  split
  · rfl
  · exact recordStorageError_goesOn.emitted

theorem start_emitted {site : SiteId} {stored : Option ReplicaJournalRecord} :
    (start E site stored).1.emitted = [] := by
  cases stored with
  | none => exact checkpointJournal_goesOn.emitted
  | some stored =>
    have hpending : ∀ (pending : List JournalMutation) (s : LocalPage E),
        (pending.foldl (importPending E) s).emitted = s.emitted := by
      intro pending
      induction pending with
      | nil => exact fun _ => rfl
      | cons mutation pending ih => exact fun s => (ih _).trans importPending_emitted
    simp only [start]
    split
    · exact destroy_goesOn.emitted
    · exact checkpointJournal_goesOn.emitted.trans (hpending _ _)

def Saved (journal : Option ReplicaJournalRecord) (s : LocalPage E) : Prop :=
  ∀ op ∈ s.emitted, op ∈ E.held s.doc ∧
    (InJournal E journal op ∨ ∃ m ∈ s.pendingMutations, op ∈ E.carried m.bytes)

variable {journal journal' : Option ReplicaJournalRecord}

theorem Saved.goesOn {s' : LocalPage E} (h : Saved journal s) (hs : GoesOn s s') : Saved journal s' := by
  intro op hop
  rw [hs.emitted] at hop
  obtain ⟨hheld, hsaved⟩ := h op hop
  refine ⟨hs.held op hheld, hsaved.imp_right ?_⟩
  rintro ⟨m, hm, hcarried⟩
  exact ⟨m, hs.pending m hm, hcarried⟩

theorem Saved.mono (h : Saved journal s) (hj : ∀ op, InJournal E journal op → InJournal E journal' op) :
    Saved journal' s :=
  fun op hop => ⟨(h op hop).1, (h op hop).2.imp_left (hj op)⟩

theorem Saved.edit (hr : E.Replicates) (h : Saved journal s) {id : MutationId} {change : E.Edit} :
    Saved journal (s.edit E id change) := by
  unfold LocalPage.edit
  split
  · exact h
  split
  · exact h
  rename_i hrunning _ doc bytes hedit
  have hheld : ∀ op ∈ E.held s.doc, op ∈ E.held doc := fun op hop => (hr.edit_held hedit op).mpr (.inl hop)
  have hsaved : ∀ op ∈ s.emitted, op ∈ E.held doc ∧
      (InJournal E journal op ∨ ∃ m ∈ s.pendingMutations, op ∈ E.carried m.bytes) :=
    fun op hop => ⟨hheld op (h op hop).1, (h op hop).2⟩
  unfold persistAndSendMutation
  split
  · rename_i hempty
    rcases hempty with hstopped | rfl
    · exact absurd hstopped hrunning
    · intro op hop
      simp only [hr.carried_nil, List.append_nil] at hop
      exact hsaved op hop
  · intro op hop
    rcases List.mem_append.mp hop with hop | hop
    · refine ⟨(hsaved op hop).1, (hsaved op hop).2.imp_right ?_⟩
      rintro ⟨m, hm, hcarried⟩
      exact ⟨m, List.mem_append_left _ hm, hcarried⟩
    · exact ⟨(hr.edit_held hedit op).mpr (.inr hop), .inr ⟨_, List.mem_append_right _ List.mem_cons_self, hop⟩⟩

end

end LocalPage

/-! ## Writes -/

def contents (E : Esbt) (record : ReplicaJournalRecord) : List E.Op :=
  E.carried record.snapshot ++ record.pending.flatMap fun m => E.carried m.bytes

namespace LocalJob

def replaces : LocalJob → Bool
  | .append .. => false
  | .checkpoint _ | .acknowledge .. | .archive _ => true

def left (pending : List JournalMutation) : LocalJob → List JournalMutation
  | .acknowledge _ receipt => pending.filter fun m => m.id ≠ receipt.id
  | .append .. | .checkpoint _ | .archive _ => pending

end LocalJob

section
variable {E : Esbt} {record stored fallback : ReplicaJournalRecord} {op : E.Op}

theorem mem_contents : op ∈ contents E record ↔ Retains E record op := by
  unfold contents Retains
  rw [List.mem_append, List.mem_flatMap]

theorem appendMutation_retains {mutation : JournalMutation} (h : appendMutation record mutation = some stored)
    (hop : Retains E record op) : Retains E stored op := by
  unfold appendMutation at h
  split at h
  · cases h
    exact hop
  split at h
  · split at h
    · cases h
    · cases h
      exact hop
  · cases h
    refine hop.imp_right ?_
    rintro ⟨m, hm, hcarried⟩
    exact ⟨m, List.mem_append_left _ hm, hcarried⟩

end

namespace LocalPage

section
variable {E : Esbt} {s : LocalPage E} {journal : Option ReplicaJournalRecord} {stored : ReplicaJournalRecord}
  {job : LocalJob} {op : E.Op}

theorem written_replaces (hr : E.Replicates) (h : s.written E journal job = some stored)
    (hreplaces : job.replaces = true) : (∀ op ∈ E.held s.doc, Retains E stored op) ∧
      ∀ record, journal = some record → ∀ m ∈ job.left record.pending, m ∈ stored.pending := by
  have hfull : ∀ snapshot, E.exportFullSnapshot s.doc = some snapshot →
      ∀ op ∈ E.held s.doc, op ∈ E.carried snapshot :=
    fun snapshot hexport op hop => (hr.full_held hexport op).mpr hop
  cases job with
  | append => cases hreplaces
  | checkpoint fallback =>
    obtain ⟨snapshot, hexport, rfl⟩ := Option.map_eq_some_iff.mp h
    refine ⟨fun op hop => .inl (hfull snapshot hexport op hop), ?_⟩
    rintro record rfl m hm
    exact hm
  | acknowledge fallback receipt =>
    obtain ⟨snapshot, hexport, rfl⟩ := Option.map_eq_some_iff.mp h
    refine ⟨fun op hop => .inl (hfull snapshot hexport op hop), ?_⟩
    rintro record rfl m hm
    exact hm
  | archive fallback =>
    obtain ⟨snapshot, hexport, rfl⟩ := Option.map_eq_some_iff.mp h
    refine ⟨fun op hop => .inl (hfull snapshot hexport op hop), ?_⟩
    rintro record rfl m hm
    exact hm

theorem written_keeps (hr : E.Replicates) (h : s.written E journal job = some stored)
    (hcurrent : job.replaces = true → ∀ record, journal = some record → ∀ op ∈ contents E record,
      op ∈ E.held s.doc ∨ ∃ m ∈ job.left record.pending, op ∈ E.carried m.bytes)
    (hop : InJournal E journal op) : InJournal E (some stored) op := by
  obtain ⟨record, rfl, hretains⟩ := hop
  refine ⟨stored, rfl, ?_⟩
  by_cases hreplaces : job.replaces = true
  · obtain ⟨hheld, hleft⟩ := written_replaces hr h hreplaces
    rcases hcurrent hreplaces record rfl op (mem_contents.mpr hretains) with hop | ⟨m, hm, hcarried⟩
    · exact hheld op hop
    · exact .inr ⟨m, hleft record rfl m hm, hcarried⟩
  · cases job with
    | append fallback mutation broadcastTab => exact appendMutation_retains h hretains
    | checkpoint | acknowledge | archive => exact absurd rfl hreplaces

theorem Saved.settled (hr : E.Replicates) (h : s.written E journal job = some stored)
    (hs : Saved (some stored) s) : Saved (some stored) (s.settled E job).1 := by
  cases job with
  | append fallback mutation broadcastTab =>
    have hsaved : GoesOn s { s with localSaved := true } := goesOn_same rfl rfl rfl
    unfold LocalPage.settled
    simp only []
    split
    · exact hs.goesOn hsaved
    · exact hs.goesOn (hsaved.trans (goesOn_same rfl rfl rfl))
  | checkpoint fallback => exact hs.goesOn (goesOn_same rfl rfl rfl)
  | acknowledge fallback receipt =>
    intro op hop
    have hheld := (hs op hop).1
    exact ⟨hheld, .inl ⟨stored, rfl, (written_replaces hr h rfl).1 op hheld⟩⟩
  | archive fallback =>
    have hsaved : GoesOn s { s with localSaved := true } := goesOn_same rfl rfl rfl
    unfold LocalPage.settled
    simp only []
    split
    · rename_i doc hprune
      have hpruned : GoesOn s { s with doc, localSaved := true } :=
        ⟨rfl, fun op hop => hr.prune_held hprune ▸ hop, fun _ hm => hm⟩
      exact hs.goesOn (hpruned.trans checkpointJournal_goesOn)
    · exact hs.goesOn (hsaved.trans recordStorageError_goesOn)

end

end LocalPage

/-! ## Tabs -/

namespace LocalTabs

section
variable {E : Esbt} {w : LocalTabs E} {t t' : TabIndex} {page : LocalPage E}

theorem page?_some {inbox : List (TabIndex × TabMessage)} (h : w.tabs[t]? = some ⟨.open page, inbox⟩) :
    w.page? E t = some page := by
  unfold page?
  rw [h]

theorem page?_tab (h : w.page? E t = some page) : ∃ inbox, w.tabs[t]? = some ⟨.open page, inbox⟩ := by
  unfold page? at h
  split at h
  · rename_i found inbox htab
    cases h
    exact ⟨inbox, htab⟩
  · cases h

theorem page?_post {messages : List TabMessage} (h : (w.post E t messages).page? E t' = some page) :
    w.page? E t' = some page := by
  obtain ⟨inbox, htab⟩ := page?_tab h
  unfold post at htab
  rw [List.getElem?_mapIdx] at htab
  obtain ⟨tab, hfound, htab⟩ := Option.map_eq_some_iff.mp htab
  split at htab
  · rw [htab] at hfound
    exact page?_some hfound
  cases tab with
  | mk state inbox =>
    cases htab
    exact page?_some hfound

theorem page?_setState {state : LocalTabState E} (h : (w.setState E t state).page? E t' = some page) :
    state = .open page ∨ w.page? E t' = some page := by
  obtain ⟨inbox, htab⟩ := page?_tab h
  unfold setState at htab
  rw [List.getElem?_modify] at htab
  obtain ⟨tab, hfound, htab⟩ := Option.map_eq_some_iff.mp htab
  split at htab
  · cases htab
    exact .inl rfl
  · rw [htab] at hfound
    exact .inr (page?_some hfound)

theorem page?_onPage {f : LocalPage E → LocalPage E × List TabMessage}
    (h : (w.onPage E t f).page? E t' = some page) :
    (∃ before, w.page? E t = some before ∧ page = (f before).1) ∨ w.page? E t' = some page := by
  unfold onPage at h
  split at h
  · rename_i before hbefore
    rcases page?_setState (page?_post h) with he | hsame
    · cases he
      exact .inl ⟨before, hbefore, rfl⟩
    · exact .inr hsame
  · exact .inr h

theorem onPage_journal {f : LocalPage E → LocalPage E × List TabMessage} :
    (w.onPage E t f).journal = w.journal := by
  unfold onPage
  split
  · rfl
  · rfl

end

section
variable {E : Esbt} (w : LocalTabs E)

/-- A tab that writes over the journal has in its replica whatever the stored record has and the write does not
leave pending. -/
def Current : LocalTabEvent E → Prop
  | .persist t storage => storage = .failed ∨ ∀ page ∈ w.page? E t, ∀ job ∈ page.lane.head?,
      job.replaces = true → ∀ record ∈ w.journal, ∀ op ∈ contents E record,
        op ∈ E.held page.doc ∨ ∃ m ∈ job.left record.pending, op ∈ E.carried m.bytes
  | _ => True

instance [DecidableEq E.Op] : ∀ e, Decidable (w.Current e)
  | .persist .. => inferInstanceAs (Decidable (_ ∨ _))
  | .opens | .starts .. | .edit .. | .checkpoint _ | .visible _ | .deliver .. | .reply _ | .compact _ | .close _
  | .crash _ => isTrue trivial

def Kept : Prop := ∀ t page, w.page? E t = some page → page.Saved w.journal

end

section
variable {E : Esbt} {w : LocalTabs E}

theorem Kept.onPage (h : w.Kept) {t : TabIndex} {f : LocalPage E → LocalPage E × List TabMessage}
    (hf : ∀ page, page.Saved w.journal → (f page).1.Saved w.journal) : (w.onPage E t f).Kept := by
  intro t' page hpage
  rw [onPage_journal]
  rcases page?_onPage hpage with ⟨before, hbefore, rfl⟩ | hsame
  · exact hf before (h t before hbefore)
  · exact h t' page hsame

theorem persist_kept (hr : E.Replicates) {t : TabIndex} {storage : Storage}
    (hcurrent : w.Current (.persist t storage)) (h : w.Kept) :
    (∀ op, InJournal E w.journal op → InJournal E (w.persist E t storage).journal op) ∧
      (w.persist E t storage).Kept := by
  unfold persist
  split
  · exact ⟨fun _ hop => hop, h⟩
  rename_i page hpage
  split
  · exact ⟨fun _ hop => hop, h⟩
  rename_i job lane hlane
  have hpageSaved : LocalPage.Saved w.journal { page with lane } :=
    (h t page hpage).goesOn (LocalPage.goesOn_same rfl rfl rfl)
  have hothers : ∀ (w' : LocalTabs E) (state : LocalPage E), w'.tabs = w.tabs →
      (∀ op, InJournal E w.journal op → InJournal E w'.journal op) → state.Saved w'.journal →
      (w'.setState E t (.open state)).Kept := by
    intro w' state htabs hjournal hstate t' page' hpage'
    rcases page?_setState hpage' with he | hsame
    · cases he
      exact hstate
    have hbefore : w.page? E t' = some page' := by
      unfold page? at hsame ⊢
      rw [htabs] at hsame
      exact hsame
    exact (h t' page' hbefore).mono hjournal
  simp only []
  split
  · exact ⟨fun _ hop => hop, hothers w _ rfl (fun _ hop => hop) (hpageSaved.goesOn LocalPage.failed_goesOn)⟩
  rename_i stored hstored
  have hstorage : storage ≠ .failed := by
    rintro rfl
    cases hstored
  rw [if_neg hstorage] at hstored
  have hkept : ∀ op, InJournal E w.journal op → InJournal E (some stored) op := fun op hop =>
    LocalPage.written_keeps hr hstored
      (fun hreplaces record hrecord => hcurrent.resolve_left hstorage page hpage job (by rw [hlane]; rfl) hreplaces
        record hrecord) hop
  have hsaved : LocalPage.Saved (some stored) { page with lane } := hpageSaved.mono hkept
  split
  · refine ⟨fun op hop => by rw [onPage_journal]; exact hkept op hop, ?_⟩
    intro t' page' hpage'
    rw [onPage_journal]
    rcases page?_onPage hpage' with ⟨before, -, rfl⟩ | hsame
    · exact hsaved.settled hr hstored
    · exact (h t' page' hsame).mono hkept
  · exact ⟨hkept, hothers { w with journal := some stored } _ rfl hkept
      (hsaved.goesOn LocalPage.failed_goesOn)⟩

theorem Kept.step (hr : E.Replicates) {event : LocalTabEvent E} (hcurrent : w.Current event) (h : w.Kept) :
    (∀ op, InJournal E w.journal op → InJournal E (w.step E event).journal op) ∧ (w.step E event).Kept := by
  cases event with
  | opens =>
    refine ⟨fun _ hop => hop, fun t page hpage => ?_⟩
    obtain ⟨inbox, htab⟩ := page?_tab hpage
    rcases Nat.lt_trichotomy t w.tabs.length with ht | ht | ht
    · exact h t page (page?_some ((List.getElem?_append_left ht).symm.trans htab))
    · simp [LocalTabs.step, ht] at htab
    · rw [show (w.step E .opens).tabs[t]? = none from List.getElem?_eq_none (by simp [LocalTabs.step]; omega)] at htab
      cases htab
  | starts t site =>
    show (∀ op, _ → InJournal E (w.starts E t site).journal op) ∧ (w.starts E t site).Kept
    unfold starts
    split
    · refine ⟨fun _ hop => hop, fun t' page hpage => ?_⟩
      rcases page?_setState (page?_post hpage) with he | hsame
      · cases he
        intro op hop
        rw [LocalPage.start_emitted] at hop
        cases hop
      · exact h t' page hsame
    · exact ⟨fun _ hop => hop, h⟩
  | edit t change =>
    have hnext : Kept { w with ids := w.ids + 1 } := h
    exact ⟨fun _ hop => by rw [LocalTabs.step, onPage_journal]; exact hop,
      hnext.onPage fun page hpage => hpage.edit hr⟩
  | checkpoint t =>
    exact ⟨fun _ hop => by rw [LocalTabs.step, onPage_journal]; exact hop,
      h.onPage fun page hpage => hpage.goesOn LocalPage.checkpointJournal_goesOn⟩
  | visible t =>
    exact ⟨fun _ hop => by rw [LocalTabs.step, onPage_journal]; exact hop, h.onPage fun page hpage => hpage⟩
  | deliver t sender =>
    show (∀ op, _ → InJournal E (w.deliver E t sender).journal op) ∧ (w.deliver E t sender).Kept
    unfold deliver
    split
    · split
      · refine ⟨fun _ hop => by rw [onPage_journal]; exact hop, ?_⟩
        refine Kept.onPage (fun t' page hpage => ?_) fun page hpage =>
          hpage.goesOn (LocalPage.onMessage_goesOn hr)
        obtain ⟨inbox, htab⟩ := page?_tab hpage
        rw [List.getElem?_modify] at htab
        obtain ⟨tab, hfound, htab⟩ := Option.map_eq_some_iff.mp htab
        split at htab
        · cases tab with
          | mk state inbox =>
            cases htab
            exact h t' page (page?_some hfound)
        · rw [htab] at hfound
          exact h t' page (page?_some hfound)
      · exact ⟨fun _ hop => hop, h⟩
    · exact ⟨fun _ hop => hop, h⟩
  | reply t =>
    exact ⟨fun _ hop => by rw [LocalTabs.step, onPage_journal]; exact hop,
      h.onPage fun page hpage => hpage.goesOn LocalPage.sendSnapshot_goesOn⟩
  | compact t =>
    exact ⟨fun _ hop => by rw [LocalTabs.step, onPage_journal]; exact hop,
      h.onPage fun page hpage => hpage.goesOn LocalPage.compactDurableLocalHistory_goesOn⟩
  | persist t storage => exact persist_kept hr hcurrent h
  | close t =>
    exact ⟨fun _ hop => by rw [LocalTabs.step, onPage_journal]; exact hop,
      h.onPage fun page hpage => hpage.goesOn LocalPage.destroy_goesOn⟩
  | crash t =>
    refine ⟨fun _ hop => hop, fun t' page hpage => ?_⟩
    rcases page?_setState hpage with he | hsame
    · cases he
    · exact h t' page hsame

end

/-! ## Runs -/

section
variable (E : Esbt) (events : List (LocalTabEvent E))

def CurrentRun : Prop := Transition.Along (fun w e => step E w e) (fun w e => w.Current e) (init E) events

instance [DecidableEq E.Op] : Decidable (CurrentRun E events) := Transition.decidableAlong _ _

def DurablyJournaled : Prop :=
  ∀ earlier later, events = earlier ++ later → ∀ t page, (after E earlier).page? E t = some page →
    page.isDurable = true → ∀ op ∈ page.emitted, InJournal E (after E events).journal op

end

section
variable {E : Esbt}

theorem init_kept : (init E).Kept := fun _ _ hpage => nomatch hpage

theorem run_keeps (hr : E.Replicates) {w : LocalTabs E} (h : w.Kept) {events : List (LocalTabEvent E)}
    (hcurrent : Transition.Along (fun w e => step E w e) (fun w e => w.Current e) w events) {op : E.Op}
    (hop : InJournal E w.journal op) : InJournal E (Transition.run (fun w e => step E w e) w events).journal op := by
  induction events generalizing w with
  | nil => exact hop
  | cons event events ih =>
    obtain ⟨hjournal, hkept⟩ := h.step hr hcurrent.1
    exact ih hkept hcurrent.2 (hjournal op hop)

/-- **Durability without a server.** As long as no tab writes over the journal with a replica that is behind it,
what a tab emitted before it was durable is in the journal for good. -/
theorem local_durability (hr : E.Replicates) (events : List (LocalTabEvent E)) (hcurrent : CurrentRun E events) :
    DurablyJournaled E events := by
  rintro earlier later rfl t page hpage hdurable op hop
  obtain ⟨hearlier, hlater⟩ := Transition.along_append.mp hcurrent
  have hkept : (after E earlier).Kept :=
    Transition.run_inv (I := Kept) (fun _ _ h hc => (h.step hr hc).2) init_kept hearlier
  have hempty : page.pendingMutations = [] := by
    unfold LocalPage.isDurable at hdurable
    rw [Bool.and_eq_true, Bool.and_eq_true, List.isEmpty_iff] at hdurable
    exact hdurable.1.2
  rcases (hkept t page hpage op hop).2 with hjournal | ⟨m, hm, -⟩
  · unfold after
    rw [Transition.run_append]
    exact run_keeps hr hkept hlater hjournal
  · rw [hempty] at hm
    cases hm

def savedEdit : List (LocalTabEvent tape) :=
  [.opens, .starts 0 1, .persist 0 .ok, .opens, .starts 1 0, .persist 1 .ok, .edit 0 (97 : UInt8), .persist 0 .ok,
    .persist 0 .ok]

/-- The second tab imports the edit before it is hidden. -/
theorem importedEdit_durable :
    DurablyJournaled tape (savedEdit ++ [.deliver 1 0, .deliver 1 0, .checkpoint 1, .persist 1 .ok, .persist 1 .ok]) :=
  local_durability tape_replicates _ (by decide +kernel)

def savedOp : tape.Op := (⟨1, 0, 97⟩ : LogOp)

/-- The second tab is hidden before it has imported the edit. -/
theorem hiddenTab_not_durable : ¬ DurablyJournaled tape (savedEdit ++ [.checkpoint 1, .persist 1 .ok]) := by
  intro h
  have hreports : ((after tape savedEdit).page? tape 0).map LocalPage.isDurable = some true := by decide +kernel
  have hedited : ∀ page ∈ (after tape savedEdit).page? tape 0, savedOp ∈ page.emitted := by decide +kernel
  obtain ⟨page, hpage, hdurable⟩ := Option.map_eq_some_iff.mp hreports
  obtain ⟨record, hrecord, hretains⟩ := h savedEdit _ rfl 0 page hpage hdurable savedOp (hedited page hpage)
  have hcontents : (after tape (savedEdit ++ [.checkpoint 1, .persist 1 .ok])).journal.map (contents tape) =
      some [] := by decide +kernel
  rw [hrecord] at hcontents
  have hmem := mem_contents.mpr hretains
  rw [Option.some.inj hcontents] at hmem
  cases hmem

end

end LocalTabs

end Marks
