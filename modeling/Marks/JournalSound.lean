import Marks.Tape
import Marks.SessionSound

/-! # Journal before network

A mutation is sent after a journal transaction that holds it. The pending list is walked as a whole, so
this needs every pending mutation of a running page to be in a transaction or to wait for one in the lane,
and the walk not to start while one waits. -/

namespace Marks

open List

/-! ## Mutations a journal transaction holds -/

def Written (log : List ClientEntry) (m : JournalMutation) : Prop :=
  ∃ pending, ClientEntry.written pending ∈ log ∧ m ∈ pending

def SendsJournaled (log : List ClientEntry) : Prop :=
  ∀ before site m after, log = before ++ .sent site m :: after → Written before m

section
variable {log extra : List ClientEntry} {m : JournalMutation} {entry : ClientEntry}

theorem Written.append (h : Written log m) : Written (log ++ extra) m := by
  obtain ⟨pending, hlog, hm⟩ := h
  exact ⟨pending, mem_append_left extra hlog, hm⟩

theorem written_last {pending : List JournalMutation} (hm : m ∈ pending) :
    Written (log ++ [.written pending]) m :=
  ⟨pending, by simp, hm⟩

theorem SendsJournaled.snoc (h : SendsJournaled log) (he : ∀ site m, entry = .sent site m → Written log m) :
    SendsJournaled (log ++ [entry]) := by
  intro before site m after heq
  rcases eq_nil_or_concat after with hnil | ⟨init, last, hlast⟩
  · subst hnil
    obtain ⟨hlog, hentry⟩ := append_inj' heq rfl
    subst hlog
    exact he site m (singleton_inj.mp hentry)
  · subst hlast
    have hsplit : log ++ [entry] = (before ++ .sent site m :: init) ++ [last] := by
      rw [heq, concat_eq_append, append_assoc, cons_append]
    exact h before site m init (append_inj' hsplit rfl).1

theorem SendsJournaled.nil : SendsJournaled [] := by
  intro before site m after heq
  simp at heq

end

/-! ## What a job writes -/

section
variable {record record' : ReplicaJournalRecord} {m : JournalMutation}

theorem appendMutation_mem (hb : m.bytes ≠ []) (h : appendMutation record m = some record') :
    m ∈ record'.pending := by
  unfold appendMutation at h
  rw [if_neg hb] at h
  split at h
  · next existing hfind =>
    split at h
    · simp at h
    next hsame =>
    simp only [ne_eq, not_or, not_not] at hsame
    have hid : existing.id = m.id := by simpa using find?_some hfind
    have heq : existing = m := by
      cases existing
      cases m
      simp_all
    rw [← Option.some.inj h, ← heq]
    exact mem_of_find?_eq_some hfind
  · cases h
    simp

theorem appendMutation_sub (h : appendMutation record m = some record') :
    ∀ x ∈ record'.pending, x ∈ record.pending ∨ x = m := by
  intro x hx
  unfold appendMutation at h
  split at h
  · rw [← Option.some.inj h] at hx
    exact Or.inl hx
  split at h
  · split at h
    · simp at h
    · rw [← Option.some.inj h] at hx
      exact Or.inl hx
  · rw [← Option.some.inj h] at hx
    simpa using hx

theorem appendMutation_keeps (h : appendMutation record m = some record') :
    ∀ x ∈ record.pending, x ∈ record'.pending := by
  intro x hx
  unfold appendMutation at h
  split at h
  · cases h
    exact hx
  split at h
  · split at h
    · simp at h
    · cases h
      exact hx
  · cases h
    exact mem_append_left _ hx

theorem appendMutation_rest (h : appendMutation record m = some record') :
    record'.siteId = record.siteId ∧ record'.snapshot = record.snapshot := by
  unfold appendMutation at h
  split at h
  · cases h
    exact ⟨rfl, rfl⟩
  split at h
  · split at h
    · simp at h
    · cases h
      exact ⟨rfl, rfl⟩
  · cases h
    exact ⟨rfl, rfl⟩

end

/-! ## The invariant -/

variable {E : Esbt}

structure PageJournaled (log : List ClientEntry) (s : Session E) : Prop where
  sends : SendsJournaled log
  pending : s.stopped = false → ∀ m ∈ s.pendingMutations,
    Written log m ∨ ∃ fallback byTyping, JournalJob.append fallback m byTyping ∈ s.lane
  appends : ∀ fallback m byTyping, JournalJob.append fallback m byTyping ∈ s.lane → m.bytes ≠ []

structure Journaled (c : Client E) : Prop where
  sends : SendsJournaled c.log
  stored : ∀ record, c.journal = some record → ∀ m ∈ record.pending, Written c.log m
  page : ∀ s, c.page = some s → s.out = [] ∧ PageJournaled c.log s

section
variable {log : List ClientEntry} {s t : Session E} {A : Allowed E}

theorem PageJournaled.of_eq (h : PageJournaled log s) (hp : t.pendingMutations = s.pendingMutations)
    (hl : t.lane = s.lane) (hs : s.stopped = true → t.stopped = true) : PageJournaled log t where
  sends := h.sends
  pending := by
    intro hrun m hm
    have hrun : s.stopped = false := by
      cases hstop : s.stopped with
      | false => rfl
      | true => rw [hs hstop] at hrun; cases hrun
    rw [hl]
    exact h.pending hrun m (hp ▸ hm)
  appends := hl ▸ h.appends

theorem PageJournaled.record (h : PageJournaled (log ++ s.out) s) (entry : ClientEntry)
    (he : ∀ site m, entry = .sent site m → Written (log ++ s.out) m) :
    PageJournaled (log ++ (s.record entry).out) (s.record entry) := by
  have hout : log ++ (s.record entry).out = (log ++ s.out) ++ [entry] := by
    simp only [Session.record, append_assoc]
  rw [hout]
  exact {
    sends := h.sends.snoc he
    pending := fun hrun m hm => (h.pending hrun m hm).imp Written.append id
    appends := h.appends }

theorem PageJournaled.enqueue (h : PageJournaled log s) (job : JournalJob)
    (hj : ∀ fallback m byTyping, job = .append fallback m byTyping → m.bytes ≠ []) :
    PageJournaled log (s.enqueue job) where
  sends := h.sends
  pending := by
    intro hrun m hm
    rcases h.pending hrun m hm with hw | ⟨fallback, byTyping, hmem⟩
    · exact Or.inl hw
    · exact Or.inr ⟨fallback, byTyping, mem_append_left _ hmem⟩
  appends := by
    intro fallback m byTyping hmem
    rcases mem_append.mp hmem with hmem | hmem
    · exact h.appends fallback m byTyping hmem
    · exact hj fallback m byTyping (mem_singleton.mp hmem).symm

theorem PageJournaled.mint (h : PageJournaled (log ++ s.out) s) (kind : MutationKind) {bytes : Bytes}
    (byTyping : Bool) (hb : bytes ≠ []) :
    PageJournaled (log ++ (s.mint kind bytes byTyping).out) (s.mint kind bytes byTyping) := by
  have hrec := h.record (.minted ⟨s.ids, kind, bytes⟩ byTyping) (by simp)
  refine { sends := hrec.sends, pending := ?_, appends := ?_ }
  · intro hrun m hm
    rcases mem_append.mp hm with hm | hm
    · rcases hrec.pending hrun m hm with hw | ⟨fallback, typing, hmem⟩
      · exact Or.inl hw
      · exact Or.inr ⟨fallback, typing, mem_append_left _ hmem⟩
    · rw [mem_singleton.mp hm]
      exact Or.inr ⟨_, byTyping, mem_append_right _ (mem_singleton.mpr rfl)⟩
  · intro fallback m typing hmem
    rcases mem_append.mp hmem with hmem | hmem
    · exact h.appends fallback m typing hmem
    · injection mem_singleton.mp hmem with _ hm _
      rw [hm]
      exact hb

theorem atom_journaled (ha : ∀ m, A.sends m → Written log m) (h : s.Atom A t)
    (hp : PageJournaled (log ++ s.out) s) : PageJournaled (log ++ t.out) t := by
  cases h with
  | quiet h =>
    rw [h.out]
    exact hp.of_eq h.pending h.lane h.stopped
  | sent m hm hs =>
    refine hp.record _ fun site m' heq => ?_
    injection heq with _ hmm
    exact hmm ▸ (ha m hm).append
  | shown m => exact hp.record _ (by simp)
  | minted kind bytes byTyping _ hb _ => exact hp.mint kind byTyping hb
  | edited change _ doc bytes _ _ => exact hp.of_eq rfl rfl id
  | loaded bytes _ doc _ => exact hp.of_eq rfl rfl id
  | pruned version doc _ => exact hp.of_eq rfl rfl id
  | checkpointed _ => exact hp.enqueue _ (by simp)
  | acked receipt _ _ => exact (hp.record (.acknowledged receipt.id) (by simp)).enqueue _ (by simp)
  | retired id _ =>
    exact {
      sends := hp.sends
      pending := fun hrun m hm => hp.pending hrun m (mem_of_mem_filter hm)
      appends := hp.appends }

theorem steps_journaled (ha : ∀ m, A.sends m → Written log m) (h : Session.Steps A s t)
    (hp : PageJournaled (log ++ s.out) s) : PageJournaled (log ++ t.out) t :=
  h.keeps (P := fun s => PageJournaled (log ++ s.out) s) (fun _ _ => atom_journaled ha) hp

theorem failed_journaled (hs : SendsJournaled log)
    (ha : ∀ fallback m byTyping, JournalJob.append fallback m byTyping ∈ s.lane → m.bytes ≠ []) :
    PageJournaled log s.failed := by
  have hlane : s.failed.lane = s.lane := Session.recordStorageError_quiet.lane
  have hstop : s.failed.stopped = true := Session.recordStorageError_stopped
  refine { sends := hs, pending := ?_, appends := hlane.symm ▸ ha }
  intro hrun
  rw [hstop] at hrun
  cases hrun

end

/-! ## Each event -/

namespace Client

def settledWalks (c : Client E) (e : ClientEvent E) : Bool :=
  match c.page with
  | some s => !s.walks e || s.lane.all fun job => !job.isAppend
  | none => true

variable {c : Client E}

theorem putPage_journaled {s : Session E} (h : Journaled c) (hp : PageJournaled (c.log ++ s.out) s) :
    Journaled (c.putPage E s) where
  sends := hp.sends
  stored := fun record hr m hm => (h.stored record hr m hm).append
  page := by
    intro s' hs'
    cases hs'
    exact ⟨rfl, hp.of_eq rfl rfl id⟩

variable {e : ClientEvent E}

theorem onPage_journaled (h : Journaled c) (hc : c.settledWalks e = true) :
    Journaled (c.onPage E fun s => s.react E e) := by
  unfold onPage
  split
  · next s hpage =>
    obtain ⟨hout, hp⟩ := h.page s hpage
    simp only [settledWalks, hpage, Bool.or_eq_true, Bool.not_eq_true', all_eq_true] at hc
    let A : Allowed E := ⟨Written c.log, fun _ _ _ _ => True, fun _ => True, fun _ => True, fun _ => True,
      fun _ => True⟩
    have hadm : Session.Admits A s e := {
      walk := by
        intro hw m hm
        have hrun : s.stopped = false := Session.walks_running hw
        rcases hp.pending hrun m hm with hwritten | ⟨fallback, byTyping, hmem⟩
        · exact hwritten
        · rcases hc with hc | hc
          · exact absurd hw (by rw [hc]; decide)
          · exact absurd (hc _ hmem) (by simp [JournalJob.isAppend])
      cut := fun _ _ _ _ _ _ => trivial
      edit := fun _ _ => ⟨trivial, fun _ _ _ => trivial⟩
      fetched := fun _ _ => trivial
      update := fun _ _ => trivial
      snapshot := fun _ _ => trivial
      committed := fun _ _ => trivial
      tabUpdate := fun _ _ => ⟨trivial, fun _ _ _ => trivial⟩
      tabSnapshot := fun _ _ => trivial }
    refine putPage_journaled h (steps_journaled (fun _ hm => hm) (Session.react_steps hadm) ?_)
    rw [hout, append_nil]
    exact hp
  · exact h

variable {doc : E.Doc} {site : SiteId}

theorem fresh_journaled (h : Journaled c) :
    PageJournaled c.log (c.freshSession E doc site) where
  sends := h.sends
  pending := fun _ _ hm => by cases hm
  appends := fun _ _ _ hmem => by cases hmem

/-- What `start` reads of a stored journal, before its pending list is loaded. -/
def restored (c : Client E) (stored : ReplicaJournalRecord) (doc : E.Doc) : Session E :=
  { c.freshSession E doc stored.siteId with
    pendingMutations := stored.pending
    lastAckedVersion := stored.ackedVersion
    committedRevision := stored.committedRevision }

variable {stored : ReplicaJournalRecord}

theorem startStored_journaled (h : Journaled c)
    (hstored : c.journal = some stored) :
    PageJournaled (c.log ++ (c.startStored E stored doc).out) (c.startStored E stored doc) := by
  let A : Allowed E := ⟨Written c.log, fun _ _ _ _ => True, fun _ => True, fun _ => True, fun _ => True,
    fun _ => True⟩
  have hrestored : PageJournaled (c.log ++ (c.restored stored doc).out) (c.restored stored doc) := by
    have hout : (c.restored stored doc).out = [] := rfl
    rw [hout, append_nil]
    exact {
      sends := h.sends
      pending := fun _ m hm => Or.inl (h.stored stored hstored m hm)
      appends := fun _ _ _ hmem => absurd hmem not_mem_nil }
  have hsteps : Session.Steps A (c.restored stored doc)
      (stored.pending.foldl (importPending E) (c.restored stored doc)) :=
    Session.importPendings_steps fun _ _ => trivial
  have hloaded := steps_journaled (fun _ hm => hm) hsteps hrestored
  have hsaved : PageJournaled _ { stored.pending.foldl (importPending E) (c.restored stored doc) with
    localSaved := true } := hloaded.of_eq rfl rfl id
  exact hsaved.record (.opened stored.pending) (by simp)

theorem opens_journaled (h : Journaled c) : Journaled (c.opens E site) := by
  unfold opens
  split
  · exact h
  · refine putPage_journaled h (PageJournaled.record ?_ (.opened []) (by simp))
    exact (append_nil c.log).symm ▸ fresh_journaled h
  next stored hpage hstored =>
  simp only []
  split
  · exact putPage_journaled h (startStored_journaled h hstored)
  split
  · next snapshot _ =>
    have hlog : ∀ m ∈ stored.pending, Written (c.log ++ [.written stored.pending]) m :=
      fun _ hm => written_last hm
    exact {
      sends := h.sends.snoc (by simp)
      stored := fun record hr m hm => hlog m (by rw [← Option.some.inj hr] at hm; exact hm)
      page := fun s hs => absurd (hpage ▸ hs) (by simp) }
  · exact h

theorem wrote_journaled {s : Session E} {job : JournalJob} {lane : List JournalJob}
    (hp : PageJournaled c.log s) (hlane : s.lane = job :: lane)
    (hw : { s with lane }.written E c.journal job = some stored) :
    PageJournaled (c.log ++ [.written stored.pending]) { s with lane } where
  sends := hp.sends.snoc (by simp)
  pending := by
    intro hrun m hm
    rcases hp.pending hrun m hm with hwritten | ⟨fallback, byTyping, hmem⟩
    · exact Or.inl hwritten.append
    rw [hlane] at hmem
    rcases mem_cons.mp hmem with heq | hmem
    · have hb := hp.appends fallback m byTyping (hlane ▸ heq ▸ mem_cons_self)
      rw [← heq] at hw
      exact Or.inl (written_last (appendMutation_mem hb hw))
    · exact Or.inr ⟨fallback, byTyping, hmem⟩
  appends := fun fallback m byTyping hmem =>
    hp.appends fallback m byTyping (hlane ▸ mem_cons_of_mem job hmem)

theorem persist_journaled {storage : Storage} (h : Journaled c) : Journaled (c.persist E storage) := by
  unfold persist
  split
  · exact h
  next s hpage =>
  obtain ⟨hout, hp⟩ := h.page s hpage
  split
  · exact h
  next job lane hlane =>
  have happends : ∀ fallback m byTyping, JournalJob.append fallback m byTyping ∈ lane → m.bytes ≠ [] :=
    fun fallback m byTyping hmem => hp.appends fallback m byTyping (hlane ▸ mem_cons_of_mem job hmem)
  have hfailed : ∀ {log}, SendsJournaled log →
      PageJournaled (log ++ { s with lane }.failed.out) { s with lane }.failed := by
    intro log hsends
    have hnone : { s with lane }.failed.out = [] := Session.recordStorageError_quiet.out.trans hout
    rw [hnone, append_nil]
    exact failed_journaled hsends happends
  simp only []
  split
  · exact putPage_journaled h (hfailed h.sends)
  next stored hwrite =>
  have hwrite : { s with lane }.written E c.journal job = some stored := by
    split at hwrite
    · cases hwrite
    · exact hwrite
  have hwrote := wrote_journaled hp hlane hwrite
  have hc : Journaled ({ c with
      journal := some stored
      log := c.log ++ [.written stored.pending] } : Client E) := {
    sends := hwrote.sends
    stored := fun record hr m hm => by
      rw [← Option.some.inj hr] at hm
      exact written_last hm
    page := fun s' hs' => by
      rw [hpage] at hs'
      cases hs'
      exact ⟨hout, {
        sends := hwrote.sends
        pending := fun hrun m hm => (hp.pending hrun m hm).imp Written.append id
        appends := hp.appends }⟩ }
  refine putPage_journaled hc ?_
  split
  · let A : Allowed E := ⟨Written (c.log ++ [.written stored.pending]), fun _ _ _ _ => True, fun _ => True,
      fun _ => True, fun _ => True, fun _ => True⟩
    refine steps_journaled (A := A) (fun _ hm => hm) (Session.settled_steps ?_ ?_ ?_) ?_
    · intro fallback m byTyping heq
      have hb := hp.appends fallback m byTyping (hlane ▸ heq ▸ mem_cons_self)
      rw [heq] at hwrite
      exact written_last (appendMutation_mem hb hwrite)
    · exact fun _ _ _ => trivial
    · exact fun _ _ _ _ _ _ => trivial
    · have hnone : { s with lane }.out = [] := hout
      rw [hnone, append_nil]
      exact hwrote.of_eq rfl rfl id
  · exact hfailed hwrote.sends

theorem journaled_of_eq {c' : Client E} (h : Journaled c) (hl : c'.log = c.log)
    (hj : c'.journal = c.journal) (hp : ∀ s, c'.page = some s → c.page = some s) : Journaled c' where
  sends := hl ▸ h.sends
  stored := by
    rw [hj, hl]
    exact h.stored
  page := by
    intro s hs
    rw [hl]
    exact h.page s (hp s hs)

theorem step_journaled (h : Journaled c) (hc : c.settledWalks e = true) :
    Journaled (c.step E e) := by
  cases e with
  | opens site => exact opens_journaled h
  | persist storage => exact persist_journaled h
  | crash => exact journaled_of_eq h rfl rfl fun _ hs => absurd hs (by simp [step])
  | others operations => exact journaled_of_eq h rfl rfl fun _ hs => hs
  | commit mutation =>
    simp only [step, commit]
    split
    · exact journaled_of_eq h rfl rfl fun _ hs => hs
    · exact h
  | fetched bytes => exact onPage_journaled h hc
  | checkpoint => exact onPage_journaled h hc
  | edit change => exact onPage_journaled h hc
  | prune version => exact onPage_journaled h hc
  | compact => exact onPage_journaled h hc
  | connect => exact onPage_journaled h hc
  | socketOpen => exact onPage_journaled h hc
  | socketClosing => exact onPage_journaled h hc
  | message message => exact onPage_journaled h hc
  | disconnect code => exact onPage_journaled h hc
  | offline => exact onPage_journaled h hc
  | pageHide => exact onPage_journaled h hc
  | tab message => exact onPage_journaled h hc

def SettledWalks (events : List (ClientEvent E)) : Prop :=
  Transition.Along (fun c e => Client.step E c e) (fun c e => c.settledWalks e = true) (init E) events

instance (events : List (ClientEvent E)) : Decidable (SettledWalks events) :=
  Transition.decidableAlong _ _

theorem after_journaled {events : List (ClientEvent E)} (h : SettledWalks events) :
    Journaled (after E events) := by
  refine Transition.run_inv (fun _ _ => step_journaled) ?_ h
  exact {
    sends := SendsJournaled.nil
    stored := fun _ hr => by cases hr
    page := fun _ hs => absurd hs (by simp [init]) }

/-- **Journal before network.** Where no walk of the pending list overtakes an append, every mutation frame
is sent after a journal transaction that holds its mutation. -/
theorem journal_before_network (events : List (ClientEvent E)) (h : SettledWalks events) :
    SendsJournaled (after E events).log :=
  (after_journaled h).sends

def editing : List (ClientEvent tape) :=
  [.opens 1, .connect, .socketOpen, .message (.serverVv []), .edit (97 : UInt8)]

theorem editing_journaled :
    SendsJournaled (after tape (editing ++ [.persist .ok, .message .synced])).log :=
  journal_before_network _ (by decide +kernel)

theorem editing_overtaken : ¬ SendsJournaled (after tape (editing ++ [.message .synced])).log := by
  intro h
  have hlog : (after tape (editing ++ [.message .synced])).log =
      [.opened [], .minted ⟨0, .update, [1, 1, 0, 97]⟩ true] ++
        .sent 1 ⟨0, .update, [1, 1, 0, 97]⟩ :: [] := by
    decide +kernel
  obtain ⟨pending, hmem, -⟩ := h _ _ _ _ hlog
  simp at hmem

end Client

end Marks
