import Marks.Tape
import Marks.TabsSound

/-! # Acknowledged progress

What a page and its journal know to be acknowledged is what the last receipt said, as it was handled there. It only
grows as long as each receipt says at least what is known already; the server answers a mutation that is sent again
behind newer ones, with what it said before. -/

namespace Marks

/-! ## Versions -/

section
variable (E : Esbt)

def Esbt.knows (version : Option Bytes) (op : Operation) : Bool := version.elim false (E.covers · op)

def Esbt.Reaches (newer older : Option Bytes) : Prop := ∀ op, E.knows older op = true → E.knows newer op = true

end

section
variable {E : Esbt} {a b c : Option Bytes}

theorem Reaches.refl : E.Reaches a a := fun _ h => h

theorem Reaches.trans (h : E.Reaches c b) (h' : E.Reaches b a) : E.Reaches c a := fun op hop => h op (h' op hop)

theorem reaches_of_eq (h : a = b) : E.Reaches a b := h ▸ Reaches.refl

end

/-! ## What a page keeps -/

namespace Session

section
variable {E : Esbt} {s : Session E}

theorem checkpointJournal_acked : s.checkpointJournal.lastAckedVersion = s.lastAckedVersion := by
  unfold checkpointJournal
  split <;> rfl

theorem recordStorageError_acked : s.recordStorageError.lastAckedVersion = s.lastAckedVersion := by
  unfold recordStorageError
  split <;> rfl

theorem enterTerminalRecovery_acked : s.enterTerminalRecovery.lastAckedVersion = s.lastAckedVersion := by
  unfold enterTerminalRecovery
  split
  · rfl
  · rw [checkpointJournal_acked]

theorem sendMutation_acked {mutation : JournalMutation} :
    (s.sendMutation mutation).lastAckedVersion = s.lastAckedVersion := by
  unfold sendMutation
  split <;> rfl

theorem sendPendingMutations_acked : s.sendPendingMutations.lastAckedVersion = s.lastAckedVersion := by
  have hall : ∀ (pending : List JournalMutation) (s : Session E),
      (pending.foldl (fun s mutation => s.sendMutation mutation) s).lastAckedVersion = s.lastAckedVersion := by
    intro pending
    induction pending with
    | nil => exact fun _ => rfl
    | cons mutation pending ih => exact fun s => (ih _).trans sendMutation_acked
  unfold sendPendingMutations
  split
  · rfl
  · exact hall _ s

theorem persistAndSendMutation_acked {bytes : Bytes} {kind : MutationKind} {broadcastTab : Bool} :
    (s.persistAndSendMutation bytes kind broadcastTab).lastAckedVersion = s.lastAckedVersion := by
  unfold persistAndSendMutation
  split
  · rfl
  · simp only [enqueue]
    split <;> rfl

theorem sendMissingSince_acked {version : Bytes} :
    (s.sendMissingSince E version).lastAckedVersion = s.lastAckedVersion := by
  have hconnected : (if s.serverSynced then s.setStatus .connected else s).lastAckedVersion = s.lastAckedVersion := by
    split <;> rfl
  unfold sendMissingSince
  split
  · rfl
  split
  · exact sendPendingMutations_acked
  simp only
  split
  · exact hconnected
  split
  · rfl
  · split
    · exact hconnected
    · exact persistAndSendMutation_acked

theorem synchronizeWithServer_acked : (s.synchronizeWithServer E).lastAckedVersion = s.lastAckedVersion := by
  unfold synchronizeWithServer
  split
  · rfl
  split
  · exact sendPendingMutations_acked
  · split
    · exact sendMissingSince_acked
    · rfl

theorem importRemote_acked {bytes : Bytes} : (s.importRemote E bytes).lastAckedVersion = s.lastAckedVersion := by
  unfold importRemote
  split
  · rfl
  · split <;> rfl

theorem importFromTab_acked {message : TabMsg} : (s.importFromTab E message).lastAckedVersion = s.lastAckedVersion := by
  unfold importFromTab
  split
  · split
    · rfl
    · split
      · rfl
      · exact persistAndSendMutation_acked
  · split
    · rfl
    split
    · rfl
    · split
      · exact sendMissingSince_acked
      · rfl

theorem onDisconnect_acked {code : Option CloseCode} : (s.onDisconnect E code).lastAckedVersion = s.lastAckedVersion := by
  unfold onDisconnect
  simp only
  split
  · rfl
  split
  · split
    · exact enterTerminalRecovery_acked
    · rfl
  · rfl

theorem settled_acked {job : JournalJob} : (s.settled E job).lastAckedVersion = s.lastAckedVersion := by
  cases job with
  | append fallback mutation broadcastTab =>
    have hsend : ∀ s' : Session E,
        (if s'.serverSynced then s'.sendMutation mutation else s').lastAckedVersion = s'.lastAckedVersion := by
      intro s'
      split
      · exact sendMutation_acked
      · rfl
    simp only [settled]
    split
    · rfl
    · refine (hsend _).trans ?_
      split <;> rfl
  | checkpoint fallback => rfl
  | acknowledge fallback receipt =>
    simp only [settled]
    split
    · rfl
    · split
      · exact sendMissingSince_acked
      · split <;> rfl

def listening (s : Session E) : Bool := !s.stopped && s.socket == some true

def nextAcked (s : Session E) : ClientEvent E → Option Bytes
  | .message (.committed receipt) => if s.listening then some receipt.version else s.lastAckedVersion
  | .prune version =>
    if !s.storageFatal && (E.pruneHistoryThrough s.doc version).isSome then some version else s.lastAckedVersion
  | _ => s.lastAckedVersion

theorem message_acked {message : ServerMsg} (hs : s.socket = some true) :
    (s.onMessage E message).lastAckedVersion = s.nextAcked (.message message) := by
  unfold onMessage
  cases hstopped : s.stopped with
  | true =>
    rw [if_pos rfl]
    cases message with
    | committed receipt => simp [nextAcked, listening, hstopped]
    | _ => rfl
  | false =>
    rw [if_neg Bool.false_ne_true]
    cases message with
    | committed receipt =>
      simp only [handleCommitted, hstopped, Bool.false_eq_true, if_false]
      simp [nextAcked, listening, hstopped, hs, record, enqueue]
    | update bytes => exact importRemote_acked
    | snapshot bytes => exact importRemote_acked
    | serverVv version => rfl
    | synced => exact synchronizeWithServer_acked

theorem react_acked {e : ClientEvent E} : (s.react E e).lastAckedVersion = s.nextAcked e := by
  cases e with
  | message message =>
    simp only [react]
    split
    · rename_i hs
      exact message_acked hs
    rename_i hs
    cases message with
    | committed receipt => simp [nextAcked, listening, hs]
    | _ => rfl
  | prune version =>
    simp only [react, maybePrune, nextAcked]
    cases hfatal : s.storageFatal with
    | true => rfl
    | false =>
      simp only [Bool.false_eq_true, if_false, Bool.not_false, Bool.true_and]
      cases E.pruneHistoryThrough s.doc version with
      | none => rfl
      | some doc => exact checkpointJournal_acked
  | fetched bytes => exact importRemote_acked
  | checkpoint => exact checkpointJournal_acked
  | edit change =>
    simp only [react, Session.edit]
    split
    · rfl
    · split
      · rfl
      · exact persistAndSendMutation_acked
  | compact =>
    simp only [react, compactLocalHistory]
    split
    · rfl
    · split
      · exact checkpointJournal_acked
      · exact recordStorageError_acked
  | connect =>
    simp only [react, openSocket]
    split <;> rfl
  | disconnect code =>
    simp only [react]
    split
    · exact onDisconnect_acked
    · rfl
  | pageHide => exact checkpointJournal_acked
  | tab message => exact importFromTab_acked
  | _ => rfl

end

end Session

/-! ## What a journal keeps -/

def ReplicaJournalRecord.Advances (E : Esbt) (record later : ReplicaJournalRecord) : Prop :=
  record.committedRevision ≤ later.committedRevision ∧ E.Reaches later.ackedVersion record.ackedVersion

def ReplicaJournalRecord.Admits (E : Esbt) (record : ReplicaJournalRecord) (receipt : CommitReceipt) : Prop :=
  record.committedRevision ≤ receipt.revision ∧ E.Reaches (some receipt.version) record.ackedVersion

section
variable {E : Esbt} {s : Session E} {c : Client E} {record later : ReplicaJournalRecord} {job : JournalJob}

theorem Advances.refl : record.Advances E record := ⟨Nat.le_refl _, Reaches.refl⟩

theorem written_advances (h : s.written E (some record) job = some later) :
    record.Advances E later ↔ ∀ fallback receipt, job = .acknowledge fallback receipt → record.Admits E receipt := by
  cases job with
  | append fallback mutation broadcastTab =>
    have hsame : later.committedRevision = record.committedRevision ∧ later.ackedVersion = record.ackedVersion := by
      have happend : appendMutation record mutation = some later := h
      unfold appendMutation at happend
      split at happend
      · cases happend
        exact ⟨rfl, rfl⟩
      split at happend
      · split at happend
        · cases happend
        · cases happend
          exact ⟨rfl, rfl⟩
      · cases happend
        exact ⟨rfl, rfl⟩
    refine ⟨fun _ _ _ hjob => (by cases hjob), fun _ => ⟨Nat.le_of_eq hsame.1.symm, reaches_of_eq hsame.2⟩⟩
  | checkpoint fallback =>
    obtain ⟨snapshot, _, rfl⟩ := Option.map_eq_some_iff.mp h
    exact ⟨fun _ _ _ hjob => (by cases hjob), fun _ => Advances.refl⟩
  | acknowledge fallback receipt =>
    obtain ⟨snapshot, _, rfl⟩ := Option.map_eq_some_iff.mp h
    constructor
    · intro hadvances _ _ hjob
      cases hjob
      exact hadvances
    · exact fun hadmits => hadmits fallback receipt rfl

theorem client_acked (hs : c.page = some s) (e : ClientEvent E) {page : Session E} (h : (c.step E e).page = some page) :
    page.lastAckedVersion = s.nextAcked e := by
  have hreact : (c.onPage E fun s => s.react E e).page = some page → page.lastAckedVersion = s.nextAcked e := by
    intro h
    simp only [Client.onPage, hs] at h
    cases h
    exact Session.react_acked
  cases e with
  | opens site =>
    simp only [Client.step, Client.opens, hs] at h
    cases h
    rfl
  | persist storage =>
    simp only [Client.step, Client.persist, hs] at h
    split at h
    · rw [hs] at h
      cases h
      rfl
    split at h
    · cases h
      exact Session.recordStorageError_acked
    cases h
    simp only
    split
    · exact Session.settled_acked
    · exact Session.recordStorageError_acked
  | crash => cases h
  | commit mutation =>
    simp only [Client.step, Client.commit] at h
    split at h
    · cases (hs.symm.trans h)
      rfl
    · cases (hs.symm.trans h)
      rfl
  | others operations =>
    cases (hs.symm.trans h)
    rfl
  | fetched bytes => exact hreact h
  | checkpoint => exact hreact h
  | edit change => exact hreact h
  | prune version => exact hreact h
  | compact => exact hreact h
  | connect => exact hreact h
  | socketOpen => exact hreact h
  | socketClosing => exact hreact h
  | message message => exact hreact h
  | disconnect code => exact hreact h
  | offline => exact hreact h
  | pageHide => exact hreact h
  | tab message => exact hreact h

structure Session.KeepsAcked (s : Session E) (e : ClientEvent E) : Prop where
  receipt : ∀ receipt, e = .message (.committed receipt) → s.listening = true →
    E.Reaches (some receipt.version) s.lastAckedVersion
  pruned : ∀ version, e = .prune version → s.storageFatal = false → (E.pruneHistoryThrough s.doc version).isSome →
    E.Reaches (some version) s.lastAckedVersion

theorem nextAcked_reaches {e : ClientEvent E} (h : s.KeepsAcked e) : E.Reaches (s.nextAcked e) s.lastAckedVersion := by
  cases e with
  | message message =>
    cases message with
    | committed receipt =>
      simp only [Session.nextAcked]
      split
      · next hlistening => exact h.receipt receipt rfl hlistening
      · exact Reaches.refl
    | _ => exact Reaches.refl
  | prune version =>
    simp only [Session.nextAcked, Bool.and_eq_true, Bool.not_eq_true']
    split
    · next hprunes => exact h.pruned version rfl hprunes.1 hprunes.2
    · exact Reaches.refl
  | _ => exact Reaches.refl

theorem client_kept (hs : c.page = some s) (e : ClientEvent E) :
    (∀ last, (c.step E e).page = some last → E.Reaches last.lastAckedVersion s.lastAckedVersion) ↔ s.KeepsAcked e := by
  constructor
  · intro h
    constructor
    · rintro receipt rfl hlistening
      have hpage : (c.step E (.message (.committed receipt))).page =
          some { s.react E (.message (.committed receipt)) with out := [] } := by
        simp only [Client.step, Client.onPage, hs, Client.putPage]
      have hreaches := h _ hpage
      rw [client_acked hs _ hpage] at hreaches
      simpa only [Session.nextAcked, hlistening, if_true] using hreaches
    · rintro version rfl hfatal hprunes
      have hpage : (c.step E (.prune version)).page = some { s.react E (.prune version) with out := [] } := by
        simp only [Client.step, Client.onPage, hs, Client.putPage]
      have hreaches := h _ hpage
      rw [client_acked hs _ hpage] at hreaches
      simpa only [Session.nextAcked, hfatal, hprunes, Bool.not_false, Bool.true_and, if_true] using hreaches
  · intro h last hlast
    rw [client_acked hs e hlast]
    exact nextAcked_reaches h

def Session.acknowledges (s : Session E) (e : ClientEvent E) (receipt : CommitReceipt) : Prop :=
  ∃ storage fallback lane, e = .persist storage ∧ s.lane = .acknowledge fallback receipt :: lane ∧
    storage ≠ .failed ∧ (E.exportFullSnapshot s.doc).isSome

theorem client_stored (hs : c.page = some s) (e : ClientEvent E) (hj : c.journal = some record) :
    ∃ later, (c.step E e).journal = some later ∧
      (record.Advances E later ↔ ∀ receipt, s.acknowledges e receipt → record.Admits E receipt) := by
  have hother : (∀ storage, e ≠ .persist storage) → (c.step E e).journal = c.journal →
      ∃ later, (c.step E e).journal = some later ∧
        (record.Advances E later ↔ ∀ receipt, s.acknowledges e receipt → record.Admits E receipt) := by
    intro hne hsame
    refine ⟨record, hsame.trans hj, fun _ receipt h => ?_, fun _ => Advances.refl⟩
    obtain ⟨storage, _, _, he, _⟩ := h
    exact absurd he (hne storage)
  have hreact : (c.onPage E fun s => s.react E e).journal = c.journal := by simp only [Client.onPage, hs, Client.putPage]
  cases e with
  | persist storage =>
    cases hlane : s.lane with
    | nil =>
      refine ⟨record, by simp only [Client.step, Client.persist, hs, hlane, hj], fun _ receipt h => ?_,
        fun _ => Advances.refl⟩
      obtain ⟨_, _, _, _, hcons, _⟩ := h
      rw [hlane] at hcons
      cases hcons
    | cons job lane =>
      have hjournal : (c.step E (.persist storage)).journal =
          (if storage = .failed then none else { s with lane }.written E (some record) job).or (some record) := by
        simp only [Client.step, Client.persist, hs, hlane, hj]
        split
        · next hnone => rw [hnone]; exact hj
        · next stored hsome => rw [hsome]; rfl
      cases hwritten : if storage = .failed then none else { s with lane }.written E (some record) job with
      | none =>
        rw [hwritten] at hjournal
        refine ⟨record, hjournal, fun _ receipt h => ?_, fun _ => Advances.refl⟩
        obtain ⟨_, fallback, _, he, hcons, hok, hexport⟩ := h
        cases he
        rw [hlane] at hcons
        cases hcons
        rw [if_neg hok] at hwritten
        rw [Option.map_eq_none_iff.mp hwritten] at hexport
        cases hexport
      | some later =>
        rw [hwritten] at hjournal
        refine ⟨later, hjournal, ?_⟩
        split at hwritten
        · cases hwritten
        next hok =>
        refine (written_advances hwritten).trans ⟨fun h receipt hack => ?_, fun h fallback receipt hjob => ?_⟩
        · obtain ⟨_, fallback, _, _, hcons, _⟩ := hack
          rw [hlane] at hcons
          cases hcons
          exact h fallback receipt rfl
        · subst hjob
          have hexport : (E.exportFullSnapshot s.doc).isSome := by
            obtain ⟨snapshot, hsnapshot, _⟩ := Option.map_eq_some_iff.mp hwritten
            exact Option.isSome_iff_exists.mpr ⟨snapshot, hsnapshot⟩
          exact h receipt ⟨storage, fallback, lane, rfl, hlane, hok, hexport⟩
  | opens site =>
    refine hother (fun _ h => (by cases h)) ?_
    simp only [Client.step, Client.opens, hs]
  | crash => exact hother (fun _ h => (by cases h)) rfl
  | commit mutation =>
    refine hother (fun _ h => (by cases h)) ?_
    simp only [Client.step, Client.commit]
    split <;> rfl
  | others operations => exact hother (fun _ h => (by cases h)) rfl
  | _ => exact hother (fun _ h => (by cases h)) hreact

end

/-! ## Tabs -/

namespace Tabs

section
variable {E : Esbt} (w : Tabs E)

/-- A receipt says at least what is known where it is handled, and at least what the journal says when it is written
there; history is pruned no further back than what is known. -/
def InOrder : TabEvent E → Prop
  | .client t e =>
    match w.tabs[t]? with
    | some ⟨browser, .open page⟩ =>
      page.KeepsAcked e ∧
        ∀ record, w.journals browser = some record → ∀ receipt, page.acknowledges e receipt → record.Admits E receipt
    | _ => True
  | _ => True

/-- What is acknowledged, in the journals and at the pages that stay, is no less than it was. -/
structure Advances (w w' : Tabs E) : Prop where
  stored : ∀ browser record, w.journals browser = some record →
    ∃ later, w'.journals browser = some later ∧ record.Advances E later
  kept : ∀ t page later, w.pageAt t = some page → w'.pageAt t = some later →
    E.Reaches later.lastAckedVersion page.lastAckedVersion

end

section
variable {E : Esbt} {w w' w'' : Tabs E} {t : TabId} {browser : BrowserId} {page : Session E}

structure Stays (w w' : Tabs E) : Prop where
  closed : ∀ (t : TabId) browser, w.tabs[t]? = some ⟨browser, .closed⟩ → w'.tabs[t]? = some ⟨browser, .closed⟩
  opened : ∀ (t : TabId) browser page, w.tabs[t]? = some ⟨browser, .open page⟩ →
    w'.tabs[t]? = some ⟨browser, .closed⟩ ∨ ∃ later, w'.tabs[t]? = some ⟨browser, .open later⟩

theorem pageAt_some (h : w.pageAt t = some page) : ∃ browser, w.tabs[t]? = some ⟨browser, .open page⟩ := by
  obtain ⟨⟨browser, state⟩, htab, hstate⟩ := Option.bind_eq_some_iff.mp h
  cases state with
  | «open» page' =>
    cases hstate
    exact ⟨browser, htab⟩
  | admitting => cases hstate
  | closed => cases hstate

theorem Stays.refl : Stays w w := ⟨fun _ _ h => h, fun _ _ page h => Or.inr ⟨page, h⟩⟩

theorem Stays.trans (h : Stays w w') (h' : Stays w' w'') : Stays w w'' where
  closed := fun t browser hc => h'.closed t browser (h.closed t browser hc)
  opened := by
    intro t browser page hopen
    rcases h.opened t browser page hopen with hclosed | ⟨later, hlater⟩
    · exact Or.inl (h'.closed t browser hclosed)
    · exact h'.opened t browser later hlater

theorem Advances.refl : Advances w w where
  stored := fun _ record h => ⟨record, h, Marks.Advances.refl⟩
  kept := by
    intro t page later h h'
    cases h.symm.trans h'
    exact Reaches.refl

theorem Advances.trans (hs : Stays w w') (hs' : Stays w' w'') (h : Advances w w') (h' : Advances w' w'') :
    Advances w w'' where
  stored := by
    intro browser record hrecord
    obtain ⟨mid, hmid, hrev, hver⟩ := h.stored browser record hrecord
    obtain ⟨last, hlast, hrev', hver'⟩ := h'.stored browser mid hmid
    exact ⟨last, hlast, Nat.le_trans hrev hrev', Reaches.trans hver' hver⟩
  kept := by
    intro t page later hpage hlater
    obtain ⟨browser, htab⟩ := pageAt_some hpage
    rcases hs.opened t browser page htab with hclosed | ⟨mid, hmid⟩
    · have hgone := hs'.closed t browser hclosed
      simp only [pageAt, hgone, Option.bind_some, TabState.page] at hlater
      cases hlater
    · have hat : w'.pageAt t = some mid := by simp only [pageAt, hmid, Option.bind_some, TabState.page]
      exact Reaches.trans (h'.kept t mid later hat hlater) (h.kept t page mid hpage hat)

/-! ## One step -/

theorem stays_of_eq (h : w'.tabs = w.tabs) : Stays w w' where
  closed := fun _ _ hc => h ▸ hc
  opened := fun _ _ page ho => Or.inr ⟨page, h ▸ ho⟩

theorem stays_snoc {tab : Tab E} (h : w'.tabs = w.tabs ++ [tab]) : Stays w w' := by
  have hold : ∀ {t : TabId} {old : Tab E}, w.tabs[t]? = some old → w'.tabs[t]? = some old := by
    intro t old hold
    rw [h, List.getElem?_append_left (List.getElem?_eq_some_iff.mp hold).1, hold]
  exact ⟨fun _ _ hc => hold hc, fun _ _ page ho => Or.inr ⟨page, hold ho⟩⟩

theorem stays_setTab {old state : TabState E} (ht : w.tabs[t]? = some ⟨browser, old⟩) (hold : old ≠ .closed)
    (hstate : state = .closed ∨ ∃ later, state = .open later) (h : w'.tabs = w.tabs.set t ⟨browser, state⟩) :
    Stays w w' := by
  have hlt : t < w.tabs.length := (List.getElem?_eq_some_iff.mp ht).1
  have hset : ∀ t' : TabId, w'.tabs[t']? = if t = t' then some ⟨browser, state⟩ else w.tabs[t']? := by
    intro t'
    rw [h, List.getElem?_set, if_pos hlt]
  constructor
  · intro t' browser' hc
    rw [hset]
    split
    · next heq =>
      subst heq
      rw [ht] at hc
      cases hc
      exact absurd rfl hold
    · exact hc
  · intro t' browser' page' ho
    rw [hset]
    split
    · next heq =>
      subst heq
      rw [ht] at ho
      cases ho
      rcases hstate with rfl | ⟨later, rfl⟩
      · exact Or.inl rfl
      · exact Or.inr ⟨later, rfl⟩
    · exact Or.inr ⟨page', ho⟩

theorem step_stays (e : TabEvent E) : Stays w (step w e) := by
  cases e with
  | opens browser =>
    simp only [step, opens]
    split
    · exact stays_snoc rfl
    · exact stays_snoc rfl
  | admitted t caller ticket secretHash now =>
    simp only [step, admitted]
    split
    · next browser htab =>
      split
      · exact Stays.refl
      · split
        · next page hpage => exact stays_setTab htab (fun h => (by cases h)) (Or.inr ⟨page, rfl⟩) rfl
        · exact stays_of_eq rfl
    · next browser page htab =>
      split
      · exact Stays.refl
      · exact stays_setTab htab (fun h => (by cases h)) (Or.inr ⟨_, rfl⟩) rfl
    · exact Stays.refl
  | client t e =>
    simp only [step, client]
    split
    · next browser page htab =>
      refine stays_setTab htab (fun h => (by cases h)) ?_ rfl
      simp only [putClient]
      split
      · next later _ => exact Or.inr ⟨later, rfl⟩
      · exact Or.inl rfl
    · exact Stays.refl
  | claim scratchId principalId device now =>
    simp only [step]
    split
    · exact stays_of_eq rfl
    · exact Stays.refl
  | tables auth => exact stays_of_eq rfl

theorem opens_stored {site : SiteId} {record : ReplicaJournalRecord} {c : Client E} (hpage : c.page = none)
    (hj : c.journal = some record) :
    ∃ later, (c.opens E site).journal = some later ∧ record.Advances E later := by
  simp only [Client.opens, hpage, hj]
  split
  · exact ⟨record, hj, Marks.Advances.refl⟩
  · split
    · next snapshot _ => exact ⟨{ record with snapshot }, rfl, Marks.Advances.refl⟩
    · exact ⟨record, hj, Marks.Advances.refl⟩

theorem opens_advances : Advances w (w.opens browser) := by
  have hkept : ∀ {w' : Tabs E} {state : TabState E}, w'.tabs = w.tabs ++ [⟨browser, state⟩] →
      ∀ t page later, w.pageAt t = some page → w'.pageAt t = some later →
        E.Reaches later.lastAckedVersion page.lastAckedVersion := by
    intro w' state htabs t page later hpage hlater
    obtain ⟨browser', htab⟩ := pageAt_some hpage
    have hlt : t < w.tabs.length := (List.getElem?_eq_some_iff.mp htab).1
    rw [pageAt_snoc browser state htabs, if_neg (Nat.ne_of_lt hlt)] at hlater
    cases hpage.symm.trans hlater
    exact Reaches.refl
  unfold opens
  split
  · exact ⟨fun _ record h => ⟨record, h, Marks.Advances.refl⟩, hkept rfl⟩
  next stored hstored =>
  refine ⟨fun browser' record hrecord => ?_, hkept rfl⟩
  simp only [putClient]
  split
  · next heq =>
    subst heq
    exact opens_stored rfl hrecord
  · exact ⟨record, hrecord, Marks.Advances.refl⟩

theorem kept_setTab {state : TabState E} (ht : w.tabs[t]? = some ⟨browser, state⟩) {later : TabState E}
    (hlater : ∀ page last, state = .open page → later = .open last →
      E.Reaches last.lastAckedVersion page.lastAckedVersion) :
    ∀ t' page last, w.pageAt t' = some page → (w'.setTab t browser later).pageAt t' = some last → w'.tabs = w.tabs →
      E.Reaches last.lastAckedVersion page.lastAckedVersion := by
  intro t' page last hpage hlast htabs
  have hsame : ∀ t'', w'.pageAt t'' = w.pageAt t'' := fun t'' => by simp only [pageAt, htabs]
  rw [pageAt_setTab (htabs ▸ ht), hsame] at hlast
  split at hlast
  · next heq =>
    subst heq
    obtain ⟨browser', htab⟩ := pageAt_some hpage
    cases ht.symm.trans htab
    cases later with
    | «open» page' =>
      cases hlast
      exact hlater page last rfl rfl
    | admitting => cases hlast
    | closed => cases hlast
  · cases hpage.symm.trans hlast
    exact Reaches.refl

theorem admitted_advances {caller : Caller} {ticket : TicketId} {secretHash : Bytes} {now : Millis} :
    Advances w (w.admitted t caller ticket secretHash now) := by
  simp only [admitted]
  split
  · next browser htab =>
    split
    · exact Advances.refl
    split
    · refine ⟨fun _ record h => ⟨record, h, Marks.Advances.refl⟩, fun t' page last hpage hlast => ?_⟩
      exact kept_setTab htab (fun _ _ h => (by cases h)) t' page last hpage hlast rfl
    · exact ⟨fun _ record h => ⟨record, h, Marks.Advances.refl⟩, fun t' page later hpage hlater =>
        Advances.refl.kept t' page later hpage hlater⟩
  · next browser page htab =>
    split
    · exact Advances.refl
    refine ⟨fun _ record h => ⟨record, h, Marks.Advances.refl⟩, fun t' page' last hpage hlast => ?_⟩
    refine kept_setTab htab (fun _ _ h h' => ?_) t' page' last hpage hlast rfl
    cases h
    cases h'
    split
    · exact Reaches.refl
    · exact Reaches.refl
  · exact Advances.refl

theorem client_open {e : ClientEvent E} (htab : w.tabs[t]? = some ⟨browser, .open page⟩) :
    let stepped := (w.asClient browser (some page)).step E e
    (∀ b, (w.client t e).journals b = if b = browser then stepped.journal else w.journals b) ∧
      ∀ t', (w.client t e).pageAt t' = if t' = t then stepped.page else w.pageAt t' := by
  intro stepped
  have hput : (w.putClient browser stepped).2.page = stepped.page := putClient_page browser stepped
  have htab' : (w.putClient browser stepped).1.tabs[t]? = some ⟨browser, .open page⟩ := htab
  have hpage := pageAt_setTab htab' browser (w.putClient browser stepped).2
  simp only [client, htab]
  exact ⟨fun b => rfl, fun t' => (hpage t').trans (by rw [hput]; rfl)⟩

theorem client_advances {e : ClientEvent E} (htab : w.tabs[t]? = some ⟨browser, .open page⟩) :
    Advances w (w.client t e) ↔ page.KeepsAcked e ∧
      ∀ record, w.journals browser = some record → ∀ receipt, page.acknowledges e receipt → record.Admits E receipt := by
  obtain ⟨hjournals, hpages⟩ := client_open (e := e) htab
  have hat : w.pageAt t = some page := pageAt_open htab
  have hsame : page.KeepsAcked e ↔ Session.KeepsAcked { page with ids := w.ids } e :=
    ⟨fun h => ⟨h.receipt, h.pruned⟩, fun h => ⟨h.receipt, h.pruned⟩⟩
  have hstored := fun record (hrecord : w.journals browser = some record) =>
    client_stored (c := w.asClient browser (some page)) rfl e hrecord
  rw [hsame, ← client_kept (c := w.asClient browser (some page)) rfl e]
  constructor
  · intro h
    refine ⟨fun last hlast => h.kept t page last hat ?_, fun record hrecord => ?_⟩
    · rw [hpages, if_pos rfl, hlast]
    obtain ⟨later, hlater, hiff⟩ := hstored record hrecord
    obtain ⟨later', hlater', hadvances⟩ := h.stored browser record hrecord
    rw [hjournals, if_pos rfl, hlater] at hlater'
    cases hlater'
    exact hiff.mp hadvances
  · rintro ⟨hkept, hadmits⟩
    constructor
    · intro b record hrecord
      rw [hjournals]
      split
      · next heq =>
        subst heq
        obtain ⟨later, hlater, hiff⟩ := hstored record hrecord
        exact ⟨later, hlater, hiff.mpr (hadmits record hrecord)⟩
      · exact ⟨record, hrecord, Marks.Advances.refl⟩
    · intro t' page' last hpage hlast
      rw [hpages] at hlast
      split at hlast
      · next heq =>
        subst heq
        cases hat.symm.trans hpage
        exact hkept last hlast
      · cases hpage.symm.trans hlast
        exact Reaches.refl

theorem step_advances (e : TabEvent E) : Advances w (step w e) ↔ w.InOrder e := by
  cases e with
  | opens browser => exact ⟨fun _ => trivial, fun _ => opens_advances⟩
  | admitted t caller ticket secretHash now => exact ⟨fun _ => trivial, fun _ => admitted_advances⟩
  | client t e =>
    simp only [InOrder]
    split
    · next browser page htab => exact client_advances htab
    next hclosed =>
    have hstill : w.client t e = w := by
      unfold client
      split
      · next browser page htab => exact absurd htab (hclosed browser page)
      · rfl
    exact ⟨fun _ => trivial, fun _ => by rw [step, hstill]; exact Advances.refl⟩
  | claim scratchId principalId device now =>
    refine ⟨fun _ => trivial, fun _ => ?_⟩
    simp only [step]
    split
    · exact ⟨Advances.refl.stored, Advances.refl.kept⟩
    · exact Advances.refl
  | tables auth => exact ⟨fun _ => trivial, fun _ => ⟨Advances.refl.stored, Advances.refl.kept⟩⟩

/-! ## Runs -/

/-- Acknowledged progress is lost nowhere along a run exactly where every receipt comes in order. -/
theorem acked_progress_iff (auth : AuthorityTables) (events : List (TabEvent E)) :
    (∀ before between later, events = before ++ between ++ later →
      Advances (after auth before) (after auth (before ++ between))) ↔
        Transition.Along step InOrder (init auth) events := by
  constructor
  · intro h
    rw [Transition.along_iff_at]
    intro before e later hevents
    have hone := h before [e] later (hevents.trans (List.append_cons before e later))
    rw [after, after, Transition.run_snoc] at hone
    exact (step_advances e).mp hone
  · rintro h before between later rfl
    rw [List.append_assoc, Transition.along_append, Transition.along_append] at h
    have hsteps : Transition.Along step (fun w e => Stays w (step w e) ∧ Advances w (step w e)) (after auth before)
        between := Transition.along_mono (fun w e he => ⟨step_stays e, (step_advances e).mpr he⟩) h.2.1
    rw [after, after, Transition.run_append]
    exact (Transition.run_rel (R := fun w w' => Stays w w' ∧ Advances w w') (fun _ => ⟨Stays.refl, Advances.refl⟩)
      (fun h h' => ⟨h.1.trans h'.1, h.2.trans h.1 h'.1 h'.2⟩) hsteps).2

end

/-! ## A retry's receipt -/

def twoSent : List (TabEvent tape) :=
  writing 0 0 97 ++ [.client 0 .connect, .client 0 .socketOpen, .client 0 (.message .synced),
    .client 0 (.edit (98 : UInt8)), .client 0 (.persist .ok)]

def secondReceipt : CommitReceipt := ⟨1, 2, [2, 0, 2, 1]⟩

def firstReceipt : CommitReceipt := ⟨0, 1, [2, 0]⟩

def answered (receipt : CommitReceipt) : List (TabEvent tape) :=
  [.client 0 (.message (.committed receipt)), .client 0 (.persist .ok)]

def retried : List (TabEvent tape) := twoSent ++ answered secondReceipt ++ answered firstReceipt

theorem retry_regresses :
    ¬ ∀ before between later, retried = before ++ between ++ later →
      Advances (after ownedDocument.auth before) (after ownedDocument.auth (before ++ between)) := by
  intro h
  have hadvances := h (twoSent ++ answered secondReceipt) (answered firstReceipt) [] (List.append_nil _).symm
  have hbefore : ((after ownedDocument.auth (twoSent ++ answered secondReceipt)).journals 0).map
      (·.committedRevision) = some 2 := by decide +kernel
  have hbehind : ((after ownedDocument.auth (twoSent ++ answered secondReceipt ++ answered firstReceipt)).journals
      0).map (·.committedRevision) = some 1 := by decide +kernel
  obtain ⟨record, hrecord, hrevision⟩ := Option.map_eq_some_iff.mp hbefore
  obtain ⟨later, hlater, hadvance⟩ := hadvances.stored 0 record hrecord
  rw [hlater, Option.map_some, Option.some.injEq] at hbehind
  have hle := hadvance.1
  omega

end Tabs

end Marks
