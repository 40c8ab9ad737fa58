import Mathlib.Logic.Relation
import Marks.Session

/-! # What a page does at once

Whatever an event asks of a page, the page answers with a few kinds of small changes: it sends or mints a
mutation, takes bytes into its replica, queues work for its journal, or moves fields no journal sees.
Each operation of `Session` is such a sequence, so an invariant is checked against the small changes and
not against the operations. -/

namespace Marks

open Relation

structure Allowed (E : Esbt) where
  sends : JournalMutation → Prop
  mints : E.Doc → MutationKind → Bytes → Bool → Prop
  edits : E.Edit → Prop
  loads : Bytes → Prop
  acks : CommitReceipt → Prop
  retires : MutationId → Prop

namespace Session

variable {E : Esbt}

def mint (s : Session E) (kind : MutationKind) (bytes : Bytes) (byTyping : Bool) : Session E :=
  let mutation : JournalMutation := ⟨s.ids, kind, bytes⟩
  let s := { s with
    ids := s.ids + 1
    pendingMutations := s.pendingMutations ++ [mutation] }.record (.minted mutation byTyping)
  s.enqueue (.append s.emptyRecord mutation byTyping)

structure Quiet (s s' : Session E) : Prop where
  doc : s'.doc = s.doc
  site : s'.marksSiteId = s.marksSiteId
  pending : s'.pendingMutations = s.pendingMutations
  lane : s'.lane = s.lane
  ids : s'.ids = s.ids
  out : s'.out = s.out
  stopped : s.stopped = true → s'.stopped = true
  fatal : s.storageFatal = true → s'.storageFatal = true

inductive Atom (A : Allowed E) (s : Session E) : Session E → Prop
  | quiet {s'} (h : Quiet s s') : Atom A s s'
  | sent (m : JournalMutation) (ha : A.sends m) (hs : s.stopped = false) :
    Atom A s (s.record (.sent s.marksSiteId m))
  | shown (m : JournalMutation) : Atom A s (s.record (.broadcast m))
  | minted (kind : MutationKind) (bytes : Bytes) (byTyping : Bool) (ha : A.mints s.doc kind bytes byTyping)
    (hb : bytes ≠ []) (hs : s.stopped = false) : Atom A s (s.mint kind bytes byTyping)
  | edited (change : E.Edit) (ha : A.edits change) (doc : E.Doc) (bytes : Bytes)
    (h : E.edit s.doc change = some (doc, bytes)) (hs : s.stopped = false) : Atom A s { s with doc }
  | loaded (bytes : Bytes) (ha : A.loads bytes) (doc : E.Doc) (h : E.load s.doc bytes = some doc) :
    Atom A s { s with doc }
  | pruned (version : Bytes) (doc : E.Doc) (h : E.pruneHistoryThrough s.doc version = some doc) :
    Atom A s { s with doc }
  | checkpointed (hs : s.storageFatal = false) : Atom A s (s.enqueue (.checkpoint s.emptyRecord))
  | acked (receipt : CommitReceipt) (ha : A.acks receipt) (hs : s.stopped = false) :
    Atom A s ((s.record (.acknowledged receipt.id)).enqueue (.acknowledge s.emptyRecord receipt))
  | retired (id : MutationId) (ha : A.retires id) :
    Atom A s { s with pendingMutations := s.pendingMutations.filter fun mutation => mutation.id ≠ id }

def Steps (A : Allowed E) : Session E → Session E → Prop := ReflTransGen (Atom A)

variable {A : Allowed E} {s t u : Session E}

theorem Steps.refl : Steps A s s := ReflTransGen.refl

theorem Steps.trans (h : Steps A s t) (h' : Steps A t u) : Steps A s u := ReflTransGen.trans h h'

theorem Atom.steps (h : Atom A s t) : Steps A s t := ReflTransGen.single h

theorem Quiet.steps (h : Quiet s t) : Steps A s t := (Atom.quiet h).steps

theorem Steps.keeps {P : Session E → Prop} (hp : ∀ s t, Atom A s t → P s → P t) (h : Steps A s t) (hs : P s) :
    P t := by
  induction h with
  | refl => exact hs
  | tail _ h ih => exact hp _ _ h ih

/-! ## Quiet operations -/

theorem setStatus_quiet (status : ConnectionStatus) : Quiet s (s.setStatus status) :=
  ⟨rfl, rfl, rfl, rfl, rfl, rfl, id, id⟩

theorem recordStorageError_quiet : Quiet s s.recordStorageError := by
  unfold recordStorageError
  split
  · exact ⟨rfl, rfl, rfl, rfl, rfl, rfl, id, id⟩
  · exact ⟨rfl, rfl, rfl, rfl, rfl, rfl, fun _ => by simp only [stopped, Bool.or_true], fun _ => rfl⟩

theorem recordStorageError_fatal : s.recordStorageError.storageFatal = true := by
  unfold recordStorageError
  split
  · next h => exact h
  · rfl

theorem recordStorageError_stopped : s.recordStorageError.stopped = true := by
  simp only [stopped, recordStorageError_fatal, Bool.or_true]

theorem running_writes (h : s.stopped = false) : s.storageFatal = false := by
  simp only [stopped, Bool.or_eq_false_iff] at h
  exact h.2

theorem openSocket_quiet : Quiet s s.openSocket := by
  unfold openSocket
  split
  · exact ⟨rfl, rfl, rfl, rfl, rfl, rfl, id, id⟩
  · exact ⟨rfl, rfl, rfl, rfl, rfl, rfl, id, id⟩

/-! ## Sending and minting -/

theorem checkpointJournal_steps : Steps A s s.checkpointJournal := by
  unfold checkpointJournal
  split
  · exact Steps.refl
  · next h => exact (Atom.checkpointed (Bool.not_eq_true _ ▸ h)).steps

theorem enterTerminalRecovery_steps : Steps A s s.enterTerminalRecovery := by
  unfold enterTerminalRecovery
  split
  · exact Steps.refl
  refine Steps.trans (t := { s with
    destroyed := true
    serverSynced := false
    socket := none
    currentStatus := .offline }) (Quiet.steps ⟨rfl, rfl, rfl, rfl, rfl, rfl, fun _ => ?_, id⟩)
    checkpointJournal_steps
  simp only [stopped, Bool.true_or]

theorem canSend_running (h : s.canSend = true) : s.stopped = false := by
  simp only [canSend, Bool.and_eq_true, Bool.not_eq_true'] at h
  exact h.1.1

theorem sendMutation_steps {m : JournalMutation} (ha : A.sends m) : Steps A s (s.sendMutation m) := by
  unfold sendMutation
  split
  · next h => exact (Atom.sent m ha (canSend_running h)).steps
  · exact Steps.refl

theorem sendMutation_silent (h : s.canSend = false) (mutations : List JournalMutation) :
    mutations.foldl (fun s mutation => s.sendMutation mutation) s = s := by
  induction mutations with
  | nil => rfl
  | cons m mutations ih =>
    have hm : s.sendMutation m = s := by
      simp only [sendMutation, h, Bool.false_eq_true, if_false]
    rw [List.foldl_cons, hm]
    exact ih

theorem sendPendingMutations_steps (ha : s.canSend = true → ∀ m ∈ s.pendingMutations, A.sends m) :
    Steps A s s.sendPendingMutations := by
  unfold sendPendingMutations
  split
  · exact Steps.refl
  by_cases hs : s.canSend = true
  · exact Transition.foldl_rel (R := Steps A) (fun _ => Steps.refl) Steps.trans
      (fun _ m hm => sendMutation_steps (ha hs m hm)) s
  · rw [sendMutation_silent (Bool.not_eq_true _ ▸ hs)]
    exact Steps.refl

theorem persistAndSendMutation_eq {kind : MutationKind} {bytes : Bytes} {byTyping : Bool}
    (h : ¬(s.stopped = true ∨ bytes = [])) :
    s.persistAndSendMutation bytes kind byTyping =
      if s.serverSynced then (s.mint kind bytes byTyping).setStatus .saving else s.mint kind bytes byTyping := by
  unfold persistAndSendMutation
  rw [if_neg h]
  rcases s with ⟨_, _, _, _, _, _, _, _, _, _, synced, _, _, _, _⟩
  cases synced with
  | true => rfl
  | false => rfl

theorem persistAndSendMutation_steps {kind : MutationKind} {bytes : Bytes} {byTyping : Bool}
    (ha : A.mints s.doc kind bytes byTyping) :
    Steps A s (s.persistAndSendMutation bytes kind byTyping) := by
  by_cases h : s.stopped = true ∨ bytes = []
  · unfold persistAndSendMutation
    rw [if_pos h]
    exact Steps.refl
  rw [persistAndSendMutation_eq h]
  simp only [not_or, Bool.not_eq_true] at h
  have hmint : Steps A s (s.mint kind bytes byTyping) := (Atom.minted kind bytes byTyping ha h.2 h.1).steps
  split
  · exact hmint.trans (setStatus_quiet .saving).steps
  · exact hmint

def Cuts (A : Allowed E) (doc : E.Doc) (version : Bytes) : Prop :=
  ∀ kind bytes, exportReconnectPayload E doc version = some (kind, bytes) → A.mints doc kind bytes false

theorem connected_steps : Steps A s (if s.serverSynced then s.setStatus .connected else s) := by
  split
  · exact (setStatus_quiet .connected).steps
  · exact Steps.refl

theorem sendMissingSince_steps {version : Bytes}
    (hw : s.canSend = true → ∀ m ∈ s.pendingMutations, A.sends m)
    (hc : s.stopped = false → s.pendingMutations = [] → Cuts A s.doc version) :
    Steps A s (s.sendMissingSince E version) := by
  unfold sendMissingSince
  split
  · exact Steps.refl
  next hrun =>
  split
  · exact sendPendingMutations_steps hw
  next hnone =>
  simp only []
  split
  · exact connected_steps
  split
  · exact Steps.refl
  next kind bytes h =>
  split
  · exact connected_steps
  · exact persistAndSendMutation_steps
      (hc (Bool.not_eq_true _ ▸ hrun) (not_not.mp hnone) kind bytes h)

/-! ## When the pending list is walked, and where the replica is cut -/

def walks (s : Session E) : ClientEvent E → Bool
  | .message .synced => s.socket == some true && !s.stopped && !s.pendingMutations.isEmpty
  | .tab (.snapshot bytes) =>
    s.canSend && bytes ≠ [] && s.lastServerVV.isSome && (E.load s.doc bytes).isSome &&
      !s.pendingMutations.isEmpty
  | _ => false

def cut (s : Session E) : ClientEvent E → Option (E.Doc × Bytes)
  | .message .synced =>
    if s.socket == some true && !s.stopped && s.pendingMutations.isEmpty then
      s.lastServerVV.map fun version => (s.doc, version)
    else none
  | .tab (.snapshot bytes) =>
    if !s.stopped && bytes ≠ [] && s.pendingMutations.isEmpty then
      (E.load s.doc bytes).bind fun doc => s.lastServerVV.map fun version => (doc, version)
    else none
  | _ => none

theorem walks_running {e : ClientEvent E} (h : s.walks e = true) : s.stopped = false := by
  unfold walks at h
  split at h
  · simp only [Bool.and_eq_true, Bool.not_eq_true'] at h
    exact h.1.2
  · simp only [Bool.and_eq_true] at h
    exact canSend_running h.1.1.1.1
  · cases h

theorem synchronizeWithServer_steps (hw : s.pendingMutations ≠ [] → ∀ m ∈ s.pendingMutations, A.sends m)
    (hc : ∀ version, s.lastServerVV = some version → s.stopped = false → s.pendingMutations = [] →
      Cuts A s.doc version) :
    Steps A s (s.synchronizeWithServer E) := by
  unfold synchronizeWithServer
  split
  · exact Steps.refl
  split
  · next h =>
    refine Steps.trans (setStatus_quiet .saving).steps (sendPendingMutations_steps fun _ => ?_)
    exact hw h
  next h =>
  split
  · next version hv =>
    have hnone : s.pendingMutations = [] := not_not.mp h
    refine sendMissingSince_steps (fun _ m hm => ?_) (hc version hv)
    rw [hnone] at hm
    cases hm
  · exact (setStatus_quiet .connected).steps

theorem importRemote_steps {bytes : Bytes} (ha : A.loads bytes) : Steps A s (s.importRemote E bytes) := by
  unfold importRemote
  split
  · exact Steps.refl
  · split
    · next doc h => exact (Atom.loaded bytes ha doc h).steps
    · exact Steps.refl

theorem handleCommitted_steps {receipt : CommitReceipt} (ha : A.acks receipt) :
    Steps A s (s.handleCommitted E receipt) := by
  unfold handleCommitted
  split
  · exact Steps.refl
  next hrun =>
  · refine Steps.trans (t := { s with
      lastAckedVersion := some receipt.version
      lastServerVV := some receipt.version
      committedRevision := max s.committedRevision receipt.revision })
      (Quiet.steps ⟨rfl, rfl, rfl, rfl, rfl, rfl, id, id⟩) ?_
    exact (Atom.acked receipt ha (Bool.not_eq_true _ ▸ hrun)).steps

/-- What an event may ask of a page: `A` allows what it brings and what it would mint, and the walk of the
pending list it sets off. -/
structure Admits (A : Allowed E) (s : Session E) (e : ClientEvent E) : Prop where
  walk : s.walks e = true → ∀ m ∈ s.pendingMutations, A.sends m
  cut : ∀ doc version, s.cut e = some (doc, version) → Cuts A doc version
  edit : ∀ change, e = .edit change →
    A.edits change ∧ ∀ doc bytes, E.edit s.doc change = some (doc, bytes) → A.mints doc .update bytes true
  fetched : ∀ bytes, e = .fetched bytes → A.loads bytes
  update : ∀ bytes, e = .message (.update bytes) → A.loads bytes
  snapshot : ∀ bytes, e = .message (.snapshot bytes) → A.loads bytes
  committed : ∀ receipt, e = .message (.committed receipt) → A.acks receipt
  tabUpdate : ∀ bytes, e = .tab (.update bytes) →
    A.loads bytes ∧
      (s.stopped = false → ∀ doc, E.load s.doc bytes = some doc → A.mints doc .update bytes false)
  tabSnapshot : ∀ bytes, e = .tab (.snapshot bytes) → A.loads bytes

theorem edit_steps {change : E.Edit} (h : Admits A s (.edit change)) : Steps A s (s.edit E change) := by
  obtain ⟨ha, hm⟩ := h.edit change rfl
  unfold edit
  split
  · exact Steps.refl
  next hrun =>
  · split
    · exact Steps.refl
    next doc bytes hedit =>
    refine Steps.trans (Atom.edited change ha doc bytes hedit (Bool.not_eq_true _ ▸ hrun)).steps ?_
    refine Steps.trans (t := { s with doc, localSaved := false })
      (Quiet.steps ⟨rfl, rfl, rfl, rfl, rfl, rfl, id, id⟩) ?_
    exact persistAndSendMutation_steps (hm doc bytes hedit)

theorem importFromTab_steps {message : TabMsg} (h : Admits A s (.tab message)) :
    Steps A s (s.importFromTab E message) := by
  unfold importFromTab
  split
  · next bytes =>
    obtain ⟨ha, hm⟩ := h.tabUpdate bytes rfl
    split
    · exact Steps.refl
    next hrun =>
    simp only [not_or, Bool.not_eq_true] at hrun
    split
    · exact Steps.refl
    · next doc hdoc =>
      refine Steps.trans (Atom.loaded bytes ha doc hdoc).steps ?_
      exact persistAndSendMutation_steps (hm hrun.1 doc hdoc)
  · next bytes =>
    split
    · exact Steps.refl
    next hrun =>
    simp only [not_or, Bool.not_eq_true] at hrun
    split
    · exact Steps.refl
    next doc hdoc =>
    have hload : Steps A s { s with doc } := (Atom.loaded bytes (h.tabSnapshot bytes rfl) doc hdoc).steps
    split
    · next version hv =>
      refine hload.trans (sendMissingSince_steps (fun hsend m hm => ?_) fun _ hnone => ?_)
      · refine h.walk ?_ m hm
        have hne : s.pendingMutations ≠ [] := List.ne_nil_of_mem hm
        have hsend : s.canSend = true := hsend
        simp [walks, hsend, hrun.2, hv, hdoc, hne]
      · refine h.cut doc version ?_
        have hnil : s.pendingMutations = [] := hnone
        simp [Session.cut, hrun.1, hrun.2, hv, hdoc, hnil]
    · exact hload

theorem onMessage_steps {message : ServerMsg} (hopen : s.socket = some true)
    (h : Admits A s (.message message)) : Steps A s (s.onMessage E message) := by
  unfold onMessage
  split
  · exact Steps.refl
  next hrun =>
  have hrun : s.stopped = false := Bool.not_eq_true _ ▸ hrun
  cases message with
  | update bytes => exact importRemote_steps (h.update bytes rfl)
  | snapshot bytes => exact importRemote_steps (h.snapshot bytes rfl)
  | serverVv version => exact Quiet.steps ⟨rfl, rfl, rfl, rfl, rfl, rfl, id, id⟩
  | committed receipt => exact handleCommitted_steps (h.committed receipt rfl)
  | synced =>
    refine Steps.trans (t := { s with serverSynced := true })
      (Quiet.steps ⟨rfl, rfl, rfl, rfl, rfl, rfl, id, id⟩) ?_
    refine synchronizeWithServer_steps (fun hne => ?_) fun version hv _ hnone => ?_
    · refine h.walk ?_
      have hne : s.pendingMutations ≠ [] := hne
      simp [walks, hopen, hrun, hne]
    refine h.cut s.doc version ?_
    have hnil : s.pendingMutations = [] := hnone
    have hv : s.lastServerVV = some version := hv
    simp [Session.cut, hopen, hrun, hnil, hv]

theorem onDisconnect_steps {code : Option CloseCode} : Steps A s (s.onDisconnect E code) := by
  have hdrop : Steps A s { s with socket := none, serverSynced := false } :=
    Quiet.steps ⟨rfl, rfl, rfl, rfl, rfl, rfl, id, id⟩
  unfold onDisconnect
  simp only []
  split
  · exact hdrop
  split
  · split
    · exact hdrop.trans enterTerminalRecovery_steps
    · exact hdrop.trans (setStatus_quiet .offline).steps
  · exact hdrop.trans (setStatus_quiet .offline).steps

theorem maybePrune_steps {version : Bytes} : Steps A s (s.maybePrune E version) := by
  unfold maybePrune
  split
  · exact Steps.refl
  split
  · next doc h =>
    refine Steps.trans (Atom.pruned version doc h).steps ?_
    refine Steps.trans (t := { s with doc, lastAckedVersion := some version })
      (Quiet.steps ⟨rfl, rfl, rfl, rfl, rfl, rfl, id, id⟩) checkpointJournal_steps
  · exact Steps.refl

theorem compactLocalHistory_steps : Steps A s (s.compactLocalHistory E) := by
  unfold compactLocalHistory
  split
  · exact Steps.refl
  split
  · next doc h => exact (Atom.pruned (E.version s.doc) doc h).steps.trans checkpointJournal_steps
  · exact recordStorageError_quiet.steps

theorem react_steps {e : ClientEvent E} (h : Admits A s e) : Steps A s (s.react E e) := by
  cases e with
  | fetched bytes => exact importRemote_steps (h.fetched bytes rfl)
  | checkpoint => exact checkpointJournal_steps
  | edit change => exact edit_steps h
  | prune version => exact maybePrune_steps
  | compact => exact compactLocalHistory_steps
  | connect => exact openSocket_quiet.steps
  | socketOpen => exact Quiet.steps ⟨rfl, rfl, rfl, rfl, rfl, rfl, id, id⟩
  | socketClosing => exact Quiet.steps ⟨rfl, rfl, rfl, rfl, rfl, rfl, id, id⟩
  | message message =>
    simp only [react]
    split
    · next hopen => exact onMessage_steps hopen h
    · exact Steps.refl
  | disconnect code =>
    simp only [react]
    split
    · exact onDisconnect_steps
    · exact Steps.refl
  | offline => exact Quiet.steps ⟨rfl, rfl, rfl, rfl, rfl, rfl, id, id⟩
  | pageHide =>
    refine Steps.trans checkpointJournal_steps ?_
    exact Quiet.steps ⟨rfl, rfl, rfl, rfl, rfl, rfl, id, id⟩
  | tab message => exact importFromTab_steps h
  | opens site => exact Steps.refl
  | persist storage => exact Steps.refl
  | crash => exact Steps.refl
  | commit mutation => exact Steps.refl
  | others operations => exact Steps.refl

/-! ## A stored journal -/

theorem importPending_steps {mutation : JournalMutation} (ha : A.loads mutation.bytes) :
    Steps A s (Client.importPending E s mutation) := by
  unfold Client.importPending
  split
  · next doc h => exact (Atom.loaded mutation.bytes ha doc h).steps
  · exact recordStorageError_quiet.steps

theorem importPendings_steps {pending : List JournalMutation} (ha : ∀ m ∈ pending, A.loads m.bytes) :
    Steps A s (pending.foldl (Client.importPending E) s) :=
  Transition.foldl_rel (R := Steps A) (fun _ => Steps.refl) Steps.trans
    (fun _ m hm => importPending_steps (ha m hm)) s

/-! ## The continuation of a journal job -/

def settledCut (s : Session E) : JournalJob → Option (E.Doc × Bytes)
  | .acknowledge _ receipt =>
    if !s.stopped && (s.pendingMutations.filter fun mutation => mutation.id ≠ receipt.id).isEmpty then
      some (s.doc, receipt.version)
    else none
  | _ => none

theorem settled_steps {job : JournalJob}
    (happend : ∀ fallback mutation b, job = .append fallback mutation b → A.sends mutation)
    (hack : ∀ fallback receipt, job = .acknowledge fallback receipt → A.retires receipt.id)
    (hcut : ∀ doc version, s.settledCut job = some (doc, version) → Cuts A doc version) :
    Steps A s (s.settled E job) := by
  cases job with
  | checkpoint fallback => exact Quiet.steps ⟨rfl, rfl, rfl, rfl, rfl, rfl, id, id⟩
  | append fallback mutation byTyping =>
    have hsend := happend fallback mutation byTyping rfl
    refine Steps.trans (t := { s with localSaved := true })
      (Quiet.steps ⟨rfl, rfl, rfl, rfl, rfl, rfl, id, id⟩) ?_
    simp only [settled]
    split
    · exact Steps.refl
    generalize { s with localSaved := true } = saved
    have hshow : Steps A saved (if byTyping then saved.record (.broadcast mutation) else saved) := by
      split
      · exact (Atom.shown mutation).steps
      · exact Steps.refl
    refine hshow.trans ?_
    generalize (if byTyping then saved.record (.broadcast mutation) else saved) = shown
    split
    · exact sendMutation_steps hsend
    · exact Steps.refl
  | acknowledge fallback receipt =>
    refine Steps.trans (Atom.retired receipt.id (hack fallback receipt rfl)).steps ?_
    refine Steps.trans (t := { s with
      pendingMutations := s.pendingMutations.filter fun mutation => mutation.id ≠ receipt.id
      localSaved := true }) (Quiet.steps ⟨rfl, rfl, rfl, rfl, rfl, rfl, id, id⟩) ?_
    simp only [settled]
    split
    · exact Steps.refl
    next hrun =>
    split
    · next hnone =>
      refine sendMissingSince_steps (fun _ m hm => ?_) fun _ _ => ?_
      · rw [hnone] at hm
        cases hm
      · refine hcut s.doc receipt.version ?_
        have hrun : s.stopped = false := Bool.not_eq_true _ ▸ hrun
        simp only [settledCut, hnone, hrun, Bool.not_false, Bool.true_and, List.isEmpty_nil, if_true]
    · split
      · exact (setStatus_quiet .saving).steps
      · exact Steps.refl

end Session

end Marks
