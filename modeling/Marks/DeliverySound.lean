import Mathlib.Data.List.Perm.Basic
import Marks.AgentSound
import Marks.Lists

/-! # Tool results reach the call they name

An accepted result is placed in the slot of its call, taken by it and handed to the provider. While no result is
cut off on that way, what is in the slot, in hand and handed over is what was placed, each once. -/

namespace Marks.Agent

open RunState List

/-! ## The way of a result -/

def resultOf (body : ToolResultBody) : ProviderToolResult := ⟨body.status, body.output.serialize⟩

def RunLog.placed : RunLog → Option ToolResultBody
  | .submitted body (.ok false) _ => some body
  | .submitted body (.error .internal) _ => some body
  | _ => none

def RunLog.handedOver : RunLog → Option (Text × ProviderToolResult)
  | .handed call result => some (call.callId, result)
  | _ => none

def CallInFlight.taken (flight : CallInFlight) : Option (Text × ProviderToolResult) :=
  match flight.stage with
  | .taken result => some (flight.call.callId, result)
  | _ => none

def CallInFlight.holds (flight : CallInFlight) : Bool :=
  match flight.stage with
  | .claimed | .announcing | .waiting => true
  | .checked | .taken _ => false

def inSlot (pendingTool : Option PendingTool) : List (Text × ProviderToolResult) :=
  match pendingTool with
  | some ⟨callId, some result⟩ => [(callId, result)]
  | _ => []

section
variable (run : RunState)

def placements : List ToolResultBody := run.log.filterMap RunLog.placed

def handedOver : List (Text × ProviderToolResult) := run.log.filterMap RunLog.handedOver

def onTheWay : List (Text × ProviderToolResult) :=
  inSlot run.inner.pendingTool ++ run.calls.filterMap CallInFlight.taken

end

/-! ## The claim and its condition -/

/-- What is promised of the answers: an accepted result is on its way or handed over, once; what is handed over was
placed for that call; and a replay repeats a result that was delivered, with no call of that name left waiting. -/
structure Delivers (run : RunState) : Prop where
  accepted : ∀ body pending, .submitted body (.ok false) pending ∈ run.log →
    (onTheWay run ++ handedOver run).filter (fun delivered => delivered.1 == body.callId) =
      [(body.callId, resultOf body)]
  handed : run.calls = [] → ∀ body pending, .submitted body (.ok false) pending ∈ run.log →
    (handedOver run).filter (fun delivered => delivered.1 == body.callId) = [(body.callId, resultOf body)]
  owned : ∀ delivered ∈ inSlot run.inner.pendingTool, ∃ flight ∈ run.calls, flight.holds = true ∧
    flight.call.callId = delivered.1
  named : ∀ call result, .handed call result ∈ run.log → ∃ body ∈ placements run, body.callId = call.callId ∧
    result = resultOf body
  replayed : ∀ body pending, .submitted body (.ok true) pending ∈ run.log → body ∈ placements run ∧
    (body.callId, resultOf body) ∈ onTheWay run ++ handedOver run ∧ pending ≠ some ⟨body.callId, none⟩

section
variable (digest : ToolResultBody → List UInt8)

def Finalizes (run : RunState) (status : RunStatus) (code : Option Text) (usage : AgentUsage) : Prop :=
  run.inner.status.isTerminal = false ∧ (run.finalize status code usage).isSome = true

def Reopened (run : RunState) (body : ToolResultBody) : Prop :=
  run.inner.pendingTool = some ⟨body.callId, none⟩ ∧ run.receiptsOf body = [receiptOf digest body]

def Distinguished (run : RunState) (body : ToolResultBody) : Prop :=
  ∀ placed ∈ placements run, digest placed = digest body → placed = body

/-- No result is cut off: a call leaves, an announcement fails and a run is finalized only with no result on the way,
no result is accepted for a call that has left, and none is replayed to a repeated call. -/
def Careful (run : RunState) : RunEvent → Prop
  | .finish outcome => run.task = .running →
      Finalizes run (run.chosen outcome).1 (run.chosen outcome).2.1 (run.chosen outcome).2.2 → onTheWay run = []
  | .cancelFinalize => run.cancels ≠ 0 → Finalizes run .cancelled none .default → onTheWay run = []
  | .callNext i => ∀ flight, run.calls[i]? = some flight → flight.stage = .announcing →
      run.appendEvent .toolCall (callData flight.call flight.tool) = none → inSlot run.inner.pendingTool = []
  | .callLeave i => ∀ flight, run.calls[i]? = some flight → flight.stage = .waiting →
      inSlot run.inner.pendingTool = []
  | .submit body => validToolResult body = true → Distinguished digest run body ∧ ¬ Reopened digest run body ∧
      (run.inner.status = .waitingForTool → run.inner.pendingTool = some ⟨body.callId, none⟩ →
        run.receiptsOf body = [] → ∃ flight ∈ run.calls, flight.holds = true)
  | .lookup i => ∀ body, run.lookups[i]? = some body →
      Distinguished digest run body ∧ ¬ Reopened digest run body
  | _ => True

/-! ## The invariant -/

structure Delivery (run : RunState) : Prop where
  receipts : run.receipts = (placements run).reverse.map (receiptOf digest)
  distinct : ((placements run).map (·.callId)).Nodup
  travels : (onTheWay run ++ handedOver run).Perm ((placements run).map fun body => (body.callId, resultOf body))
  alone : run.inner.status.isTerminal = false → run.calls.countP CallInFlight.holds ≤ 1
  slotted : run.inner.status.isTerminal = false → ∀ flight ∈ run.calls, flight.holds = true →
    run.inner.pendingTool.map (·.callId) = some flight.call.callId
  owned : ∀ delivered ∈ inSlot run.inner.pendingTool, ∃ flight ∈ run.calls, flight.holds = true ∧
    flight.call.callId = delivered.1
  spent : run.inner.status.isTerminal = true → onTheWay run = []
  replayed : ∀ body pending, .submitted body (.ok true) pending ∈ run.log → body ∈ placements run ∧
    pending ≠ some ⟨body.callId, none⟩

end

section
variable {digest : ToolResultBody → List UInt8} {run later : RunState}

theorem Delivery.accepted (h : Delivery digest run) {body : ToolResultBody} {pending : Option PendingTool}
    (hm : .submitted body (.ok false) pending ∈ run.log) :
    (onTheWay run ++ handedOver run).filter (fun delivered => delivered.1 == body.callId) =
      [(body.callId, resultOf body)] := by
  have hp : body ∈ placements run := mem_filterMap.mpr ⟨_, hm, rfl⟩
  have hperm := h.travels.filter fun delivered => delivered.1 == body.callId
  rw [filter_map] at hperm
  have hone : (placements run).filter ((fun delivered : Text × ProviderToolResult => delivered.1 == body.callId) ∘
      fun body => (body.callId, resultOf body)) = [body] := Lists.filter_key h.distinct hp
  rw [hone, map_singleton] at hperm
  exact perm_singleton.mp hperm

theorem Delivery.delivers (h : Delivery digest run) : Delivers run where
  accepted _ _ hm := h.accepted hm
  handed := by
    intro hcalls body pending hm
    have hslot : inSlot run.inner.pendingTool = [] := by
      refine eq_nil_iff_forall_not_mem.mpr fun delivered hd => ?_
      obtain ⟨flight, hf, -⟩ := h.owned delivered hd
      rw [hcalls] at hf
      cases hf
    have haccepted := h.accepted hm
    unfold onTheWay at haccepted
    rw [hslot, hcalls] at haccepted
    exact haccepted
  owned := h.owned
  named := by
    intro call result hm
    have hh : (call.callId, result) ∈ handedOver run := mem_filterMap.mpr ⟨_, hm, rfl⟩
    obtain ⟨body, hb, heq⟩ := mem_map.mp (h.travels.subset (mem_append_right _ hh))
    exact ⟨body, hb, congrArg Prod.fst heq, (congrArg Prod.snd heq).symm⟩
  replayed := by
    intro body pending hm
    obtain ⟨hp, hpending⟩ := h.replayed body pending hm
    exact ⟨hp, h.travels.symm.subset (mem_map.mpr ⟨body, hp, rfl⟩), hpending⟩

/-! ## Sections that move no result -/

theorem Delivery.congr (h : Delivery digest run) (hs : later.inner.status.isTerminal = run.inner.status.isTerminal)
    (hp : later.inner.pendingTool = run.inner.pendingTool) (hc : later.calls = run.calls)
    (hr : later.receipts = run.receipts) (hl : later.log = run.log) : Delivery digest later := by
  have hplaced : placements later = placements run := congrArg (List.filterMap RunLog.placed) hl
  have hheld : onTheWay later = onTheWay run := by
    unfold onTheWay
    rw [hp, hc]
  have hhanded : handedOver later = handedOver run := congrArg (List.filterMap RunLog.handedOver) hl
  refine ⟨?_, ?_, ?_, ?_, ?_, ?_, ?_, ?_⟩
  · rw [hr, hplaced]
    exact h.receipts
  · rw [hplaced]
    exact h.distinct
  · rw [hplaced, hheld, hhanded]
    exact h.travels
  · rw [hs, hc]
    exact h.alone
  · rw [hs, hp, hc]
    exact h.slotted
  · rw [hp, hc]
    exact h.owned
  · rw [hs, hheld]
    exact h.spent
  · rw [hl, hplaced]
    exact h.replayed

theorem Delivery.log (h : Delivery digest run) {entry : RunLog} (hp : entry.placed = none) (hh : entry.handedOver = none)
    (hr : ∀ body pending, entry ≠ .submitted body (.ok true) pending) :
    Delivery digest { run with log := entry :: run.log } := by
  have hplaced : placements { run with log := entry :: run.log } = placements run := by
    unfold placements
    rw [filterMap_cons_none hp]
  have hhanded : handedOver { run with log := entry :: run.log } = handedOver run := by
    unfold handedOver
    rw [filterMap_cons_none hh]
  refine ⟨?_, ?_, ?_, h.alone, h.slotted, h.owned, h.spent, ?_⟩
  · rw [hplaced]
    exact h.receipts
  · rw [hplaced]
    exact h.distinct
  · rw [hplaced, hhanded]
    exact h.travels
  intro body pending hm
  rw [hplaced]
  rcases mem_cons.mp hm with hm | hm
  · exact absurd hm.symm (hr body pending)
  · exact h.replayed body pending hm

variable {status : RunStatus}

theorem Delivery.transition (h : Delivery digest run) (hs : status.isTerminal = false)
    (ht : run.transition status = some later) : Delivery digest later := by
  unfold RunState.transition at ht
  split at ht
  · cases ht
  · rename_i hgoing
    cases ht
    exact h.congr (hs.trans (Bool.not_eq_true _ ▸ hgoing).symm) rfl rfl rfl rfl

variable {data : Json}

theorem Delivery.appendEventLocked (h : Delivery digest run) {kind : EventKind}
    (ha : run.appendEventLocked kind data = some later) : Delivery digest later := by
  unfold RunState.appendEventLocked at ha
  split at ha
  · cases ha
    exact h.congr rfl rfl rfl rfl rfl
  · cases ha

theorem Delivery.appendEvent (h : Delivery digest run) {kind : EventKind}
    (ha : run.appendEvent kind data = some later) : Delivery digest later := by
  unfold RunState.appendEvent at ha
  split at ha
  · cases ha
  · exact h.appendEventLocked ha

variable {code : Option Text} {usage : AgentUsage}

theorem Delivery.finalize (h : Delivery digest run)
    (hc : Finalizes run status code usage → onTheWay run = []) (hf : run.finalize status code usage = some later) :
    Delivery digest later := by
  cases hs : run.inner.status.isTerminal with
  | true =>
    unfold RunState.finalize at hf
    rw [hs, if_pos rfl] at hf
    exact Option.some.inj hf ▸ h
  | false =>
    have hnone := hc ⟨hs, Option.isSome_of_eq_some hf⟩
    have hterminal := finalize_terminal hf
    obtain ⟨kind, data, -, -, rfl⟩ := finalize_cases hs hf
    have htaken : run.calls.filterMap CallInFlight.taken = [] := (append_eq_nil_iff.mp hnone).2
    refine ⟨h.receipts, h.distinct, ?_, fun hgoing => ?_, fun hgoing => ?_, (fun _ hm => by cases hm), fun _ => htaken,
      h.replayed⟩
    · have htravels := h.travels
      rw [hnone] at htravels
      show (inSlot none ++ run.calls.filterMap CallInFlight.taken ++ handedOver run).Perm _
      rw [htaken]
      exact htravels
    · rw [hterminal] at hgoing
      cases hgoing
    · rw [hterminal] at hgoing
      cases hgoing

theorem Delivery.settle (h : Delivery digest run)
    (hc : Finalizes run status code usage → onTheWay run = []) : Delivery digest (run.settle status code usage) := by
  unfold RunState.settle
  cases hf : run.finalize status code usage with
  | none => exact h.log rfl rfl fun _ _ heq => by cases heq
  | some settled => exact (h.finalize hc hf).log rfl rfl fun _ _ heq => by cases heq

/-! ## The task and its cancellation -/

theorem unstarted_quiet (hu : Unstarted run) (ht : run.task = .spawned ∨ run.task = .transitioned) :
    onTheWay run = [] := by
  obtain ⟨-, hc, hp, -⟩ := hu ht
  unfold onTheWay
  rw [hc, hp]
  rfl

section

variable (h : Delivery digest run)
include h

theorem Delivery.spawn (hu : Unstarted run) : Delivery digest run.spawn := by
  unfold RunState.spawn
  split
  · rename_i htask
    cases ht : run.transition .running with
    | some later => exact (h.transition rfl ht).congr rfl rfl rfl rfl rfl
    | none => exact (h.settle fun _ => unstarted_quiet hu (.inl htask)).congr rfl rfl rfl rfl rfl
  · exact h

theorem Delivery.start (hu : Unstarted run) : Delivery digest run.start := by
  unfold RunState.start
  split
  · rename_i htask
    cases ha : run.appendEvent .runStarted (startedData run.id run.documentId run.createdAtMs) with
    | some later => exact (h.appendEvent ha).congr rfl rfl rfl rfl rfl
    | none => exact (h.settle fun _ => unstarted_quiet hu (.inr htask)).congr rfl rfl rfl rfl rfl
  · exact h

theorem Delivery.finish {outcome : ProviderOutcome}
    (hc : Careful digest run (.finish outcome)) : Delivery digest (run.finish outcome) := by
  unfold RunState.finish
  split
  · rename_i htask
    have hr : Delivery digest { run with cancel := run.cancel || outcome == .timeout } := h.congr rfl rfl rfl rfl rfl
    refine Delivery.congr (hr.settle ?_) rfl rfl rfl rfl rfl
    rintro ⟨hs, hf⟩
    rw [finalize_isSome] at hf
    exact hc htask ⟨hs, finalize_isSome.trans hf⟩
  · exact h

theorem Delivery.cancelFinalize (hc : Careful digest run .cancelFinalize) :
    Delivery digest run.cancelFinalize := by
  unfold RunState.cancelFinalize
  split
  · exact h
  · rename_i hne
    exact (h.settle (hc hne)).congr rfl rfl rfl rfl rfl

theorem Delivery.cancelRequest : Delivery digest run.cancelRequest := by
  unfold RunState.cancelRequest
  split <;> exact h.congr rfl rfl rfl rfl rfl

theorem Delivery.emitText {text : Text} : Delivery digest (run.emitText text) := by
  unfold RunState.emitText
  split <;> exact h.congr rfl rfl rfl rfl rfl

end

variable {i : Nat}

theorem Delivery.emitNext (h : Delivery digest run) : Delivery digest (run.emitNext i) := by
  unfold RunState.emitNext
  split
  · exact h
  · rename_i text _
    cases ha : run.appendEvent .assistantDelta (deltaData text) with
    | some later => exact (h.appendEvent ha).congr rfl rfl rfl rfl rfl
    | none => exact h.congr rfl rfl rfl rfl rfl
  · exact h.congr rfl rfl rfl rfl rfl

/-! ## Tool calls -/

theorem Delivery.calls (h : Delivery digest run) {calls : List CallInFlight}
    (ht : calls.filterMap CallInFlight.taken = run.calls.filterMap CallInFlight.taken)
    (hcount : run.inner.status.isTerminal = false → calls.countP CallInFlight.holds ≤ 1)
    (hslot : run.inner.status.isTerminal = false → ∀ flight ∈ calls, flight.holds = true →
      run.inner.pendingTool.map (·.callId) = some flight.call.callId)
    (howned : ∀ delivered ∈ inSlot run.inner.pendingTool, ∃ flight ∈ calls, flight.holds = true ∧
      flight.call.callId = delivered.1) : Delivery digest { run with calls := calls } := by
  have hheld : onTheWay { run with calls := calls } = onTheWay run := congrArg (inSlot _ ++ ·) ht
  refine ⟨h.receipts, h.distinct, ?_, hcount, hslot, howned, ?_, h.replayed⟩
  · rw [hheld]
    exact h.travels
  · rw [hheld]
    exact h.spent

theorem Delivery.callTool (h : Delivery digest run) {call : ProviderToolCall} : Delivery digest (run.callTool call) := by
  unfold RunState.callTool
  split
  · exact h
  have hcounted : Delivery digest { run with toolCalls := run.toolCalls + 1 } := h.congr rfl rfl rfl rfl rfl
  simp only
  split
  · exact hcounted
  split
  · exact hcounted
  rename_i tool _
  split
  · exact hcounted
  refine hcounted.calls ?_ (fun hgoing => ?_) (fun hgoing flight hm hholds => ?_) fun delivered hm => ?_
  · rw [filterMap_append]
    exact append_nil _
  · rw [countP_append]
    exact h.alone hgoing
  · rcases mem_append.mp hm with hm | hm
    · exact h.slotted hgoing flight hm hholds
    · rw [mem_singleton.mp hm] at hholds
      cases hholds
  · obtain ⟨flight, hf, hholds⟩ := h.owned delivered hm
    exact ⟨flight, mem_append_left _ hf, hholds⟩

section
variable {flight : CallInFlight} {before after : List CallInFlight}

section

variable (h : Delivery digest run)
include h

section

variable (hl : run.calls = before ++ flight :: after)
include hl

theorem Delivery.stage {stage : CallStage}
    (ht : flight.taken = none) (hh : flight.holds = true) (ht' : CallInFlight.taken { flight with stage } = none)
    (hh' : CallInFlight.holds { flight with stage } = true) :
    Delivery digest { run with calls := before ++ { flight with stage } :: after } := by
  refine h.calls ?_ (fun hgoing => ?_) (fun hgoing other hm hholds => ?_) fun delivered hm => ?_
  · rw [hl, filterMap_append, filterMap_append, filterMap_cons_none ht, filterMap_cons_none ht']
  · have hcount := h.alone hgoing
    rw [hl, countP_append, countP_cons_of_pos hh] at hcount
    rw [countP_append, countP_cons_of_pos hh']
    exact hcount
  · rcases mem_append.mp hm with hm | hm
    · exact h.slotted hgoing other (hl ▸ mem_append_left _ hm) hholds
    · rcases mem_cons.mp hm with rfl | hm
      · exact h.slotted hgoing flight (hl ▸ mem_append_right _ mem_cons_self) hh
      · exact h.slotted hgoing other (hl ▸ mem_append_right _ (mem_cons_of_mem _ hm)) hholds
  · obtain ⟨other, ho, hholds, hid⟩ := h.owned delivered hm
    rw [hl] at ho
    rcases mem_append.mp ho with ho | ho
    · exact ⟨other, mem_append_left _ ho, hholds, hid⟩
    · rcases mem_cons.mp ho with rfl | ho
      · exact ⟨_, mem_append_right _ mem_cons_self, hh', hid⟩
      · exact ⟨other, mem_append_right _ (mem_cons_of_mem _ ho), hholds, hid⟩

theorem Delivery.leave
    (ht : flight.taken = none) (he : inSlot run.inner.pendingTool = [] ∨ flight.holds = false) :
    Delivery digest { run with calls := before ++ after } := by
  refine h.calls ?_ (fun hgoing => ?_) (fun hgoing other hm hholds => ?_) fun delivered hm => ?_
  · rw [hl, filterMap_append, filterMap_append, filterMap_cons_none ht]
  · have hcount := h.alone hgoing
    rw [hl, countP_append, countP_cons] at hcount
    rw [countP_append]
    omega
  · refine h.slotted hgoing other ?_ hholds
    rw [hl]
    rcases mem_append.mp hm with hm | hm
    · exact mem_append_left _ hm
    · exact mem_append_right _ (mem_cons_of_mem _ hm)
  · obtain ⟨other, ho, hholds, hid⟩ := h.owned delivered hm
    rw [hl] at ho
    rcases mem_append.mp ho with ho | ho
    · exact ⟨other, mem_append_left _ ho, hholds, hid⟩
    rcases mem_cons.mp ho with rfl | ho
    · rcases he with he | he
      · rw [he] at hm
        cases hm
      · rw [he] at hholds
        cases hholds
    · exact ⟨other, mem_append_right _ ho, hholds, hid⟩

theorem Delivery.claim
    (hs : flight.stage = .checked) (hp : run.inner.pendingTool = none) :
    Delivery digest { run.withPending (some ⟨flight.call.callId, none⟩) with
      calls := before ++ { flight with stage := .claimed } :: after } := by
  have ht : flight.taken = none := by
    unfold CallInFlight.taken
    rw [hs]
  have hfree : run.inner.status.isTerminal = false → ∀ other ∈ run.calls, ¬ other.holds = true := by
    intro hgoing other hm hholds
    have hslot := h.slotted hgoing other hm hholds
    rw [hp] at hslot
    cases hslot
  have hheld : onTheWay { run.withPending (some ⟨flight.call.callId, none⟩) with
      calls := before ++ { flight with stage := .claimed } :: after } = onTheWay run := by
    have hbefore : run.calls.filterMap CallInFlight.taken =
        before.filterMap CallInFlight.taken ++ after.filterMap CallInFlight.taken := by
      rw [hl, filterMap_append, filterMap_cons_none ht]
    unfold onTheWay
    rw [hp, hbefore, filterMap_append, filterMap_cons_none rfl]
    rfl
  refine ⟨h.receipts, h.distinct, ?_, fun hgoing => ?_, fun hgoing other hm hholds => ?_, (fun _ hm => by cases hm), ?_,
    h.replayed⟩
  · rw [hheld]
    exact h.travels
  · have hzero : run.calls.countP CallInFlight.holds = 0 := countP_eq_zero.mpr (hfree hgoing)
    rw [hl, countP_append, countP_cons] at hzero
    rw [countP_append, countP_cons_of_pos rfl]
    omega
  · rcases mem_append.mp hm with hm | hm
    · exact absurd hholds (hfree hgoing other (hl ▸ mem_append_left _ hm))
    · rcases mem_cons.mp hm with rfl | hm
      · rfl
      · exact absurd hholds (hfree hgoing other (hl ▸ mem_append_right _ (mem_cons_of_mem _ hm)))
  · rw [hheld]
    exact h.spent

theorem Delivery.others
    (hh : flight.holds = true) (hgoing : run.inner.status.isTerminal = false) :
    ∀ other ∈ before ++ after, ¬ other.holds = true := by
  have hcount := h.alone hgoing
  rw [hl, countP_append, countP_cons_of_pos hh] at hcount
  refine countP_eq_zero.mp ?_
  rw [countP_append]
  omega

theorem Delivery.abandon
    (ht : flight.taken = none) (hh : flight.holds = true) (he : inSlot run.inner.pendingTool = []) :
    Delivery digest { run.withPending none with calls := before ++ after } := by
  have hheld : onTheWay { run.withPending none with calls := before ++ after } = onTheWay run := by
    have hbefore : run.calls.filterMap CallInFlight.taken =
        before.filterMap CallInFlight.taken ++ after.filterMap CallInFlight.taken := by
      rw [hl, filterMap_append, filterMap_cons_none ht]
    unfold onTheWay
    rw [he, hbefore, filterMap_append]
    rfl
  refine ⟨h.receipts, h.distinct, ?_, fun hgoing => ?_, fun hgoing other hm hholds => ?_, (fun _ hm => by cases hm), ?_,
    h.replayed⟩
  · rw [hheld]
    exact h.travels
  · rw [countP_eq_zero.mpr (h.others hl hh hgoing)]
    exact Nat.zero_le _
  · exact absurd hholds (h.others hl hh hgoing other hm)
  · rw [hheld]
    exact h.spent

end

end

variable {result : ProviderToolResult}

theorem Delivery.take (h : Delivery digest run) (hl : run.calls = before ++ flight :: after)
    (hs : flight.stage = .waiting) {callId : Text}
    (hp : run.inner.pendingTool = some ⟨callId, some result⟩) :
    Delivery digest { run.withPending none with
      calls := before ++ { flight with stage := .taken result } :: after } := by
  have ht : flight.taken = none := by
    unfold CallInFlight.taken
    rw [hs]
  have hh : flight.holds = true := by
    unfold CallInFlight.holds
    rw [hs]
  have hgoing : run.inner.status.isTerminal = false := by
    cases hterminal : run.inner.status.isTerminal with
    | false => rfl
    | true =>
      have hnone := h.spent hterminal
      unfold onTheWay at hnone
      rw [hp] at hnone
      cases hnone
  have hown : callId = flight.call.callId := by
    have hslot := h.slotted hgoing flight (hl ▸ mem_append_right _ mem_cons_self) hh
    rw [hp] at hslot
    exact Option.some.inj hslot
  have hheld : (onTheWay { run.withPending none with
      calls := before ++ { flight with stage := .taken result } :: after }).Perm (onTheWay run) := by
    have hbefore : run.calls.filterMap CallInFlight.taken =
        before.filterMap CallInFlight.taken ++ after.filterMap CallInFlight.taken := by
      rw [hl, filterMap_append, filterMap_cons_none ht]
    have hnew : CallInFlight.taken { flight with stage := .taken result } = some (flight.call.callId, result) := rfl
    unfold onTheWay
    rw [hp, hbefore, hown, filterMap_append, filterMap_cons_some hnew]
    exact perm_middle
  refine ⟨h.receipts, h.distinct, (hheld.append_right _).trans h.travels, fun _ => ?_, fun _ other hm hholds => ?_,
    (fun _ hm => by cases hm), fun hterminal => ?_, h.replayed⟩
  · rw [countP_append, countP_cons_of_neg Bool.false_ne_true, ← countP_append,
      countP_eq_zero.mpr (h.others hl hh hgoing)]
    exact Nat.zero_le _
  · rcases mem_append.mp hm with hm | hm
    · exact absurd hholds (h.others hl hh hgoing other (mem_append_left _ hm))
    · rcases mem_cons.mp hm with rfl | hm
      · cases hholds
      · exact absurd hholds (h.others hl hh hgoing other (mem_append_right _ hm))
  · rw [show run.inner.status.isTerminal = true from hterminal] at hgoing
    cases hgoing

theorem Delivery.hand (h : Delivery digest run) (hl : run.calls = before ++ flight :: after)
    (hs : flight.stage = .taken result) (hgoing : run.inner.status.isTerminal = false) :
    Delivery digest { run with calls := before ++ after, log := .handed flight.call result :: run.log } := by
  have ht : flight.taken = some (flight.call.callId, result) := by
    unfold CallInFlight.taken
    rw [hs]
  have hh : flight.holds = false := by
    unfold CallInFlight.holds
    rw [hs]
  have hcalls : before ++ after ⊆ run.calls := by
    rw [hl]
    exact append_subset.mpr ⟨subset_append_left _ _,
      List.Subset.trans (subset_cons_self _ _) (subset_append_right _ _)⟩
  refine ⟨h.receipts, h.distinct, ?_, fun hgoing => ?_, fun hgoing other hm => h.slotted hgoing other (hcalls hm),
    fun delivered hm => ?_, fun hterminal => ?_, fun body pending hm => ?_⟩
  · refine List.Perm.trans ?_ h.travels
    have hbefore : run.calls.filterMap CallInFlight.taken =
        before.filterMap CallInFlight.taken ++ (flight.call.callId, result) :: after.filterMap CallInFlight.taken := by
      rw [hl, filterMap_append, filterMap_cons_some ht]
    have hlog : RunLog.handedOver (.handed flight.call result) = some (flight.call.callId, result) := rfl
    unfold onTheWay handedOver
    show (inSlot run.inner.pendingTool ++ List.filterMap CallInFlight.taken (before ++ after) ++
      List.filterMap RunLog.handedOver (.handed flight.call result :: run.log)).Perm _
    rw [hbefore, filterMap_append, filterMap_cons_some hlog, append_assoc, append_assoc,
      append_assoc, append_assoc]
    exact List.Perm.append_left _ (List.Perm.append_left _ perm_middle)
  · have hcount := h.alone hgoing
    rw [hl, countP_append, countP_cons, hh] at hcount
    rw [countP_append]
    exact hcount
  · obtain ⟨other, ho, hholds, hid⟩ := h.owned delivered hm
    rw [hl] at ho
    rcases mem_append.mp ho with ho | ho
    · exact ⟨other, mem_append_left _ ho, hholds, hid⟩
    rcases mem_cons.mp ho with rfl | ho
    · rw [hh] at hholds
      cases hholds
    · exact ⟨other, mem_append_right _ ho, hholds, hid⟩
  · rw [show run.inner.status.isTerminal = true from hterminal] at hgoing
    cases hgoing
  · rcases mem_cons.mp hm with hm | hm
    · cases hm
    · exact h.replayed body pending hm

end

theorem Delivery.callNext (h : Delivery digest run) (hc : Careful digest run (.callNext i)) :
    Delivery digest (run.callNext i) := by
  unfold RunState.callNext
  cases hi : run.calls[i]? with
  | none => exact h
  | some flight =>
    obtain ⟨before, after, hl, he, hset⟩ := Lists.getElem?_parts hi
    simp only [setStage, dropCall]
    split
    · rename_i hs
      have ht : flight.taken = none := by
        unfold CallInFlight.taken
        rw [hs]
      have hh : flight.holds = false := by
        unfold CallInFlight.holds
        rw [hs]
      cases hp : run.inner.pendingTool with
      | none =>
        rw [if_neg (show ¬ (none : Option PendingTool).isSome = true from Bool.false_ne_true)]
        show Delivery digest { run.withPending _ with calls := run.calls.set i _ }
        rw [hset]
        exact h.claim hl hs hp
      | some pending =>
        rw [if_pos (show (some pending).isSome = true from rfl), he]
        exact h.leave hl ht (.inr hh)
    · rename_i hs
      have ht : flight.taken = none := by
        unfold CallInFlight.taken
        rw [hs]
      have hh : flight.holds = true := by
        unfold CallInFlight.holds
        rw [hs]
      cases htr : run.transition .waitingForTool with
      | some later =>
        have hcalls : later.calls = run.calls := by
          unfold RunState.transition at htr
          split at htr <;> cases htr
          rfl
        show Delivery digest { later with calls := later.calls.set i _ }
        rw [hcalls, hset]
        exact (h.transition rfl htr).stage (hcalls.trans hl) ht hh rfl rfl
      | none =>
        rw [he]
        refine h.leave hl ht (.inl ?_)
        unfold RunState.transition at htr
        split at htr
        · rename_i hterminal
          exact (append_eq_nil_iff.mp (h.spent hterminal)).1
        · cases htr
    · rename_i hs
      have ht : flight.taken = none := by
        unfold CallInFlight.taken
        rw [hs]
      have hh : flight.holds = true := by
        unfold CallInFlight.holds
        rw [hs]
      cases ha : run.appendEvent .toolCall (callData flight.call flight.tool) with
      | some later =>
        have hcalls : later.calls = run.calls := by
          unfold RunState.appendEvent RunState.appendEventLocked at ha
          split at ha
          · cases ha
          · split at ha <;> cases ha
            rfl
        show Delivery digest { later with calls := later.calls.set i _ }
        rw [hcalls, hset]
        exact (h.appendEvent ha).stage (hcalls.trans hl) ht hh rfl rfl
      | none =>
        show Delivery digest { run.withPending none with calls := run.calls.eraseIdx i }
        rw [he]
        exact h.abandon hl ht hh (hc flight hi hs ha)
    · rename_i hs
      cases hp : run.inner.pendingTool with
      | none => exact h
      | some pending =>
        obtain ⟨callId, result⟩ := pending
        cases result with
        | none => exact h
        | some result =>
          show Delivery digest { run.withPending none with calls := run.calls.set i _ }
          rw [hset]
          exact h.take hl hs hp
    · rename_i result hs
      have hgoing : run.inner.status.isTerminal = false := by
        cases hterminal : run.inner.status.isTerminal with
        | false => rfl
        | true =>
          have hnone := (append_eq_nil_iff.mp (h.spent hterminal)).2
          rw [hl, filterMap_append, append_eq_nil_iff] at hnone
          have ht : flight.taken = some (flight.call.callId, result) := by
            unfold CallInFlight.taken
            rw [hs]
          rw [filterMap_cons_some ht] at hnone
          cases hnone.2
      cases htr : run.transition .running with
      | some later =>
        have hlater : later = { run with
            inner := { run.inner with status := .running }, stored := { run.stored with status := .running } } := by
          unfold RunState.transition at htr
          rw [hgoing, if_neg Bool.false_ne_true] at htr
          exact (Option.some.inj htr).symm
        subst hlater
        show Delivery digest { { run with
            inner := { run.inner with status := .running }, stored := { run.stored with status := .running } } with
          calls := run.calls.eraseIdx i, log := .handed flight.call result :: run.log }
        rw [he]
        exact (h.transition rfl htr).hand hl hs rfl
      | none =>
        unfold RunState.transition at htr
        rw [hgoing, if_neg Bool.false_ne_true] at htr
        cases htr

theorem Delivery.callLeave (h : Delivery digest run) (hc : Careful digest run (.callLeave i)) :
    Delivery digest (run.callLeave i) := by
  unfold RunState.callLeave
  cases hi : run.calls[i]? with
  | none => exact h
  | some flight =>
    obtain ⟨before, after, hl, he, -⟩ := Lists.getElem?_parts hi
    simp only [dropCall]
    split
    · rename_i hs
      have ht : flight.taken = none := by
        unfold CallInFlight.taken
        rw [hs]
      rw [he]
      exact h.leave hl ht (.inl (hc flight hi hs))
    · exact h

/-! ## Submissions -/

variable {body : ToolResultBody}

theorem mem_receiptsOf {receipt : ToolReceipt} :
    receipt ∈ run.receiptsOf body ↔ receipt ∈ run.receipts ∧
      (receipt.callId = body.callId ∨ receipt.requestId = body.requestId) := by
  unfold receiptsOf
  rw [mem_filter, Bool.or_eq_true, beq_iff_eq, beq_iff_eq]

section

variable (h : Delivery digest run)
include h

theorem Delivery.mem_receipts {receipt : ToolReceipt} :
    receipt ∈ run.receipts ↔ ∃ placed ∈ placements run, receiptOf digest placed = receipt := by
  rw [h.receipts, mem_map]
  simp only [mem_reverse]

theorem Delivery.placed (hgoing : run.inner.status.isTerminal = false)
    (hp : run.inner.pendingTool = some ⟨body.callId, none⟩) (hr : run.receiptsOf body = [])
    (hown : ∃ flight ∈ run.calls, flight.holds = true) {answer : Except AgentError Bool}
    (ha : answer = .ok false ∨ answer = .error .internal) :
    Delivery digest ((run.place digest body).answer body answer) := by
  have hplaced : placements ((run.place digest body).answer body answer) = body :: placements run := by
    rcases ha with rfl | rfl <;> rfl
  have hhanded : handedOver ((run.place digest body).answer body answer) = handedOver run := rfl
  have hheld : onTheWay ((run.place digest body).answer body answer) =
      (body.callId, resultOf body) :: onTheWay run := by
    unfold onTheWay
    rw [hp]
    rfl
  refine ⟨?_, ?_, ?_, h.alone, fun hg flight hm hholds => ?_, fun delivered hm => ?_, fun hterminal => ?_,
    fun other pending hm => ?_⟩
  · rw [hplaced, reverse_cons, map_append, ← h.receipts]
    rfl
  · rw [hplaced, map_cons, nodup_cons]
    refine ⟨fun hm => ?_, h.distinct⟩
    obtain ⟨placed, hb, heq⟩ := mem_map.mp hm
    have hmem : receiptOf digest placed ∈ run.receiptsOf body :=
      mem_receiptsOf.mpr ⟨h.mem_receipts.mpr ⟨placed, hb, rfl⟩, .inl heq⟩
    rw [hr] at hmem
    cases hmem
  · rw [hplaced, hhanded, hheld, map_cons, cons_append]
    exact h.travels.cons _
  · have hslot := h.slotted hgoing flight hm hholds
    rw [hp] at hslot
    exact hslot
  · obtain ⟨flight, hf, hholds⟩ := hown
    have hslot := h.slotted hgoing flight hf hholds
    rw [hp] at hslot
    rw [mem_singleton.mp hm]
    exact ⟨flight, hf, hholds, (Option.some.inj hslot).symm⟩
  · rw [show run.inner.status.isTerminal = true from hterminal] at hgoing
    cases hgoing
  · rw [hplaced]
    rcases mem_cons.mp hm with hm | hm
    · rcases ha with rfl | rfl <;> cases hm
    · obtain ⟨hb, hpending⟩ := h.replayed other pending hm
      exact ⟨mem_cons_of_mem _ hb, hpending⟩

theorem Delivery.accept (hgoing : run.inner.status.isTerminal = false)
    (hp : run.inner.pendingTool = some ⟨body.callId, none⟩) (hr : run.receiptsOf body = [])
    (hown : ∃ flight ∈ run.calls, flight.holds = true) : Delivery digest (run.accept digest body) := by
  unfold RunState.accept
  split
  · rename_i accepted ha
    unfold RunState.appendEventLocked at ha
    split at ha <;> cases ha
    exact (h.placed hgoing hp hr hown (.inl rfl)).congr rfl rfl rfl rfl rfl
  · exact h.placed hgoing hp hr hown (.inr rfl)

theorem Delivery.refuse {error : AgentError} (he : error ≠ .internal) :
    Delivery digest (run.answer body (.error error)) := by
  refine h.log ?_ rfl fun _ _ heq => by cases heq
  cases error with
  | internal => exact absurd rfl he
  | badRequest => rfl
  | conflict => rfl

theorem Delivery.replay (hd : Distinguished digest run body)
    (hr : run.receiptsOf body = [receiptOf digest body]) (hopen : ¬ Reopened digest run body) :
    Delivery digest (run.answer body (.ok true)) := by
  have hplaced : body ∈ placements run := by
    have hm : receiptOf digest body ∈ run.receiptsOf body := hr ▸ mem_singleton_self _
    obtain ⟨placed, hb, heq⟩ := h.mem_receipts.mp (mem_receiptsOf.mp hm).1
    rw [← hd placed hb (congrArg ToolReceipt.requestHash heq)]
    exact hb
  refine ⟨h.receipts, h.distinct, h.travels, h.alone, h.slotted, h.owned, h.spent, fun other pending hm => ?_⟩
  rcases mem_cons.mp hm with hm | hm
  · cases hm
    exact ⟨hplaced, fun hpending => hopen ⟨hpending, hr⟩⟩
  · exact h.replayed other pending hm

theorem Delivery.answerReceipt (hd : Distinguished digest run body)
    (hopen : ¬ Reopened digest run body) : Delivery digest (run.answerReceipt digest body) := by
  unfold RunState.answerReceipt
  split
  · rename_i error he
    unfold lookupToolReceipt at he
    split at he
    · cases he
    · split at he <;> cases he
      exact h.refuse fun hi => by cases hi
  · exact h.refuse fun hi => by cases hi
  · rename_i replayed he
    unfold lookupToolReceipt at he
    split at he
    · cases he
    rename_i hr
    split at he
    · rename_i hr
      cases he
      exact h.replay hd hr hopen
    · cases he

theorem Delivery.submitToolResult
    (hc : Careful digest run (.submit body)) : Delivery digest (run.submitToolResult digest body) := by
  unfold RunState.submitToolResult
  split
  · exact h.refuse fun hi => by cases hi
  rename_i hvalid
  obtain ⟨hd, hopen, hown⟩ := hc (by simpa using hvalid)
  split
  · exact h.answerReceipt hd hopen
  rename_i hw
  have hwaiting := Decidable.not_not.mp hw
  split
  · exact h.answerReceipt hd hopen
  rename_i pending hp
  split
  · exact h.refuse fun hi => by cases hi
  rename_i hid
  split
  · exact h.congr rfl rfl rfl rfl rfl
  rename_i hnone
  have hslot : run.inner.pendingTool = some ⟨body.callId, none⟩ := by
    obtain ⟨callId, result⟩ := pending
    have hempty : result = none := Option.not_isSome_iff_eq_none.mp hnone
    rw [hp, ← Decidable.not_not.mp hid, hempty]
  split
  · rename_i hr
    refine h.accept ?_ hslot hr (hown hwaiting hslot hr)
    rw [hwaiting]
    rfl
  · split
    · rename_i hr
      exact h.replay hd hr hopen
    · exact h.refuse fun hi => by cases hi

theorem Delivery.lookup (hc : Careful digest run (.lookup i)) :
    Delivery digest (run.lookup digest i) := by
  unfold RunState.lookup
  cases hi : run.lookups[i]? with
  | none => exact h
  | some body => exact (h.answerReceipt (hc body hi).1 (hc body hi).2).congr rfl rfl rfl rfl rfl

/-! ## Whole runs -/

theorem Delivery.step (hu : Unstarted run) {event : RunEvent}
    (hc : Careful digest run event) : Delivery digest (run.step digest event) := by
  cases event with
  | spawn => exact h.spawn hu
  | start => exact h.start hu
  | finish => exact h.finish hc
  | emitText => exact h.emitText
  | emitNext => exact h.emitNext
  | callTool => exact h.callTool
  | callNext => exact h.callNext hc
  | callLeave => exact h.callLeave hc
  | submit => exact h.submitToolResult hc
  | lookup => exact h.lookup hc
  | cancelRequest => exact h.cancelRequest
  | cancelFinalize => exact h.cancelFinalize hc

end

theorem delivery_new (id documentId : Text) (createdAtMs : Nat) (tools : List AgentTool) :
    Delivery digest (new id documentId createdAtMs tools) where
  receipts := rfl
  distinct := nodup_nil
  travels := List.Perm.nil
  alone _ := Nat.zero_le _
  slotted _ _ hm := by cases hm
  owned _ hm := by cases hm
  spent _ := rfl
  replayed _ _ hm := by cases hm

end

/-- In a run that cuts no result off, an accepted result is on its way to its call or was handed over, once; what is
handed over was submitted for that call; and a replay repeats a delivered original. -/
theorem tool_results_delivered (digest : ToolResultBody → List UInt8) (id documentId : Text)
    (createdAtMs : Nat) (tools : List AgentTool) (events : List RunEvent)
    (hc : Transition.Along (step digest) (Careful digest) (new id documentId createdAtMs tools) events) :
    Delivers (Transition.run (step digest) (new id documentId createdAtMs tools) events) :=
  (Transition.run_inv (I := fun run => Delivery digest run ∧ Unstarted run)
    (fun _ event h hc => ⟨h.1.step h.2 hc, h.2.step event⟩)
    ⟨delivery_new id documentId createdAtMs tools, (runEnds_new id documentId createdAtMs tools).2⟩ hc).1.delivers

def quickTool : AgentTool := ⟨"c".toList, "t".toList, .read, .ephemeral⟩

def quickCall : ProviderToolCall := ⟨"k".toList, "t".toList, .object []⟩

def quickResult : ToolResultBody := ⟨"r".toList, "k".toList, .succeeded, .object []⟩

def quickDigest (body : ToolResultBody) : List UInt8 :=
  (body.requestId ++ body.callId ++ body.output.serialize).map fun c => UInt8.ofNat c.toNat

def lateResult : List RunEvent :=
  [.spawn, .start, .callTool quickCall, .callNext 0, .callNext 0, .callNext 0, .callLeave 0, .submit quickResult,
    .finish (.error "toolTimeout".toList)]

def RunLog.isAccepted : RunLog → Bool
  | .submitted _ (.ok false) _ => true
  | _ => false

/-- The late result is accepted, and no call is ever given it. -/
theorem lateResult_lost : ¬ Delivers (Transition.run (step quickDigest) (new [] [] 0 [quickTool]) lateResult) := by
  intro h
  have haccepted : (Transition.run (step quickDigest) (new [] [] 0 [quickTool]) lateResult).log.any
    RunLog.isAccepted = true := by decide +kernel
  have hnone : onTheWay (Transition.run (step quickDigest) (new [] [] 0 [quickTool]) lateResult) ++
    handedOver (Transition.run (step quickDigest) (new [] [] 0 [quickTool]) lateResult) = [] := by decide +kernel
  obtain ⟨entry, hm, he⟩ := any_eq_true.mp haccepted
  unfold RunLog.isAccepted at he
  split at he
  · rename_i body pending
    have hone := h.accepted body pending hm
    rw [hnone] at hone
    cases hone
  · cases he

def promptResult : List RunEvent :=
  [.spawn, .start, .callTool quickCall, .callNext 0, .callNext 0, .callNext 0, .submit quickResult, .callNext 0,
    .callNext 0, .finish (.completion .default)]

theorem promptResult_delivered :
    Delivers (Transition.run (step quickDigest) (new [] [] 0 [quickTool]) promptResult) ∧
      handedOver (Transition.run (step quickDigest) (new [] [] 0 [quickTool]) promptResult) =
        [("k".toList, resultOf quickResult)] := by
  let waiting := Transition.run (step quickDigest) (new [] [] 0 [quickTool]) (promptResult.take 6)
  have hplaced : (placements waiting).length = 0 := by decide +kernel
  have hreceipts : waiting.receiptsOf quickResult = [] := by decide +kernel
  have hholds : waiting.calls.any CallInFlight.holds = true := by decide +kernel
  let answered := Transition.run (step quickDigest) (new [] [] 0 [quickTool]) (promptResult.take 7)
  have hstage : answered.calls[0]?.map (·.stage) = some .waiting := by decide +kernel
  refine ⟨tool_results_delivered _ _ _ _ _ _ ?_, by decide +kernel⟩
  refine ⟨trivial, trivial, trivial, fun _ _ _ _ => by decide +kernel, fun _ _ _ _ => by decide +kernel,
    fun _ _ _ _ => by decide +kernel, fun _ => ⟨fun placed hm => ?_, fun hr => ?_, fun _ _ _ => ?_⟩,
    fun flight hf hs => ?_, fun _ _ _ _ => by decide +kernel, fun _ _ => by decide +kernel, trivial⟩
  · have hnone : placed ∈ ([] : List ToolResultBody) := length_eq_zero_iff.mp hplaced ▸ show placed ∈
      placements waiting from hm
    cases hnone
  · cases hreceipts.symm.trans hr.2
  · obtain ⟨flight, hm, hh⟩ := any_eq_true.mp hholds
    exact ⟨flight, hm, hh⟩
  · have hcall : answered.calls[0]? = some flight := hf
    rw [hcall, Option.map_some, hs] at hstage
    cases hstage

end Marks.Agent
