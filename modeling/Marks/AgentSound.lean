import Marks.Agent

/-! # A run ends with its terminal event

The journal numbers its events from one, and only the last event of a finished run is terminal, whatever the
task, the provider and the requests do. A run that is finalized while its journal has room ends with its task. -/

namespace Marks.Agent

open RunState List

/-! ## The journal -/

structure Journal (run : RunState) : Prop where
  numbered : run.inner.events.map (·.sequence) = List.range' 1 run.inner.events.length
  going : run.inner.status.isTerminal = false → ∀ event ∈ run.inner.events, event.kind.isTerminal = false
  finished : run.inner.status.isTerminal = true → ∃ before last, run.inner.events = before ++ [last] ∧
    last.kind.isTerminal = true ∧ ∀ event ∈ before, event.kind.isTerminal = false
  stored : run.stored.status = run.inner.status ∧ run.stored.events = run.inner.events

variable {kind : EventKind} {data : Json} {code : Option Text} {usage : AgentUsage}
  {outputText text : Text}

section
variable {run later : RunState}

theorem Journal.congr (h : Journal run) (hs : later.inner.status = run.inner.status)
    (he : later.inner.events = run.inner.events) (ht : later.stored = run.stored) : Journal later where
  numbered := by
    rw [he]
    exact h.numbered
  going := by
    rw [hs, he]
    exact h.going
  finished := by
    rw [hs, he]
    exact h.finished
  stored := by
    rw [hs, he, ht]
    exact h.stored

variable {status : RunStatus}

theorem Journal.transition (h : Journal run) (hs : status.isTerminal = false)
    (ht : run.transition status = some later) : Journal later := by
  unfold RunState.transition at ht
  split at ht
  · cases ht
  rename_i hgoing
  cases ht
  refine ⟨h.numbered, fun _ => h.going (by simpa using hgoing), ?_, rfl, h.stored.2⟩
  intro hterminal
  rw [show status.isTerminal = true from hterminal] at hs
  cases hs

theorem Journal.nextSequence (h : Journal run) : run.nextSequence = run.inner.events.length + 1 := by
  unfold RunState.nextSequence
  have hn := congrArg List.getLast? h.numbered
  rw [getLast?_map, getLast?_range'] at hn
  cases hl : run.inner.events.getLast? with
  | none => rw [getLast?_eq_none_iff.mp hl]; rfl
  | some last =>
    rw [hl, Option.map_some] at hn
    have hne : run.inner.events ≠ [] := fun hnil => by rw [hnil] at hl; cases hl
    have hpos : run.inner.events.length ≠ 0 := fun hz => hne (length_eq_zero_iff.mp hz)
    rw [if_neg hpos] at hn
    have hlast : last.sequence = 1 + run.inner.events.length - 1 := Option.some.inj hn
    rw [Option.elim_some, hlast]
    omega

theorem Journal.numbered_append (h : Journal run) :
    (run.inner.events ++ [AgentEvent.mk run.nextSequence kind data]).map (·.sequence) =
      List.range' 1 (run.inner.events ++ [AgentEvent.mk run.nextSequence kind data]).length := by
  rw [map_append, h.numbered, length_append, length_singleton, range'_concat, map_singleton,
    h.nextSequence, Nat.one_mul, Nat.add_comm]

theorem Journal.appendEventLocked (h : Journal run)
    (hs : run.inner.status.isTerminal = false) (hk : kind.isTerminal = false)
    (ha : run.appendEventLocked kind data = some later) : Journal later := by
  unfold RunState.appendEventLocked at ha
  split at ha
  · cases ha
    refine ⟨h.numbered_append, fun _ event hm => ?_, fun hterminal => ?_, h.stored.1, ?_⟩
    · rcases mem_append.mp hm with hm | hm
      · exact h.going hs event hm
      · rw [mem_singleton.mp hm]
        exact hk
    · rw [show run.inner.status.isTerminal = true from hterminal] at hs
      cases hs
    · exact congrArg (· ++ _) h.stored.2
  · cases ha

theorem Journal.appendEvent (h : Journal run) (hk : kind.isTerminal = false)
    (ha : run.appendEvent kind data = some later) : Journal later := by
  unfold RunState.appendEvent at ha
  split at ha
  · cases ha
  · rename_i hgoing
    exact h.appendEventLocked (by simpa using hgoing) hk ha

theorem terminalEvent_kind
    (h : terminalEvent status code usage outputText = some (kind, data)) :
    kind.isTerminal = true ∧ status.isTerminal = true := by
  cases status <;> simp only [terminalEvent, Option.some.injEq, Prod.mk.injEq, reduceCtorEq] at h <;>
    exact ⟨h.1 ▸ rfl, rfl⟩

theorem finalize_cases
    (hs : run.inner.status.isTerminal = false) (hf : run.finalize status code usage = some later) :
    ∃ kind data, terminalEvent status code usage run.inner.outputText = some (kind, data) ∧ run.fits data = true ∧
      later = { run with
        inner := { run.inner with
          status, usage, pendingTool := none
          events := run.inner.events ++ [⟨run.nextSequence, kind, data⟩]
          eventBytes := run.inner.eventBytes + Json.utf8Bytes data.serialize }
        stored := ⟨status, code, if status = .completed then some run.inner.outputText else none, usage,
          run.stored.events ++ [⟨run.nextSequence, kind, data⟩]⟩ } := by
  unfold RunState.finalize at hf
  rw [hs, if_neg Bool.false_ne_true] at hf
  split at hf
  · cases hf
  rename_i kind data he
  split at hf
  · rename_i hfits
    exact ⟨kind, data, he, hfits, (Option.some.inj hf).symm⟩
  · cases hf

section

variable (h : Journal run)
include h

theorem Journal.finalize
    (hf : run.finalize status code usage = some later) : Journal later := by
  cases hs : run.inner.status.isTerminal with
  | true =>
    unfold RunState.finalize at hf
    rw [hs, if_pos rfl] at hf
    exact Option.some.inj hf ▸ h
  | false =>
    obtain ⟨kind, data, he, -, rfl⟩ := finalize_cases hs hf
    obtain ⟨hk, hterminal⟩ := terminalEvent_kind he
    refine ⟨h.numbered_append, fun hgoing => ?_, fun _ => ⟨_, _, rfl, hk, h.going hs⟩, rfl, ?_⟩
    · rw [show status.isTerminal = false from hgoing] at hterminal
      cases hterminal
    · exact congrArg (· ++ _) h.stored.2

theorem Journal.settle :
    Journal (run.settle status code usage) := by
  unfold RunState.settle
  cases hf : run.finalize status code usage with
  | none => exact h.congr rfl rfl rfl
  | some settled => exact (h.finalize hf).congr rfl rfl rfl

/-! ## Every section keeps the journal -/

theorem Journal.spawn : Journal run.spawn := by
  unfold RunState.spawn
  split
  · cases ht : run.transition .running with
    | some later => exact (h.transition rfl ht).congr rfl rfl rfl
    | none => exact h.settle.congr rfl rfl rfl
  · exact h

theorem Journal.start : Journal run.start := by
  unfold RunState.start
  split
  · cases ha : run.appendEvent .runStarted (startedData run.id run.documentId run.createdAtMs) with
    | some later => exact (h.appendEvent rfl ha).congr rfl rfl rfl
    | none => exact h.settle.congr rfl rfl rfl
  · exact h

theorem Journal.finish (outcome : ProviderOutcome) : Journal (run.finish outcome) := by
  unfold RunState.finish
  split
  · have hc : Journal { run with cancel := run.cancel || outcome == .timeout } := h.congr rfl rfl rfl
    exact hc.settle.congr rfl rfl rfl
  · exact h

theorem Journal.emitText (text : Text) : Journal (run.emitText text) := by
  unfold RunState.emitText
  split
  · exact h
  · exact h.congr rfl rfl rfl

theorem Journal.emitNext (i : Nat) : Journal (run.emitNext i) := by
  unfold RunState.emitNext
  split
  · exact h
  · rename_i text _
    cases ha : run.appendEvent .assistantDelta (deltaData text) with
    | some later => exact (h.appendEvent rfl ha).congr rfl rfl rfl
    | none => exact h.congr rfl rfl rfl
  · exact h.congr rfl rfl rfl

theorem Journal.callTool (call : ProviderToolCall) : Journal (run.callTool call) := by
  unfold RunState.callTool
  split
  · exact h
  simp only
  split
  · exact h.congr rfl rfl rfl
  · split
    · exact h.congr rfl rfl rfl
    · split <;> exact h.congr rfl rfl rfl

theorem Journal.callNext (i : Nat) : Journal (run.callNext i) := by
  unfold RunState.callNext
  cases run.calls[i]? with
  | none => exact h
  | some flight =>
    simp only
    split
    · split <;> exact h.congr rfl rfl rfl
    · cases ht : run.transition .waitingForTool with
      | some later => exact (h.transition rfl ht).congr rfl rfl rfl
      | none => exact h.congr rfl rfl rfl
    · cases ha : run.appendEvent .toolCall (callData flight.call flight.tool) with
      | some later => exact (h.appendEvent rfl ha).congr rfl rfl rfl
      | none => exact h.congr rfl rfl rfl
    · split <;> exact h.congr rfl rfl rfl
    · cases ht : run.transition .running with
      | some later => exact (h.transition rfl ht).congr rfl rfl rfl
      | none => exact h.congr rfl rfl rfl

theorem Journal.callLeave (i : Nat) : Journal (run.callLeave i) := by
  unfold RunState.callLeave
  split
  · split <;> exact h.congr rfl rfl rfl
  · exact h

end

variable {digest : ToolResultBody → List UInt8}

section

variable (h : Journal run)
include h

theorem Journal.answerReceipt (body : ToolResultBody) : Journal (run.answerReceipt digest body) := by
  unfold RunState.answerReceipt
  split <;> exact h.congr rfl rfl rfl

theorem Journal.accept (hs : run.inner.status.isTerminal = false) (body : ToolResultBody) :
    Journal (run.accept digest body) := by
  unfold RunState.accept
  have hp : Journal (run.place digest body) := h.congr rfl rfl rfl
  split
  · rename_i accepted ha
    exact (hp.appendEventLocked hs rfl ha).congr rfl rfl rfl
  · exact hp.congr rfl rfl rfl

theorem Journal.submitToolResult (body : ToolResultBody) :
    Journal (run.submitToolResult digest body) := by
  unfold RunState.submitToolResult
  split
  · exact h.congr rfl rfl rfl
  split
  · exact h.answerReceipt body
  rename_i hw
  have hs : run.inner.status.isTerminal = false := by rw [Decidable.not_not.mp hw]; rfl
  split
  · exact h.answerReceipt body
  split
  · exact h.congr rfl rfl rfl
  split
  · exact h.congr rfl rfl rfl
  · split
    · exact h.accept hs body
    · split <;> exact h.congr rfl rfl rfl

theorem Journal.lookup (i : Nat) : Journal (run.lookup digest i) := by
  unfold RunState.lookup
  split
  · exact h
  · exact (h.answerReceipt _).congr rfl rfl rfl

theorem Journal.cancelFinalize : Journal run.cancelFinalize := by
  unfold RunState.cancelFinalize
  split
  · exact h
  · exact h.settle.congr rfl rfl rfl

theorem Journal.cancelRequest : Journal run.cancelRequest := by
  unfold RunState.cancelRequest
  split <;> exact h.congr rfl rfl rfl

theorem Journal.step (event : RunEvent) : Journal (run.step digest event) := by
  cases event with
  | spawn => exact h.spawn
  | start => exact h.start
  | finish outcome => exact h.finish outcome
  | emitText text => exact h.emitText text
  | emitNext i => exact h.emitNext i
  | callTool call => exact h.callTool call
  | callNext i => exact h.callNext i
  | callLeave i => exact h.callLeave i
  | submit body => exact h.submitToolResult body
  | lookup i => exact h.lookup i
  | cancelRequest => exact h.cancelRequest
  | cancelFinalize => exact h.cancelFinalize

end

/-! ## Endings -/

def TerminalFits (run : RunState) (status : RunStatus) (code : Option Text) (usage : AgentUsage) : Bool :=
  run.inner.status.isTerminal ||
    (terminalEvent status code usage run.inner.outputText).any fun event => run.fits event.2

/-- Whenever the task or a cancellation chooses an outcome, the journal has room for its terminal event. -/
def Roomy (run : RunState) : RunEvent → Prop
  | .finish outcome => run.task = .running →
      TerminalFits run (run.chosen outcome).1 (run.chosen outcome).2.1 (run.chosen outcome).2.2 = true
  | .cancelFinalize => run.cancels ≠ 0 → TerminalFits run .cancelled none .default = true
  | _ => True

structure RunEnds (run : RunState) : Prop where
  journal : Journal run
  finalized : ∀ status, .finalized status false ∉ run.log
  settled : ∀ status, .finalized status true ∈ run.log → run.inner.status.isTerminal = true
  ended : run.task = .ended → run.inner.status.isTerminal = true

def Unstarted (run : RunState) : Prop :=
  run.task = .spawned ∨ run.task = .transitioned → run.emits = [] ∧ run.calls = [] ∧ run.inner.pendingTool = none ∧
    (run.inner.status.isTerminal = false → run.inner.events = [] ∧ run.inner.eventBytes = 0)

theorem finalize_isSome :
    (run.finalize status code usage).isSome = TerminalFits run status code usage := by
  unfold RunState.finalize TerminalFits
  cases run.inner.status.isTerminal with
  | true => rfl
  | false =>
    rw [if_neg Bool.false_ne_true, Bool.false_or]
    cases terminalEvent status code usage run.inner.outputText with
    | none => rfl
    | some event =>
      simp only [Option.any_some]
      cases run.fits event.2 <;> rfl

theorem finalize_terminal
    (hf : run.finalize status code usage = some later) : later.inner.status.isTerminal = true := by
  cases hs : run.inner.status.isTerminal with
  | true =>
    unfold RunState.finalize at hf
    rw [hs, if_pos rfl] at hf
    exact Option.some.inj hf ▸ hs
  | false =>
    obtain ⟨kind, data, he, -, rfl⟩ := finalize_cases hs hf
    exact (terminalEvent_kind he).2

theorem finalize_log
    (hf : run.finalize status code usage = some later) : later.log = run.log := by
  cases hs : run.inner.status.isTerminal with
  | true =>
    unfold RunState.finalize at hf
    rw [hs, if_pos rfl] at hf
    exact Option.some.inj hf ▸ rfl
  | false =>
    obtain ⟨kind, data, -, -, rfl⟩ := finalize_cases hs hf
    rfl

theorem settle_fits
    (h : TerminalFits run status code usage = true) :
    (run.settle status code usage).inner.status.isTerminal = true ∧
      (run.settle status code usage).log = .finalized status true :: run.log := by
  rw [← finalize_isSome] at h
  obtain ⟨later, hf⟩ := Option.isSome_iff_exists.mp h
  unfold RunState.settle
  rw [hf]
  exact ⟨(finalize_terminal hf :), congrArg (_ :: ·) (finalize_log hf)⟩

theorem settle_refused
    (h : TerminalFits run status code usage ≠ true) :
    .finalized status false ∈ (run.settle status code usage).log := by
  rw [← finalize_isSome, ne_eq, Bool.not_eq_true, Option.isSome_eq_false_iff, Option.isNone_iff_eq_none] at h
  unfold RunState.settle
  rw [h]
  exact mem_cons_self

structure Carries (run later : RunState) : Prop where
  log : ∀ status ok, .finalized status ok ∈ later.log → .finalized status ok ∈ run.log
  task : later.task = run.task
  terminal : run.inner.status.isTerminal = true → later.inner.status.isTerminal = true

theorem Carries.refl (run : RunState) : Carries run run := ⟨fun _ _ h => h, rfl, fun h => h⟩

theorem carries_of (hl : later.log = run.log) (ht : later.task = run.task)
    (hs : later.inner.status = run.inner.status) : Carries run later :=
  ⟨fun _ _ h => hl ▸ h, ht, fun h => hs ▸ h⟩

theorem carries_transition (ht : run.transition status = some later) : Carries run later := by
  unfold RunState.transition at ht
  split at ht
  · cases ht
  · rename_i hgoing
    cases ht
    exact ⟨fun _ _ h => h, rfl, fun h => absurd h hgoing⟩

theorem carries_appendEventLocked
    (ha : run.appendEventLocked kind data = some later) : Carries run later := by
  unfold RunState.appendEventLocked at ha
  split at ha
  · cases ha
    exact carries_of rfl rfl rfl
  · cases ha

theorem carries_appendEvent (ha : run.appendEvent kind data = some later) :
    Carries run later := by
  unfold RunState.appendEvent at ha
  split at ha
  · cases ha
  · exact carries_appendEventLocked ha

theorem Carries.then_of {middle : RunState} (h : Carries run middle) (hl : later.log = middle.log)
    (ht : later.task = middle.task) (hs : later.inner.status = middle.inner.status) : Carries run later :=
  ⟨fun status ok hm => h.log status ok (hl ▸ hm), ht.trans h.task, fun hterminal => hs ▸ h.terminal hterminal⟩

variable {body : ToolResultBody}

theorem carries_answer {answer : Except AgentError Bool} (h : Carries run later) :
    Carries run (later.answer body answer) := by
  refine ⟨fun status ok hm => ?_, h.task, h.terminal⟩
  rcases mem_cons.mp hm with hm | hm
  · cases hm
  · exact h.log status ok hm

theorem carries_emitText : Carries run (run.emitText text) := by
  unfold RunState.emitText
  split
  · exact .refl run
  · exact carries_of rfl rfl rfl

variable {i : Nat}

theorem carries_emitNext : Carries run (run.emitNext i) := by
  unfold RunState.emitNext
  split
  · exact .refl run
  · rename_i text _
    cases ha : run.appendEvent .assistantDelta (deltaData text) with
    | some later => exact (carries_appendEvent ha).then_of rfl rfl rfl
    | none => exact carries_of rfl rfl rfl
  · exact carries_of rfl rfl rfl

theorem carries_callTool {call : ProviderToolCall} : Carries run (run.callTool call) := by
  unfold RunState.callTool
  split
  · exact .refl run
  simp only
  split
  · exact carries_of rfl rfl rfl
  · split
    · exact carries_of rfl rfl rfl
    · split <;> exact carries_of rfl rfl rfl

theorem carries_callNext : Carries run (run.callNext i) := by
  unfold RunState.callNext
  cases run.calls[i]? with
  | none => exact .refl run
  | some flight =>
    simp only
    split
    · split <;> exact carries_of rfl rfl rfl
    · cases ht : run.transition .waitingForTool with
      | some later => exact (carries_transition ht).then_of rfl rfl rfl
      | none => exact carries_of rfl rfl rfl
    · cases ha : run.appendEvent .toolCall (callData flight.call flight.tool) with
      | some later => exact (carries_appendEvent ha).then_of rfl rfl rfl
      | none => exact carries_of rfl rfl rfl
    · split <;> exact carries_of rfl rfl rfl
    cases ht : run.transition .running with
    | some later =>
      have hc := carries_transition ht
      refine ⟨fun status ok hm => ?_, hc.task, hc.terminal⟩
      rcases mem_cons.mp hm with hm | hm
      · cases hm
      · exact hc.log status ok hm
    | none => exact carries_of rfl rfl rfl

theorem carries_callLeave : Carries run (run.callLeave i) := by
  unfold RunState.callLeave
  split
  · split <;> exact carries_of rfl rfl rfl
  · exact .refl run

theorem carries_answerReceipt : Carries run (run.answerReceipt digest body) := by
  unfold RunState.answerReceipt
  split <;> exact carries_answer (.refl run)

theorem carries_place : Carries run (run.place digest body) := carries_of rfl rfl rfl

theorem carries_accept : Carries run (run.accept digest body) := by
  unfold RunState.accept
  split
  · rename_i accepted ha
    have hp : Carries run (run.place digest body) := carries_place
    have hc := carries_appendEventLocked ha
    exact carries_answer ⟨fun status ok hm => hp.log status ok (hc.log status ok hm), hc.task.trans hp.task,
      fun hterminal => hc.terminal (hp.terminal hterminal)⟩
  · exact carries_answer carries_place

theorem carries_submitToolResult : Carries run (run.submitToolResult digest body) := by
  unfold RunState.submitToolResult
  split
  · exact carries_answer (.refl run)
  split
  · exact carries_answerReceipt
  split
  · exact carries_answerReceipt
  split
  · exact carries_answer (.refl run)
  split
  · exact carries_of rfl rfl rfl
  · split
    · exact carries_accept
    · split <;> exact carries_answer (.refl run)

theorem carries_lookup : Carries run (run.lookup digest i) := by
  unfold RunState.lookup
  split
  · exact .refl run
  · exact carries_answerReceipt.then_of rfl rfl rfl

theorem carries_cancelRequest : Carries run run.cancelRequest := by
  unfold RunState.cancelRequest
  split <;> exact carries_of rfl rfl rfl

theorem RunEnds.carries (h : RunEnds run) (hj : Journal later) (hc : Carries run later) : RunEnds later where
  journal := hj
  finalized status hm := h.finalized status (hc.log status false hm)
  settled status hm := hc.terminal (h.settled status (hc.log status true hm))
  ended ht := hc.terminal (h.ended (hc.task ▸ ht))

theorem RunEnds.settle (h : RunEnds run)
    (hf : TerminalFits run status code usage = true) : RunEnds (run.settle status code usage) := by
  obtain ⟨hterminal, hlog⟩ := settle_fits hf
  refine ⟨h.journal.settle, fun other hm => ?_, fun _ _ => hterminal, fun _ => hterminal⟩
  rw [hlog] at hm
  rcases mem_cons.mp hm with hm | hm
  · cases hm
  · exact h.finalized other hm

/-! ## The start of a run -/

theorem unstarted_fits (h : run.inner.status.isTerminal = false → run.inner.events = [] ∧ run.inner.eventBytes = 0) :
    TerminalFits run .failed (some internalError) .default = true := by
  unfold TerminalFits
  cases hs : run.inner.status.isTerminal with
  | true => rfl
  | false =>
    obtain ⟨he, hb⟩ := h hs
    unfold RunState.fits
    rw [he, hb, show terminalEvent .failed (some internalError) .default run.inner.outputText =
      terminalEvent .failed (some internalError) .default [] from rfl]
    decide +kernel

theorem RunEnds.spawn (h : RunEnds run) (hu : Unstarted run) : RunEnds run.spawn := by
  unfold RunState.spawn
  split
  · rename_i htask
    cases ht : run.transition .running with
    | some later =>
      have hr := h.carries (h.journal.transition rfl ht) (carries_transition ht)
      exact ⟨hr.journal.congr rfl rfl rfl, hr.finalized, hr.settled, fun he => by cases he⟩
    | none =>
      have hf := unstarted_fits (hu (.inl htask)).2.2.2
      have hr := h.settle hf
      exact ⟨hr.journal.congr rfl rfl rfl, hr.finalized, hr.settled, fun _ => (settle_fits hf).1⟩
  · exact h

theorem RunEnds.start (h : RunEnds run) (hu : Unstarted run) : RunEnds run.start := by
  unfold RunState.start
  split
  · rename_i htask
    cases ha : run.appendEvent .runStarted (startedData run.id run.documentId run.createdAtMs) with
    | some later =>
      have hr := h.carries (h.journal.appendEvent rfl ha) (carries_appendEvent ha)
      exact ⟨hr.journal.congr rfl rfl rfl, hr.finalized, hr.settled, fun he => by cases he⟩
    | none =>
      have hf := unstarted_fits (hu (.inr htask)).2.2.2
      have hr := h.settle hf
      exact ⟨hr.journal.congr rfl rfl rfl, hr.finalized, hr.settled, fun _ => (settle_fits hf).1⟩
  · exact h

theorem RunEnds.finish (h : RunEnds run) {outcome : ProviderOutcome} (hc : Roomy run (.finish outcome)) :
    RunEnds (run.finish outcome) := by
  unfold RunState.finish
  split
  · rename_i htask
    have hr : RunEnds { run with cancel := run.cancel || outcome == .timeout } :=
      ⟨h.journal.congr rfl rfl rfl, h.finalized, h.settled, h.ended⟩
    have hf : TerminalFits { run with cancel := run.cancel || outcome == .timeout } (run.chosen outcome).1
      (run.chosen outcome).2.1 (run.chosen outcome).2.2 = true := hc htask
    have hs := hr.settle hf
    exact ⟨hs.journal.congr rfl rfl rfl, hs.finalized, hs.settled, fun _ => (settle_fits hf).1⟩
  · exact h

theorem RunEnds.cancelFinalize (h : RunEnds run) (hc : Roomy run .cancelFinalize) : RunEnds run.cancelFinalize := by
  unfold RunState.cancelFinalize
  split
  · exact h
  · rename_i hne
    have hs := h.settle (hc hne)
    exact ⟨hs.journal.congr rfl rfl rfl, hs.finalized, hs.settled, hs.ended⟩

/-! ## Nothing stands before the start -/

theorem unstarted_past {later : RunState} (ht : later.task = .running ∨ later.task = .ended) : Unstarted later := by
  intro he
  rcases ht with ht | ht <;> rw [ht] at he <;> rcases he with he | he <;> cases he

theorem Unstarted.same (h : Unstarted run) (ht : later.task = run.task) (he : later.emits = run.emits)
    (hc : later.calls = run.calls) (hi : later.inner = run.inner) : Unstarted later := by
  intro hearly
  rw [he, hc, hi]
  exact h (ht ▸ hearly)

theorem Unstarted.carries (hc : Carries run later)
    (hl : run.task = .spawned ∨ run.task = .transitioned → Unstarted later) : Unstarted later := by
  cases ht : run.task with
  | spawned => exact hl (.inl ht)
  | transitioned => exact hl (.inr ht)
  | running => exact unstarted_past (.inl (hc.task.trans ht))
  | ended => exact unstarted_past (.inr (hc.task.trans ht))

section

variable (h : Unstarted run)
include h

theorem finalize_unstarted
    (hf : run.finalize status code usage = some later) : Unstarted later := by
  cases hs : run.inner.status.isTerminal with
  | true =>
    unfold RunState.finalize at hf
    rw [hs, if_pos rfl] at hf
    exact Option.some.inj hf ▸ h
  | false =>
    have hterminal := finalize_terminal hf
    obtain ⟨kind, data, -, -, rfl⟩ := finalize_cases hs hf
    intro hearly
    obtain ⟨he, hcalls, -, -⟩ := h hearly
    refine ⟨he, hcalls, rfl, fun hgoing => ?_⟩
    rw [hterminal] at hgoing
    cases hgoing

theorem Unstarted.settle :
    Unstarted (run.settle status code usage) := by
  unfold RunState.settle
  cases hf : run.finalize status code usage with
  | none => exact h.same rfl rfl rfl rfl
  | some settled => exact (finalize_unstarted h hf).same rfl rfl rfl rfl

theorem Unstarted.spawn : Unstarted run.spawn := by
  unfold RunState.spawn
  split
  · rename_i htask
    cases ht : run.transition .running with
    | some later =>
      unfold RunState.transition at ht
      split at ht
      · cases ht
      rename_i hgoing
      cases ht
      intro _
      obtain ⟨he, hc, hp, hj⟩ := h (.inl htask)
      exact ⟨he, hc, hp, fun _ => hj (by simpa using hgoing)⟩
    | none => exact unstarted_past (.inr rfl)
  · exact h

theorem Unstarted.start : Unstarted run.start := by
  unfold RunState.start
  split
  · split
    · exact unstarted_past (.inl rfl)
    · exact unstarted_past (.inr rfl)
  · exact h

theorem Unstarted.finish {outcome : ProviderOutcome} : Unstarted (run.finish outcome) := by
  unfold RunState.finish
  split
  · exact unstarted_past (.inr rfl)
  · exact h

theorem Unstarted.emitText : Unstarted (run.emitText text) := by
  refine Unstarted.carries carries_emitText fun hearly => ?_
  unfold RunState.emitText
  rw [if_pos]
  · exact h
  · rcases hearly with ht | ht
    · exact .inl ht
    · exact .inr (.inl ht)

theorem Unstarted.emitNext : Unstarted (run.emitNext i) := by
  refine Unstarted.carries carries_emitNext fun hearly => ?_
  unfold RunState.emitNext
  rw [(h hearly).1]
  exact h

theorem Unstarted.callTool {call : ProviderToolCall} : Unstarted (run.callTool call) := by
  refine Unstarted.carries carries_callTool fun hearly => ?_
  unfold RunState.callTool
  rw [if_pos]
  · exact h
  · rcases hearly with ht | ht
    · exact .inl ht
    · exact .inr (.inl ht)

theorem Unstarted.callNext : Unstarted (run.callNext i) := by
  refine Unstarted.carries carries_callNext fun hearly => ?_
  unfold RunState.callNext
  rw [(h hearly).2.1]
  exact h

theorem Unstarted.callLeave : Unstarted (run.callLeave i) := by
  refine Unstarted.carries carries_callLeave fun hearly => ?_
  unfold RunState.callLeave
  rw [(h hearly).2.1]
  exact h

theorem Unstarted.answerReceipt :
    Unstarted (run.answerReceipt digest body) := by
  unfold RunState.answerReceipt
  split <;> exact h.same rfl rfl rfl rfl

theorem Unstarted.submitToolResult :
    Unstarted (run.submitToolResult digest body) := by
  refine Unstarted.carries carries_submitToolResult fun hearly => ?_
  unfold RunState.submitToolResult
  rw [(h hearly).2.2.1]
  split
  · exact h.same rfl rfl rfl rfl
  · split <;> exact h.answerReceipt

theorem Unstarted.lookup : Unstarted (run.lookup digest i) := by
  unfold RunState.lookup
  split
  · exact h
  · exact h.answerReceipt.same rfl rfl rfl rfl

theorem Unstarted.cancelRequest : Unstarted run.cancelRequest := by
  unfold RunState.cancelRequest
  split
  · exact h
  · exact h.same rfl rfl rfl rfl

theorem Unstarted.cancelFinalize : Unstarted run.cancelFinalize := by
  unfold RunState.cancelFinalize
  split
  · exact h
  · exact h.settle.same rfl rfl rfl rfl

theorem Unstarted.step (event : RunEvent) : Unstarted (run.step digest event) := by
  cases event with
  | spawn => exact h.spawn
  | start => exact h.start
  | finish => exact h.finish
  | emitText => exact h.emitText
  | emitNext => exact h.emitNext
  | callTool => exact h.callTool
  | callNext => exact h.callNext
  | callLeave => exact h.callLeave
  | submit => exact h.submitToolResult
  | lookup => exact h.lookup
  | cancelRequest => exact h.cancelRequest
  | cancelFinalize => exact h.cancelFinalize

end

/-! ## Whole runs -/

theorem RunEnds.step (h : RunEnds run) (hu : Unstarted run) {event : RunEvent} (hc : Roomy run event) :
    RunEnds (run.step digest event) := by
  cases event with
  | spawn => exact h.spawn hu
  | start => exact h.start hu
  | finish outcome => exact h.finish hc
  | emitText text => exact h.carries (h.journal.emitText text) carries_emitText
  | emitNext i => exact h.carries (h.journal.emitNext i) carries_emitNext
  | callTool call => exact h.carries (h.journal.callTool call) carries_callTool
  | callNext i => exact h.carries (h.journal.callNext i) carries_callNext
  | callLeave i => exact h.carries (h.journal.callLeave i) carries_callLeave
  | submit body => exact h.carries (h.journal.submitToolResult body) carries_submitToolResult
  | lookup i => exact h.carries (h.journal.lookup i) carries_lookup
  | cancelRequest => exact h.carries h.journal.cancelRequest carries_cancelRequest
  | cancelFinalize => exact h.cancelFinalize hc

theorem RunEnds.breaks {event : RunEvent} (hc : ¬ Roomy run event) : ¬ RunEnds (run.step digest event) := by
  intro h
  cases event with
  | finish outcome =>
    unfold Roomy at hc
    rw [Classical.not_imp] at hc
    obtain ⟨htask, hf⟩ := hc
    refine h.finalized (run.chosen outcome).1 ?_
    unfold RunState.step RunState.finish
    simp only [htask]
    exact settle_refused hf
  | cancelFinalize =>
    unfold Roomy at hc
    rw [Classical.not_imp] at hc
    obtain ⟨hne, hf⟩ := hc
    refine h.finalized .cancelled ?_
    unfold RunState.step RunState.cancelFinalize
    simp only [if_neg hne]
    exact settle_refused hf
  | spawn => exact hc trivial
  | start => exact hc trivial
  | emitText => exact hc trivial
  | emitNext => exact hc trivial
  | callTool => exact hc trivial
  | callNext => exact hc trivial
  | callLeave => exact hc trivial
  | submit => exact hc trivial
  | lookup => exact hc trivial
  | cancelRequest => exact hc trivial

theorem runEnds_new (id documentId : Text) (createdAtMs : Nat) (tools : List AgentTool) :
    RunEnds (new id documentId createdAtMs tools) ∧ Unstarted (new id documentId createdAtMs tools) :=
  ⟨⟨⟨rfl, by simp [new], by simp [new, RunStatus.isTerminal], rfl, rfl⟩, by simp [new], by simp [new], by simp [new]⟩,
    fun _ => ⟨rfl, rfl, rfl, fun _ => ⟨rfl, rfl⟩⟩⟩

end

/-- Every outcome is recorded, with one terminal event at the end of a journal numbered from one, and no run is left
open by its task, exactly if the journal has room whenever an outcome is chosen. -/
theorem agent_runs_end (digest : ToolResultBody → List UInt8) (id documentId : Text) (createdAtMs : Nat)
    (tools : List AgentTool) (events : List RunEvent) :
    (∀ n, RunEnds (Transition.run (step digest) (new id documentId createdAtMs tools) (events.take n))) ↔
      Transition.Along (step digest) Roomy (new id documentId createdAtMs tools) events :=
  Transition.along_iff (I := fun run => RunEnds run ∧ Unstarted run)
    (fun _ event h hc => ⟨h.1.step h.2 hc, h.2.step event⟩) (fun _ h => h.1)
    (fun _ _ _ hc => RunEnds.breaks hc) (runEnds_new id documentId createdAtMs tools)

/-! ## An output that no completion holds -/

section
variable {run : RunState}

structure Emitting (run : RunState) (outputText : Text) (count bytes : Nat) : Prop where
  task : run.task = .running
  status : run.inner.status = .running
  cancel : run.cancel = false
  emits : run.emits = []
  outputText : run.inner.outputText = outputText
  count : run.inner.events.length = count
  bytes : run.inner.eventBytes = bytes

theorem Emitting.emit (digest : ToolResultBody → List UInt8) {count bytes : Nat}
    (h : Emitting run outputText count bytes) (hne : text ≠ []) (ho : Json.utf8Bytes outputText + Json.utf8Bytes text ≤ maxAssistantOutputBytes)
    (hdata : Json.utf8Bytes (deltaData text).serialize ≤ maxEventBytes) (hcount : count < maxEvents)
    (hbytes : bytes + Json.utf8Bytes (deltaData text).serialize ≤ maxRunEventBytes) :
    Emitting (Transition.run (step digest) run [.emitText text, .emitNext 0, .emitNext 0]) (outputText ++ text)
      (count + 1) (bytes + Json.utf8Bytes (deltaData text).serialize) := by
  obtain ⟨htask, hs, hc, he, hout, hcnt, hbyt⟩ := h
  have hemit : run.emitText text = { run with emits := [(text, .checked)] } := by
    unfold RunState.emitText
    rw [if_neg, he, nil_append]
    simp only [htask, hc, hne, hout, reduceCtorEq, Bool.false_eq_true, false_or]
    exact Nat.not_lt.mpr ho
  have hf : RunState.fits { run with emits := [(text, .checked)] } (deltaData text) = true := by
    unfold RunState.fits
    rw [hcnt, hbyt, decide_eq_true hdata, decide_eq_true hcount, decide_eq_true hbytes]
    rfl
  have happend : RunState.appendEvent { run with emits := [(text, .checked)] } .assistantDelta (deltaData text) =
      some { run with
        inner := { run.inner with
          events := run.inner.events ++ [⟨run.nextSequence, .assistantDelta, deltaData text⟩]
          eventBytes := run.inner.eventBytes + Json.utf8Bytes (deltaData text).serialize }
        stored := { run.stored with
          events := run.stored.events ++ [⟨run.nextSequence, .assistantDelta, deltaData text⟩] }
        emits := [(text, .checked)] } := by
    unfold RunState.appendEvent RunState.appendEventLocked
    rw [if_neg (by simp only [hs]; exact Bool.false_ne_true), if_pos hf]
    rfl
  simp only [Transition.run, step, hemit]
  unfold emitNext
  simp only [getElem?_cons_zero, happend]
  exact ⟨htask, hs, hc, rfl, congrArg (· ++ text) hout, by rw [← hcnt]; exact length_append, congrArg (· + _) hbyt⟩

theorem deltaData_bytes (text : Text) :
    Json.utf8Bytes (deltaData text).serialize = Json.utf8Bytes (text.flatMap Json.escape) + 11 := by
  have hname : Json.utf8Bytes (Json.quote "text".toList) = 6 := by decide +kernel
  simp only [deltaData, Json.serialize, Json.serializeFields, cons_append, Json.utf8Bytes_cons,
    Json.utf8Bytes_append, Json.utf8Bytes_quote text, hname, Json.utf8Bytes_nil]
  simp [Char.utf8Size]
  omega

theorem completion_bytes
    (h : terminalEvent .completed code usage outputText = some (kind, data)) :
    Json.utf8Bytes (outputText.flatMap Json.escape) < Json.utf8Bytes data.serialize := by
  cases h
  simp only [Json.serialize, Json.serializeFields, cons_append, Json.utf8Bytes_cons, Json.utf8Bytes_append,
    Json.utf8Bytes_quote outputText]
  omega

def controls : Text := List.replicate 11000 '\x01'

theorem controls_bytes : Json.utf8Bytes controls = 11000 ∧ Json.utf8Bytes (controls.flatMap Json.escape) = 66000 := by
  constructor
  · unfold controls Json.utf8Bytes
    rw [map_replicate, sum_replicate]
    decide
  · unfold controls
    rw [Json.utf8Bytes_replicate]
    decide +kernel

def longOutput : List RunEvent :=
  [.spawn, .start] ++ [.emitText controls, .emitNext 0, .emitNext 0] ++ [.emitText controls, .emitNext 0, .emitNext 0] ++
    [.finish (.completion .default)]

/-- The completion of such an output is refused, and the run stays open after its task has ended. -/
theorem longOutput_refused : ¬ RunEnds (Transition.run (step fun _ => []) (new [] [] 0 []) longOutput) := by
  obtain ⟨hraw, hescaped⟩ := controls_bytes
  have hne : controls ≠ [] := by
    unfold controls
    rw [replicate_succ]
    exact cons_ne_nil _ _
  have hdelta : Json.utf8Bytes (deltaData controls).serialize = 66011 := by rw [deltaData_bytes, hescaped]
  have hbegun : Emitting (Transition.run (step fun _ => []) (new [] [] 0 []) [.spawn, .start]) [] 1 63 :=
    ⟨by decide +kernel, by decide +kernel, by decide +kernel, by decide +kernel, by decide +kernel, by decide +kernel,
      by decide +kernel⟩
  have hfirst := hbegun.emit (fun _ => []) hne (by rw [hraw]; decide) (by rw [hdelta]; decide) (by decide) (by rw [hdelta]; decide)
  have hsecond := hfirst.emit (fun _ => []) hne (by rw [nil_append, hraw]; decide) (by rw [hdelta]; decide) (by decide)
    (by rw [hdelta]; decide)
  unfold longOutput
  rw [Transition.run_snoc, Transition.run_append, Transition.run_append]
  refine RunEnds.breaks fun hroomy => ?_
  have hfits := hroomy hsecond.task
  unfold TerminalFits at hfits
  rw [hsecond.status, hsecond.outputText, RunStatus.isTerminal, Bool.false_or, Option.any_eq_true] at hfits
  obtain ⟨⟨kind, data⟩, he, hfits⟩ := hfits
  have hlong := completion_bytes he
  rw [nil_append, flatMap_append, Json.utf8Bytes_append, hescaped] at hlong
  unfold fits at hfits
  rw [Bool.and_eq_true, Bool.and_eq_true, decide_eq_true_eq, maxEventBytes] at hfits
  have hshort : Json.utf8Bytes data.serialize ≤ 128 * 1024 := hfits.1.1
  omega

end

end Marks.Agent
