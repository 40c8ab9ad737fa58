import Mathlib.Data.List.Nodup
import Mathlib.Data.List.Perm.Subperm
import Marks.AgentPill

/-! # A tool call runs at most once in the browser

The record that was saved last knows every call that was launched and every result that was submitted. A component
that resumes from that record, alone, launches no call again and submits each result as it was. Each step of the one
component at work keeps what the record knows. -/

namespace Marks.AgentPill

open List

def idle (browser : Browser) : Bool := browser.tabs.all fun tab => tab.pills.all fun pill => pill.stage == .ended

def resumed (documentId : JsString) (browser : Browser) (tab now : Nat) : Option ActiveHostedRunRecord :=
  (browser.tabs[tab]?).bind fun found => readActiveHostedRun documentId now found.storage

/-- A receipt is short enough to be stored whole, and a component resumes only where no other one is at work, from
the record that was saved last. -/
def Guarded (documentId : JsString) (browser : Browser) : BrowserEvent → Prop
  | .pill _ _ (.finish _ message error) => optionalBoundedString message = true ∧ optionalBoundedString error = true
  | .mount tab now => ∀ record ∈ resumed documentId browser tab now, idle browser = true ∧ browser.saved = some record
  | .pill _ _ _ | .reload _ | .duplicate _ => True

instance (documentId : JsString) (browser : Browser) : ∀ event, Decidable (Guarded documentId browser event)
  | .pill _ _ (.finish _ _ _) => inferInstanceAs (Decidable (_ ∧ _))
  | .mount _ _ => inferInstanceAs (Decidable (∀ _ ∈ resumed _ _ _ _, _ ∧ _))
  | .pill _ _ (.deliver _ _) | .pill _ _ .retry | .pill _ _ .accepted | .pill _ _ .broken | .pill _ _ .unmount
  | .reload _ | .duplicate _ => isTrue trivial

structure RunsOnce (launches : List ToolCall) (submissions : List HostedAgentToolResult) : Prop where
  once : (launches.map (·.callId)).Nodup
  same : ∀ result ∈ submissions, ∀ other ∈ submissions, result.callId = other.callId → result = other

structure Knows (log : List HostedRunEvent) (launches : List ToolCall) (submissions : List HostedAgentToolResult)
    (run : ActiveHostedRunRecord) : Prop where
  launched : ∀ call ∈ launches, ∃ stored ∈ run.calls, stored.callId = call.callId
  submitted : ∀ result ∈ submissions, ∃ stored ∈ run.calls, resultOf stored = some result
  distinct : (run.calls.map (·.callId)).Nodup
  logged : ∀ stored ∈ run.calls, stored.callId ∈ (log.filterMap HostedRunEvent.call).map (·.callId)
  short : ∀ stored ∈ run.calls, optionalBoundedString stored.message = true ∧ optionalBoundedString stored.error = true

def Stage.meets (run : Option ActiveHostedRunRecord) : Stage → Prop
  | .reading => run.isSome = true
  | .running call _ => ∃ record ∈ run, call ∈ record.calls ∧ call.state = .executing
  | .submitting call _ => ∃ record ∈ run, call ∈ record.calls
  | .ended => True

structure Held (log : List HostedRunEvent) (v : View) : Prop extends RunsOnce v.launches v.submissions where
  known : ∀ run ∈ v.saved, Knows log v.launches v.submissions run
  current : v.pill.stage ≠ .ended → v.pill.storedRun = v.saved
  meets : v.pill.stage.meets v.saved

structure Working (log : List HostedRunEvent) (v : View) (run : ActiveHostedRunRecord) : Prop
    extends RunsOnce v.launches v.submissions where
  stored : v.pill.storedRun = some run
  saved : v.saved = some run
  knows : Knows log v.launches v.submissions run

/-! ## Records -/

variable {toolCall : ToolCall}

section
variable {log : List HostedRunEvent} {launches : List ToolCall} {submissions : List HostedAgentToolResult}
  {run : ActiveHostedRunRecord} {call stored : StoredHostedToolCall} {result : HostedAgentToolResult}

theorem resultOf_callId (h : resultOf call = some result) : result.callId = call.callId := by
  unfold resultOf at h
  split at h
  · obtain ⟨status, _, rfl⟩ := Option.map_eq_some_iff.mp h
    rfl
  · cases h

theorem resultOf_executing (h : call.state = .executing) : resultOf call = none := by
  unfold resultOf
  rw [h, if_neg (by decide)]

theorem outcomeUnknown_short : optionalBoundedString (some outcomeUnknown) = true := by decide +kernel

theorem contractMismatch_short : optionalBoundedString (some contractMismatch) = true := by decide +kernel

theorem take_optional {text : Option JsString} (h : optionalBoundedString text = true) :
    text.map (·.take maxDetailChars) = text := by
  cases text with
  | none => rfl
  | some text =>
    have hl : text.length ≤ maxDetailChars := decide_eq_true_eq.mp h
    exact congrArg some (take_of_length_le hl)

theorem Knows.write (h : Knows log launches submissions run)
    (hlog : (log.filterMap HostedRunEvent.call).length ≤ Agent.maxToolCalls) : writeActiveHostedRun run = run := by
  have hfew : run.calls.length ≤ maxCalls := by
    have hsub : run.calls.map (·.callId) ⊆ (log.filterMap HostedRunEvent.call).map (·.callId) := by
      intro id hm
      obtain ⟨stored, hs, rfl⟩ := mem_map.mp hm
      exact h.logged stored hs
    have hle := (h.distinct.subperm hsub).length_le
    rw [length_map, length_map] at hle
    exact Nat.le_trans hle hlog
  unfold writeActiveHostedRun
  rw [Nat.sub_eq_zero_of_le hfew, drop_zero]
  have hcalls : (run.calls.map fun call => { call with
      message := call.message.map (·.take maxDetailChars)
      error := call.error.map (·.take maxDetailChars) }) = run.calls := by
    refine (map_congr_left fun call hm => ?_).trans (map_id _)
    rw [take_optional (h.short call hm).1, take_optional (h.short call hm).2]
    rfl
  rw [hcalls]

theorem Knows.unique (h : Knows log launches submissions run) (hc : call ∈ run.calls) (hs : stored ∈ run.calls)
    (hid : call.callId = stored.callId) : call = stored :=
  inj_on_of_nodup_map h.distinct hc hs hid

theorem Knows.unsubmitted (h : Knows log launches submissions run) (hc : call ∈ run.calls)
    (hs : call.state = .executing) : ∀ result ∈ submissions, result.callId ≠ call.callId := by
  intro result hm hid
  obtain ⟨stored, hstored, hr⟩ := h.submitted result hm
  have heq := h.unique hstored hc ((resultOf_callId hr).symm.trans hid)
  rw [heq, resultOf_executing hs] at hr
  cases hr

def withCall (run : ActiveHostedRunRecord) (call : StoredHostedToolCall) : ActiveHostedRunRecord :=
  { run with calls := run.calls.filter (·.callId != call.callId) ++ [call] }

theorem mem_withCall : stored ∈ (withCall run call).calls ↔
    (stored ∈ run.calls ∧ stored.callId ≠ call.callId) ∨ stored = call := by
  unfold withCall
  rw [mem_append, mem_filter, mem_singleton, bne_iff_ne]

theorem self_mem_withCall : call ∈ (withCall run call).calls := mem_withCall.mpr (.inr rfl)

theorem Knows.update (h : Knows log launches submissions run)
    (hid : call.callId ∈ (log.filterMap HostedRunEvent.call).map (·.callId))
    (hshort : optionalBoundedString call.message = true ∧ optionalBoundedString call.error = true)
    (hnew : ∀ result ∈ submissions, result.callId ≠ call.callId) :
    Knows log launches submissions (withCall run call) where
  launched := by
    intro other hm
    obtain ⟨stored, hs, heq⟩ := h.launched other hm
    by_cases hc : stored.callId = call.callId
    · exact ⟨call, self_mem_withCall, hc.symm.trans heq⟩
    · exact ⟨stored, mem_withCall.mpr (.inl ⟨hs, hc⟩), heq⟩
  submitted := by
    intro result hm
    obtain ⟨stored, hs, hr⟩ := h.submitted result hm
    refine ⟨stored, mem_withCall.mpr (.inl ⟨hs, fun hc => ?_⟩), hr⟩
    exact hnew result hm ((resultOf_callId hr).trans hc)
  distinct := by
    unfold withCall
    rw [map_append, map_singleton]
    refine List.Nodup.append ?_ (nodup_singleton _) ?_
    · exact h.distinct.sublist (List.filter_sublist.map _)
    intro id hm hs
    obtain ⟨stored, hf, rfl⟩ := mem_map.mp hm
    rw [mem_singleton] at hs
    exact bne_iff_ne.mp (mem_filter.mp hf).2 hs
  logged := by
    intro stored hm
    rcases mem_withCall.mp hm with ⟨hs, _⟩ | rfl
    · exact h.logged stored hs
    · exact hid
  short := by
    intro stored hm
    rcases mem_withCall.mp hm with ⟨hs, _⟩ | rfl
    · exact h.short stored hs
    · exact hshort

theorem Knows.launch (h : Knows log launches submissions run) (hc : stored ∈ run.calls)
    (hid : stored.callId = toolCall.callId) : Knows log (launches ++ [toolCall]) submissions run where
  launched := by
    intro other hm
    rcases mem_append.mp hm with hm | hm
    · exact h.launched other hm
    · rw [mem_singleton.mp hm]
      exact ⟨stored, hc, hid⟩
  submitted := h.submitted
  distinct := h.distinct
  logged := h.logged
  short := h.short

theorem Knows.submit (h : Knows log launches submissions run) (hc : stored ∈ run.calls)
    (hr : resultOf stored = some result) : Knows log launches (submissions ++ [result]) run where
  launched := h.launched
  submitted := by
    intro other hm
    rcases mem_append.mp hm with hm | hm
    · exact h.submitted other hm
    · rw [mem_singleton.mp hm]
      exact ⟨stored, hc, hr⟩
  distinct := h.distinct
  logged := h.logged
  short := h.short

theorem RunsOnce.launch (h : RunsOnce launches submissions)
    (hnew : toolCall.callId ∉ launches.map (·.callId)) : RunsOnce (launches ++ [toolCall]) submissions where
  once := by
    rw [map_append, map_singleton]
    refine h.once.append (nodup_singleton _) fun id hm hs => ?_
    rw [mem_singleton.mp hs] at hm
    exact hnew hm
  same := h.same

theorem RunsOnce.submit (h : RunsOnce launches submissions) (hk : Knows log launches submissions run)
    (hc : stored ∈ run.calls) (hr : resultOf stored = some result) : RunsOnce launches (submissions ++ [result]) where
  once := h.once
  same := by
    have hrepeats : ∀ other ∈ submissions, other.callId = result.callId → other = result := by
      intro other hm hid
      obtain ⟨known, hs, ho⟩ := hk.submitted other hm
      have heq := hk.unique hs hc ((resultOf_callId ho).symm.trans (hid.trans (resultOf_callId hr)))
      rw [heq, hr] at ho
      exact (Option.some.inj ho).symm
    intro one hone other hother hid
    rcases mem_append.mp hone with hone | hone <;> rcases mem_append.mp hother with hother | hother
    · exact h.same one hone other hother hid
    · rw [mem_singleton.mp hother] at hid ⊢
      exact hrepeats one hone hid
    · rw [mem_singleton.mp hone] at hid ⊢
      exact (hrepeats other hother hid.symm).symm
    · rw [mem_singleton.mp hone, mem_singleton.mp hother]

end

/-! ## One component -/

variable {requestId : JsString}

section
variable {log : List HostedRunEvent} {getCommand : JsString → Option AgentCommand} {v : View}
  {run : ActiveHostedRunRecord} {call : StoredHostedToolCall} {seq : Nat}

theorem Held.working (h : Held log v) (hs : v.pill.stage ≠ .ended) : ∃ run, Working log v run := by
  have hsome : ∃ run, v.saved = some run := by
    have hm := h.meets
    cases hstage : v.pill.stage with
    | ended => exact absurd hstage hs
    | reading =>
      rw [hstage] at hm
      exact Option.isSome_iff_exists.mp hm
    | running call seq =>
      rw [hstage] at hm
      obtain ⟨run, hr, _⟩ := hm
      exact ⟨run, hr⟩
    | submitting call seq =>
      rw [hstage] at hm
      obtain ⟨run, hr, _⟩ := hm
      exact ⟨run, hr⟩
  obtain ⟨run, hr⟩ := hsome
  exact ⟨run, h.toRunsOnce, (h.current hs).trans hr, hr, h.known run hr⟩

theorem Working.held (h : Working log v run) {stage : Stage} (hs : stage.meets (some run)) :
    Held log (v.setStage stage) where
  toRunsOnce := h.toRunsOnce
  known := by
    intro other hm
    rw [show (v.setStage stage).saved = v.saved from rfl, h.saved] at hm
    exact Option.some.inj hm ▸ h.knows
  current _ := h.stored.trans h.saved.symm
  meets := by
    rw [show (v.setStage stage).saved = v.saved from rfl, h.saved]
    exact hs

theorem Held.ended (h : RunsOnce v.launches v.submissions) (hs : v.saved = none) : Held log (v.setStage .ended) where
  toRunsOnce := h
  known := by
    intro other hm
    rw [show (v.setStage .ended).saved = v.saved from rfl, hs] at hm
    cases hm
  current hne := absurd rfl hne
  meets := trivial

section

variable (h : Working log v run)
include h

theorem Working.store (hlog : (log.filterMap HostedRunEvent.call).length ≤ Agent.maxToolCalls)
    {next : ActiveHostedRunRecord} (hk : Knows log v.launches v.submissions next) :
    Working log (v.store (some next)) next where
  toRunsOnce := h.toRunsOnce
  stored := rfl
  saved := congrArg some (hk.write hlog)
  knows := hk

theorem updateStoredCall_working :
    v.updateStoredCall call = v.store (some (withCall run call)) := by
  unfold View.updateStoredCall
  rw [h.stored]
  rfl

theorem Working.eventDone
    (hlog : (log.filterMap HostedRunEvent.call).length ≤ Agent.maxToolCalls) : Held log (v.eventDone seq) := by
  unfold View.eventDone
  rw [h.stored]
  simp only
  split
  · have hmoved : Knows log v.launches v.submissions { run with lastEventId := seq } :=
      ⟨h.knows.launched, h.knows.submitted, h.knows.distinct, h.knows.logged, h.knows.short⟩
    have hreads : Stage.reading.meets (some { run with lastEventId := seq }) := rfl
    exact (h.store hlog hmoved).held hreads
  · have hreads : Stage.reading.meets (some run) := rfl
    exact h.held hreads

theorem Working.submitStored
    (hlog : (log.filterMap HostedRunEvent.call).length ≤ Agent.maxToolCalls) (hc : call ∈ run.calls) :
    Held log (v.submitStored call seq) := by
  unfold View.submitStored
  cases hr : resultOf call with
  | none => exact h.eventDone hlog
  | some result =>
    simp only
    split
    · exact h.eventDone hlog
    · have hsubmitted : Working log { v with submissions := v.submissions ++ [result] } run :=
        ⟨h.toRunsOnce.submit h.knows hc hr, h.stored, h.saved, h.knows.submit hc hr⟩
      exact @Working.held _ _ _ hsubmitted (.submitting call seq) ⟨run, rfl, hc⟩

theorem Working.fail : Held log v.fail := by
  unfold View.fail
  split
  · exact h.held trivial
  · exact @Held.ended _ (v.store none) h.toRunsOnce rfl

theorem Working.settle
    (hlog : (log.filterMap HostedRunEvent.call).length ≤ Agent.maxToolCalls)
    (hid : call.callId ∈ (log.filterMap HostedRunEvent.call).map (·.callId))
    (hshort : optionalBoundedString call.message = true ∧ optionalBoundedString call.error = true)
    (hnew : ∀ result ∈ v.submissions, result.callId ≠ call.callId) :
    Held log ((v.updateStoredCall call).submitStored call seq) := by
  rw [updateStoredCall_working h]
  exact (h.store hlog (h.knows.update hid hshort hnew)).submitStored hlog self_mem_withCall

theorem Working.handleHostedTool
    (hlog : (log.filterMap HostedRunEvent.call).length ≤ Agent.maxToolCalls)
    (hm : .toolCall toolCall ∈ log) :
    Held log (v.handleHostedTool getCommand toolCall seq requestId) := by
  have hid : toolCall.callId ∈ (log.filterMap HostedRunEvent.call).map (·.callId) :=
    mem_map_of_mem (mem_filterMap.mpr ⟨_, hm, rfl⟩)
  unfold View.handleHostedTool
  rw [h.stored, Option.bind_some]
  cases hf : run.calls.find? (·.callId == toolCall.callId) with
  | some stored =>
    have hc := mem_of_find?_eq_some hf
    simp only
    cases hs : stored.state with
    | executing =>
      have hunsubmitted : ∀ result ∈ v.submissions, result.callId ≠ stored.callId := h.knows.unsubmitted hc hs
      exact h.settle hlog (h.knows.logged stored hc) ⟨(h.knows.short stored hc).1, outcomeUnknown_short⟩ hunsubmitted
    | terminal => exact h.submitStored hlog hc
  | none =>
    have hunknown : ∀ stored ∈ run.calls, stored.callId ≠ toolCall.callId := by
      intro stored hc heq
      exact find?_eq_none.mp hf stored hc (beq_iff_eq.mpr heq)
    have hnew : ∀ result ∈ v.submissions, result.callId ≠ toolCall.callId := by
      intro result hr heq
      obtain ⟨stored, hc, hs⟩ := h.knows.submitted result hr
      exact hunknown stored hc ((resultOf_callId hs).symm.trans heq)
    have hunlaunched : toolCall.callId ∉ v.launches.map (·.callId) := by
      intro hl
      obtain ⟨other, ho, heq⟩ := mem_map.mp hl
      obtain ⟨stored, hc, hs⟩ := h.knows.launched other ho
      exact hunknown stored hc (hs.trans heq)
    simp only
    split
    · let stored : StoredHostedToolCall :=
        ⟨toolCall.callId, requestId, toolCall.commandId, .executing, none, none, none⟩
      rw [updateStoredCall_working h]
      have hstored : Working log (v.store (some (withCall run stored))) (withCall run stored) :=
        h.store hlog (h.knows.update hid ⟨rfl, rfl⟩ hnew)
      have hlaunched : Working log
          { v.store (some (withCall run stored)) with launches := v.launches ++ [toolCall] } (withCall run stored) :=
        ⟨h.toRunsOnce.launch hunlaunched, hstored.stored, hstored.saved,
          hstored.knows.launch self_mem_withCall rfl⟩
      exact @Working.held _ _ _ hlaunched (.running stored seq) ⟨_, rfl, self_mem_withCall, rfl⟩
    · exact h.settle hlog hid ⟨rfl, contractMismatch_short⟩ hnew

theorem Working.congr {v' : View} (hstored : v'.pill.storedRun = v.pill.storedRun)
    (hsaved : v'.saved = v.saved) (hlaunches : v'.launches = v.launches)
    (hsubmissions : v'.submissions = v.submissions) : Working log v' run where
  once := hlaunches ▸ h.once
  same := hsubmissions ▸ h.same
  stored := hstored.trans h.stored
  saved := hsaved.trans h.saved
  knows := by
    rw [hlaunches, hsubmissions]
    exact h.knows

end

theorem Held.deliver (h : Held log v) (hlog : (log.filterMap HostedRunEvent.call).length ≤ Agent.maxToolCalls)
    : Held log (v.deliver getCommand log seq requestId) := by
  unfold View.deliver
  split
  · exact h
  rename_i hguard
  rw [not_or, Decidable.not_not] at hguard
  obtain ⟨run, hw⟩ := h.working (by rw [hguard.1]; decide)
  have hread : Working log { v with pill := { v.pill with after := seq } } run := hw.congr rfl rfl rfl rfl
  cases he : log[seq - 1]? with
  | none => exact h
  | some event =>
    cases event with
    | runStarted runId documentId =>
      simp only
      split
      · exact hread.fail
      · exact hread.eventDone hlog
    | toolCall call => exact hread.handleHostedTool hlog (mem_of_getElem? he)
    | terminal =>
      exact @Held.ended _ (View.store { v with pill := { v.pill with after := seq } } none) hread.toRunsOnce rfl
    | assistantDelta => exact hread.eventDone hlog
    | toolResultAccepted => exact hread.eventDone hlog

theorem Held.finish (h : Held log v) (hlog : (log.filterMap HostedRunEvent.call).length ≤ Agent.maxToolCalls)
    {status : Agent.ToolResultStatus} {message error : Option JsString}
    (hshort : optionalBoundedString message = true ∧ optionalBoundedString error = true) :
    Held log (v.finish status message error) := by
  unfold View.finish
  cases hs : v.pill.stage with
  | running call seq =>
    obtain ⟨run, hw⟩ := h.working (by rw [hs]; exact Stage.noConfusion)
    have hm := h.meets
    rw [hs] at hm
    obtain ⟨record, hr, hc, hexecuting⟩ := hm
    obtain rfl : run = record := Option.some.inj (hw.saved.symm.trans hr)
    have hunsubmitted : ∀ result ∈ v.submissions, result.callId ≠ call.callId := hw.knows.unsubmitted hc hexecuting
    exact hw.settle hlog (hw.knows.logged call hc) hshort hunsubmitted
  | reading => exact h
  | submitting call seq => exact h
  | ended => exact h

theorem Held.retry (h : Held log v) : Held log v.retry := by
  unfold View.retry
  cases hs : v.pill.stage with
  | submitting call seq =>
    obtain ⟨run, hw⟩ := h.working (by rw [hs]; exact Stage.noConfusion)
    have hm := h.meets
    rw [hs] at hm
    obtain ⟨record, hr, hc⟩ := hm
    obtain rfl : run = record := Option.some.inj (hw.saved.symm.trans hr)
    simp only
    cases hresult : resultOf call with
    | none => exact h
    | some result =>
      simp only
      split
      · exact h
      have hsubmitted : Working log { v with submissions := v.submissions ++ [result] } run :=
        ⟨hw.toRunsOnce.submit hw.knows hc hresult, hw.stored, hw.saved, hw.knows.submit hc hresult⟩
      have hheld := @Working.held _ _ _ hsubmitted (.submitting call seq) ⟨run, rfl, hc⟩
      unfold View.setStage at hheld
      rw [← hs] at hheld
      exact hheld
  | reading => exact h
  | running call seq => exact h
  | ended => exact h

theorem Held.accepted (h : Held log v) (hlog : (log.filterMap HostedRunEvent.call).length ≤ Agent.maxToolCalls) :
    Held log v.accepted := by
  unfold View.accepted
  cases hs : v.pill.stage with
  | submitting call seq =>
    obtain ⟨run, hw⟩ := h.working (by rw [hs]; exact Stage.noConfusion)
    exact hw.eventDone hlog
  | reading => exact h
  | running call seq => exact h
  | ended => exact h

theorem Held.broken (h : Held log v) : Held log v.broken := by
  unfold View.broken
  cases hs : v.pill.stage with
  | reading =>
    obtain ⟨run, hw⟩ := h.working (by rw [hs]; exact Stage.noConfusion)
    exact hw.fail
  | submitting call seq =>
    obtain ⟨run, hw⟩ := h.working (by rw [hs]; exact Stage.noConfusion)
    exact hw.fail
  | running call seq => exact h
  | ended => exact h

theorem Held.unmount (h : Held log v) : Held log v.unmount := by
  unfold View.unmount
  split
  · rename_i hs
    obtain ⟨run, hw⟩ := h.working (by rw [hs]; exact Stage.noConfusion)
    have hgone : Working log { v with pill := { v.pill with aborted := true } } run := hw.congr rfl rfl rfl rfl
    exact @Working.held _ _ _ hgone .ended trivial
  · exact ⟨h.toRunsOnce, h.known, h.current, h.meets⟩

end

/-! ## A component that has ended -/

section
variable {log : List HostedRunEvent} {getCommand : JsString → Option AgentCommand} {v : View}

theorem step_ended (h : v.pill.stage = .ended) (event : PillEvent) :
    (v.step getCommand log event).pill.stage = .ended ∧ (v.step getCommand log event).storage = v.storage ∧
      (v.step getCommand log event).saved = v.saved ∧ (v.step getCommand log event).launches = v.launches ∧
      (v.step getCommand log event).submissions = v.submissions := by
  have hnot : v.pill.stage ≠ .reading := by
    rw [h]
    exact Stage.noConfusion
  cases event with
  | deliver seq requestId =>
    unfold View.step View.deliver
    simp only
    rw [if_pos (Or.inl hnot)]
    exact ⟨h, rfl, rfl, rfl, rfl⟩
  | finish status message error =>
    unfold View.step View.finish
    simp only [h, and_self]
  | retry =>
    unfold View.step View.retry
    simp only [h, and_self]
  | accepted =>
    unfold View.step View.accepted
    simp only [h, and_self]
  | broken =>
    unfold View.step View.broken
    simp only [h, and_self]
  | unmount =>
    unfold View.step View.unmount
    simp only
    rw [if_neg hnot]
    exact ⟨h, rfl, rfl, rfl, rfl⟩

end

/-! ## The browser -/

section
variable {log : List HostedRunEvent} {getCommand : JsString → Option AgentCommand} {documentId : JsString}
  {browser : Browser} {tab i other j : Nat} {v v' w : View}

theorem Held.step (h : Held log v) (hlog : (log.filterMap HostedRunEvent.call).length ≤ Agent.maxToolCalls)
    {event : PillEvent} (hg : Guarded documentId browser (.pill tab i event)) : Held log (v.step getCommand log event) := by
  cases event with
  | deliver => exact h.deliver hlog
  | finish => exact h.finish hlog hg
  | retry => exact h.retry
  | accepted => exact h.accepted hlog
  | broken => exact h.broken
  | unmount => exact h.unmount

/-- At most one component has not ended, and it is held; the record saved last knows what was done. -/
structure Sound (log : List HostedRunEvent) (browser : Browser) : Prop
    extends RunsOnce browser.launches browser.submissions where
  known : ∀ run ∈ browser.saved, Knows log browser.launches browser.submissions run
  alone : ∀ {tab i other j : Nat} {v w : View}, browser.view? tab i = some v → browser.view? other j = some w →
    v.pill.stage ≠ .ended → w.pill.stage ≠ .ended → tab = other ∧ i = j
  held : ∀ {tab i : Nat} {v : View}, browser.view? tab i = some v → Held log v

theorem view?_some : browser.view? tab i = some v ↔ ∃ found pill, browser.tabs[tab]? = some found ∧
    found.pills[i]? = some pill ∧
    v = ⟨pill, found.storage, browser.saved, browser.launches, browser.submissions⟩ := by
  unfold Browser.view?
  rw [Option.bind_eq_some_iff]
  constructor
  · rintro ⟨found, hf, hm⟩
    obtain ⟨pill, hp, rfl⟩ := Option.map_eq_some_iff.mp hm
    exact ⟨found, pill, hf, hp, rfl⟩
  · rintro ⟨found, pill, hf, hp, rfl⟩
    exact ⟨found, hf, Option.map_eq_some_iff.mpr ⟨pill, hp, rfl⟩⟩

theorem view?_putView (hv : browser.view? tab i = some v) (hw : (browser.putView tab i w).view? other j = some v') :
    (tab = other ∧ i = j ∧ v' = w) ∨
      ¬(tab = other ∧ i = j) ∧ ∃ u, browser.view? other j = some u ∧ v'.pill = u.pill ∧ v'.saved = w.saved ∧
        v'.launches = w.launches ∧ v'.submissions = w.submissions := by
  obtain ⟨found, pill, hf, hp, rfl⟩ := view?_some.mp hv
  obtain ⟨found', pill', hf', hp', rfl⟩ := view?_some.mp hw
  unfold Browser.putView at hf'
  simp only at hf'
  rw [getElem?_modify] at hf'
  by_cases ht : tab = other
  · subst ht
    rw [hf] at hf'
    simp only [if_true, Option.map_eq_map, Option.map_some, Option.some.injEq] at hf'
    subst hf'
    simp only at hp'
    rw [getElem?_set] at hp'
    by_cases hi : i = j
    · subst hi
      have hlt : i < found.pills.length := (List.getElem?_eq_some_iff.mp hp).1
      rw [if_pos rfl, if_pos hlt] at hp'
      cases hp'
      exact .inl ⟨rfl, rfl, rfl⟩
    · rw [if_neg hi] at hp'
      exact .inr ⟨fun hc => hi hc.2, _, view?_some.mpr ⟨found, pill', hf, hp', rfl⟩, rfl, rfl, rfl, rfl⟩
  · simp only [if_neg ht, Option.map_eq_map, Option.map_id'] at hf'
    exact .inr ⟨fun hc => ht hc.1, _, view?_some.mpr ⟨found', pill', hf', hp', rfl⟩, rfl, rfl, rfl, rfl⟩

theorem Held.elsewhere (h : Held log w) (hs : v.pill.stage = .ended) (hsaved : v.saved = w.saved)
    (hlaunches : v.launches = w.launches) (hsubmissions : v.submissions = w.submissions) : Held log v where
  once := hlaunches ▸ h.once
  same := hsubmissions ▸ h.same
  known := by
    rw [hsaved, hlaunches, hsubmissions]
    exact h.known
  current hne := absurd hs hne
  meets := by
    rw [hs]
    trivial

theorem Sound.putView (h : Sound log browser) (hv : browser.view? tab i = some v) {event : PillEvent}
    (hstep : Held log (v.step getCommand log event)) :
    Sound log (browser.putView tab i (v.step getCommand log event)) := by
  -- An ended component stays ended, and every other one has ended where this one has not.
  have hends : ∀ {u : View} {other j : Nat}, browser.view? other j = some u → u.pill.stage ≠ .ended →
      (v.step getCommand log event).pill.stage ≠ .ended → tab = other ∧ i = j := by
    intro u other j hu hgoing hstill
    refine h.alone hv hu (fun hended => hstill ?_) hgoing
    exact (step_ended hended event).1
  refine ⟨hstep.toRunsOnce, hstep.known, ?_, ?_⟩
  · intro t₁ i₁ t₂ i₂ v₁ v₂ h₁ h₂ hg₁ hg₂
    rcases view?_putView hv h₁ with ⟨rfl, rfl, rfl⟩ | ⟨hne₁, u₁, hu₁, hp₁, _⟩
    · rcases view?_putView hv h₂ with ⟨rfl, rfl, rfl⟩ | ⟨_, u₂, hu₂, hp₂, _⟩
      · exact ⟨rfl, rfl⟩
      · rw [hp₂] at hg₂
        exact hends hu₂ hg₂ hg₁
    · rw [hp₁] at hg₁
      rcases view?_putView hv h₂ with ⟨rfl, rfl, rfl⟩ | ⟨_, u₂, hu₂, hp₂, _⟩
      · exact absurd (hends hu₁ hg₁ hg₂) hne₁
      · rw [hp₂] at hg₂
        exact h.alone hu₁ hu₂ hg₁ hg₂
  · intro t₁ i₁ v₁ h₁
    rcases view?_putView hv h₁ with ⟨rfl, rfl, rfl⟩ | ⟨hne, u, hu, hp, hs, hl, hm⟩
    · exact hstep
    by_cases hended : u.pill.stage = .ended
    · exact hstep.elsewhere (hp ▸ hended) hs hl hm
    -- The one component that is going is not the one that stepped, which had ended.
    have hwas : v.pill.stage = .ended := by
      by_cases hgoing : v.pill.stage = .ended
      · exact hgoing
      · exact absurd (h.alone hv hu hgoing hended) hne
    obtain ⟨_, _, hs', hl', hm'⟩ := @step_ended log getCommand v hwas event
    obtain ⟨_, _, _, _, rfl⟩ := view?_some.mp hu
    obtain ⟨_, _, _, _, rfl⟩ := view?_some.mp hv
    have hheld := h.held hu
    refine ⟨?_, ?_, ?_, ?_⟩
    · rw [hl, hm, hl', hm']
      exact hheld.toRunsOnce
    · rw [hs, hl, hm, hs', hl', hm']
      exact hheld.known
    · rw [hp, hs, hs']
      exact hheld.current
    · rw [hp, hs, hs']
      exact hheld.meets

theorem Sound.fewer (h : Sound log browser) {browser' : Browser} (hsaved : browser'.saved = browser.saved)
    (hlaunches : browser'.launches = browser.launches) (hsubmissions : browser'.submissions = browser.submissions)
    (hviews : ∀ tab i v, browser'.view? tab i = some v → ∃ u, browser.view? tab i = some u ∧ v.pill = u.pill) :
    Sound log browser' where
  once := hlaunches ▸ h.once
  same := hsubmissions ▸ h.same
  known := by
    rw [hsaved, hlaunches, hsubmissions]
    exact h.known
  alone := by
    intro t₁ i₁ t₂ i₂ v₁ v₂ h₁ h₂ hg₁ hg₂
    obtain ⟨u₁, hu₁, hp₁⟩ := hviews _ _ _ h₁
    obtain ⟨u₂, hu₂, hp₂⟩ := hviews _ _ _ h₂
    exact h.alone hu₁ hu₂ (hp₁ ▸ hg₁) (hp₂ ▸ hg₂)
  held := by
    intro t i v hv
    obtain ⟨u, hu, hp⟩ := hviews _ _ _ hv
    have hheld := h.held hu
    obtain ⟨_, _, _, _, rfl⟩ := view?_some.mp hu
    obtain ⟨_, pill, _, _, rfl⟩ := view?_some.mp hv
    simp only at hp
    subst hp
    refine ⟨?_, ?_, ?_, ?_⟩
    · rw [hlaunches, hsubmissions]
      exact hheld.toRunsOnce
    · rw [hsaved, hlaunches, hsubmissions]
      exact hheld.known
    · rw [hsaved]
      exact hheld.current
    · rw [hsaved]
      exact hheld.meets

theorem idle_spec (h : idle browser = true) (hv : browser.view? tab i = some v) : v.pill.stage = .ended := by
  obtain ⟨found, pill, hf, hp, rfl⟩ := view?_some.mp hv
  unfold idle at h
  have hall := all_eq_true.mp (all_eq_true.mp h found (mem_of_getElem? hf)) pill (mem_of_getElem? hp)
  exact beq_iff_eq.mp hall

variable {now : Nat}

theorem view?_mount (hv : (browser.mount documentId tab now).view? other i = some v) :
    (∃ u, browser.view? other i = some u ∧ v.pill = u.pill) ∨
      ∃ found record, browser.tabs[tab]? = some found ∧ record ∈ resumed documentId browser tab now ∧
        other = tab ∧ i = found.pills.length ∧ v.pill = ⟨record, some record, record.lastEventId, .reading, false⟩ := by
  obtain ⟨found, pill, hf, hp, rfl⟩ := view?_some.mp hv
  unfold Browser.mount at hf
  simp only [getElem?_modify] at hf
  by_cases ht : tab = other
  · subst ht
    simp only [if_true, Option.map_eq_map] at hf
    obtain ⟨was, hw, heq⟩ := Option.map_eq_some_iff.mp hf
    cases hr : readActiveHostedRun documentId now was.storage with
    | none =>
      rw [hr] at heq
      simp only at heq
      subst heq
      exact .inl ⟨_, view?_some.mpr ⟨was, pill, hw, hp, rfl⟩, rfl⟩
    | some record =>
      rw [hr] at heq
      simp only at heq
      subst heq
      rcases Nat.lt_or_ge i was.pills.length with hlt | hge
      · rw [getElem?_append_left hlt] at hp
        exact .inl ⟨_, view?_some.mpr ⟨was, pill, hw, hp, rfl⟩, rfl⟩
      rw [getElem?_append_right hge, getElem?_singleton] at hp
      split at hp
      · rename_i hz
        cases hp
        refine .inr ⟨was, record, hw, ?_, rfl, by omega, rfl⟩
        unfold resumed
        rw [hw]
        exact hr
      · cases hp
  · simp only [if_neg ht, Option.map_eq_map, Option.map_id'] at hf
    exact .inl ⟨_, view?_some.mpr ⟨found, pill, hf, hp, rfl⟩, rfl⟩

theorem Sound.mount (h : Sound log browser) (hg : Guarded documentId browser (.mount tab now)) :
    Sound log (browser.mount documentId tab now) where
  toRunsOnce := h.toRunsOnce
  known := h.known
  alone := by
    intro t₁ i₁ t₂ i₂ v₁ v₂ h₁ h₂ hg₁ hg₂
    rcases view?_mount h₁ with ⟨u₁, hu₁, hp₁⟩ | ⟨found₁, record, hf₁, hr, rfl, rfl, _⟩
    · rcases view?_mount h₂ with ⟨u₂, hu₂, hp₂⟩ | ⟨_, record, _, hr, _⟩
      · exact h.alone hu₁ hu₂ (hp₁ ▸ hg₁) (hp₂ ▸ hg₂)
      · exact absurd (hp₁ ▸ idle_spec (hg record hr).1 hu₁) hg₁
    rcases view?_mount h₂ with ⟨u₂, hu₂, hp₂⟩ | ⟨found₂, _, hf₂, _, rfl, rfl, _⟩
    · exact absurd (hp₂ ▸ idle_spec (hg record hr).1 hu₂) hg₂
    · rw [hf₁] at hf₂
      cases hf₂
      exact ⟨rfl, rfl⟩
  held := by
    intro t i v hv
    rcases view?_mount hv with ⟨u, hu, hp⟩ | ⟨found, record, _, hr, _, _, hp⟩
    · have hheld := h.held hu
      obtain ⟨_, _, _, _, rfl⟩ := view?_some.mp hu
      obtain ⟨_, pill, _, _, rfl⟩ := view?_some.mp hv
      simp only at hp
      subst hp
      exact ⟨hheld.toRunsOnce, hheld.known, hheld.current, hheld.meets⟩
    · have hsaved := (hg record hr).2
      obtain ⟨_, pill, _, _, rfl⟩ := view?_some.mp hv
      simp only at hp
      subst hp
      refine ⟨h.toRunsOnce, h.known, fun _ => hsaved.symm, ?_⟩
      show browser.saved.isSome = true
      rw [hsaved]
      rfl

theorem Sound.step (h : Sound log browser) (hlog : (log.filterMap HostedRunEvent.call).length ≤ Agent.maxToolCalls)
    {event : BrowserEvent} (hg : Guarded documentId browser event) :
    Sound log (browser.step getCommand log documentId event) := by
  cases event with
  | pill tab i event =>
    cases hv : browser.view? tab i with
    | none =>
      have hsame : browser.step getCommand log documentId (.pill tab i event) = browser := by
        simp only [Browser.step, hv]
      rw [hsame]
      exact h
    | some v =>
      have hput : browser.step getCommand log documentId (.pill tab i event) =
          browser.putView tab i (v.step getCommand log event) := by
        simp only [Browser.step, hv]
      rw [hput]
      exact h.putView hv ((h.held hv).step hlog hg)
  | mount tab now => exact h.mount hg
  | reload tab =>
    refine h.fewer rfl rfl rfl fun t i v hv => ?_
    obtain ⟨found, pill, hf, hp, rfl⟩ := view?_some.mp hv
    unfold Browser.step at hf
    simp only [getElem?_modify] at hf
    by_cases ht : tab = t
    · simp only [if_pos ht, Option.map_eq_map] at hf
      obtain ⟨was, _, rfl⟩ := Option.map_eq_some_iff.mp hf
      cases hp
    · simp only [if_neg ht, Option.map_eq_map, Option.map_id'] at hf
      exact ⟨_, view?_some.mpr ⟨found, pill, hf, hp, rfl⟩, rfl⟩
  | duplicate tab =>
    refine h.fewer rfl rfl rfl fun t i v hv => ?_
    obtain ⟨found, pill, hf, hp, rfl⟩ := view?_some.mp hv
    unfold Browser.step at hf
    simp only at hf
    rcases Nat.lt_or_ge t browser.tabs.length with hlt | hge
    · rw [getElem?_append_left hlt] at hf
      exact ⟨_, view?_some.mpr ⟨found, pill, hf, hp, rfl⟩, rfl⟩
    rw [getElem?_append_right hge] at hf
    have hm := mem_of_getElem? hf
    rw [Option.mem_toList] at hm
    obtain ⟨was, _, rfl⟩ := Option.map_eq_some_iff.mp hm
    cases hp

theorem started_sound {runId eventsUrl : JsString} {expiresAtMs : Nat} :
    Sound log (Browser.started documentId runId requestId eventsUrl expiresAtMs) := by
  have hnone : ∀ run : ActiveHostedRunRecord, run.calls = [] → Knows log [] [] run := by
    intro run hc
    refine ⟨fun _ hm => (by cases hm), fun _ hm => (by cases hm), ?_, ?_, ?_⟩
    · rw [hc]
      exact nodup_nil
    · rw [hc]
      exact fun _ hm => (by cases hm)
    · rw [hc]
      exact fun _ hm => (by cases hm)
  have honly : ∀ {t i : Nat} {v : View},
      (Browser.started documentId runId requestId eventsUrl expiresAtMs).view? t i = some v → t = 0 ∧ i = 0 := by
    intro t i v hv
    obtain ⟨found, pill, hf, hp, _⟩ := view?_some.mp hv
    rw [Browser.started, getElem?_singleton] at hf
    split at hf
    · rename_i ht
      cases hf
      rw [getElem?_singleton] at hp
      split at hp
      · rename_i hi
        exact ⟨ht, hi⟩
      · cases hp
    · cases hf
  refine ⟨⟨nodup_nil, fun _ hm => (by cases hm)⟩, ?_, ?_, ?_⟩
  · intro run hm
    cases hm
    exact hnone _ rfl
  · intro t₁ i₁ t₂ i₂ v₁ v₂ h₁ h₂ _ _
    obtain ⟨rfl, rfl⟩ := honly h₁
    obtain ⟨rfl, rfl⟩ := honly h₂
    exact ⟨rfl, rfl⟩
  · intro t i v hv
    obtain ⟨rfl, rfl⟩ := honly hv
    cases hv
    refine ⟨⟨nodup_nil, fun _ hm => (by cases hm)⟩, ?_, fun _ => rfl, rfl⟩
    intro run hm
    cases hm
    exact hnone _ rfl

end

/-- While receipts are short and each component that resumes does so alone and from the record saved last, no call
id is launched twice, and one call id is always submitted as one request body. -/
theorem tool_calls_run_once {getCommand : JsString → Option AgentCommand} {log : List HostedRunEvent}
    (hlog : (log.filterMap HostedRunEvent.call).length ≤ Agent.maxToolCalls)
    {documentId runId requestId eventsUrl : JsString} {expiresAtMs : Nat} {events : List BrowserEvent}
    (hg : Transition.Along (Browser.step getCommand log documentId) (Guarded documentId)
      (Browser.started documentId runId requestId eventsUrl expiresAtMs) events) :
    RunsOnce
      (Transition.run (Browser.step getCommand log documentId)
        (Browser.started documentId runId requestId eventsUrl expiresAtMs) events).launches
      (Transition.run (Browser.step getCommand log documentId)
        (Browser.started documentId runId requestId eventsUrl expiresAtMs) events).submissions :=
  (Transition.run_inv (I := Sound log) (fun _ _ h hc => h.step hlog hc) started_sound hg).toRunsOnce

/-! ## Runs that launch twice or submit another body -/

namespace Runs

def command : JsString := [115]
def call : ToolCall := ⟨[99], command, expectedName command, [], .read, .ephemeral⟩
def log : List HostedRunEvent := [.toolCall call]
def registry : JsString → Option AgentCommand := fun _ => some ⟨true, .read⟩

def after (events : List BrowserEvent) : Browser :=
  Transition.run (Browser.step registry log [100]) (Browser.started [100] [114] [113] [117] 10) events

def duplicated : List BrowserEvent :=
  [.duplicate 0, .mount 1 0, .pill 0 0 (.deliver 1 [1]), .pill 1 0 (.deliver 1 [2])]

def truncated : List BrowserEvent :=
  [.pill 0 0 (.deliver 1 [1]), .pill 0 0 (.finish .succeeded (some (List.replicate 1025 120)) none), .reload 0,
    .mount 0 0, .pill 0 0 (.deliver 1 [2])]

theorem call_launched_twice_and_body_changed :
    ¬((after duplicated).launches.map (·.callId)).Nodup ∧
      ∃ result ∈ (after truncated).submissions, ∃ other ∈ (after truncated).submissions,
        result.callId = other.callId ∧ result ≠ other := by
  decide +kernel

def replayed : List BrowserEvent :=
  [.pill 0 0 (.deliver 1 [1]), .pill 0 0 (.finish .succeeded (some [120]) none), .reload 0, .mount 0 0,
    .pill 0 0 (.deliver 1 [2]), .pill 0 0 .accepted]

theorem replayed_runs_once :
    (after replayed).submissions.length = 2 ∧ RunsOnce (after replayed).launches (after replayed).submissions :=
  ⟨by decide +kernel, tool_calls_run_once (by decide) (by decide +kernel)⟩

end Runs

end Marks.AgentPill
