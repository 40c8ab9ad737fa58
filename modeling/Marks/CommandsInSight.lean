import Marks.CommandsSound

/-! # Runs in sight

The published list keeps the last twelve runs that were created, whatever became of them. A run without a receipt
stays in it as long as every creation finds it among the last eleven. -/

namespace Marks

open CommandRuntime

/-- **Pending runs are in sight**: a run that was created and has no receipt is published as it is. -/
def InSight (runtime : CommandRuntime) : Prop :=
  ∀ first bypassApproval, .created first bypassApproval ∈ runtime.log →
    (∀ receipt, .resolved receipt ∈ runtime.log → receipt.id ≠ first.id) →
      ∃ run ∈ runtime.pending, run.id = first.id ∧ run ∈ runtime.runs

/-- A call that creates a run finds those without a receipt among the eleven created last. -/
def FindsRecent (options : CommandRuntimeOptions) (runtime : CommandRuntime) : CommandEvent → Prop
  | .start commandId _ | .propose commandId _ _ => options.registry commandId ≠ none →
    ∀ run ∈ runtime.pending, run ∈ runtime.runs.drop (runtime.runs.length - 11)
  | _ => True

def Published (runtime : CommandRuntime) : Prop := ∀ run ∈ runtime.pending, run ∈ runtime.runs

section
variable {options : CommandRuntimeOptions} {runtime : CommandRuntime} {runId : String}

theorem inSight_iff (h : Lifecycle options runtime) : InSight runtime ↔ Published runtime := by
  constructor
  · intro hsight run hrun
    obtain ⟨⟨entry, hentry, hcreates⟩, hunresolved⟩ := h.unresolved run hrun
    cases entry with
    | created first bypass =>
      have hid : first.id = run.id := beq_iff_eq.mp hcreates
      have hnone : ∀ receipt, .resolved receipt ∈ runtime.log → receipt.id ≠ first.id := fun receipt hr heq =>
        absurd (hunresolved _ hr) (by simp [CommandLog.resolves, heq, hid])
      obtain ⟨same, hsame, hsameId, hruns⟩ := hsight first bypass hentry hnone
      have heq : same = run := List.inj_on_of_nodup_map h.distinct hsame hrun (hsameId.trans hid)
      exact heq ▸ hruns
    | _ => cases hcreates
  · intro hpublished first bypass hcreated hnone
    rcases h.ended first bypass hcreated with hpending | ⟨receipt, hr, hid⟩
    · obtain ⟨run, hrun, hid⟩ := List.mem_map.mp hpending
      exact ⟨run, hrun, hid, hpublished run hrun⟩
    · exact absurd hid (hnone receipt hr)

/-! ## What keeps them in sight -/

theorem Published.update (h : Published runtime) {patch : CommandRun → CommandRun} :
    Published (runtime.update runId patch) := by
  unfold CommandRuntime.update
  split
  · exact h
  · intro run hrun
    obtain ⟨old, hold, rfl⟩ := List.mem_map.mp hrun
    exact List.mem_map.mpr ⟨old, h old hold, rfl⟩

theorem Published.finish (h : Published runtime) {status : CommandRunStatus} {message : Option String} :
    Published (runtime.finish options runId status message) := by
  unfold CommandRuntime.finish
  split
  · exact h
  rename_i found hfound
  intro run hrun
  obtain ⟨hold, hid⟩ := List.mem_filter.mp hrun
  have hne : run.id ≠ (runtime.receipt found status message).id := by
    show run.id ≠ found.id
    rw [(find_id hfound).2]
    simpa using hid
  exact List.mem_map.mpr ⟨run, h run hold, if_neg hne⟩

theorem Published.execute (h : Published runtime) : Published (runtime.execute options runId) := by
  unfold CommandRuntime.execute
  split
  · exact h
  split
  · exact h
  split
  · exact h
  dsimp only
  split
  · exact h.finish
  · exact h.update

theorem Published.complete (h : Published runtime) {outcome : CommandOutcome} :
    Published (runtime.complete options runId outcome) := by
  unfold CommandRuntime.complete
  split
  · have herased : Published { runtime with calls := runtime.calls.erase runId } := h
    dsimp only
    obtain ⟨status, message, -, heq⟩ := @settle_finishes options { runtime with calls := runtime.calls.erase runId } runId
      (((runtime.find runId).bind fun run => options.registry run.commandId).elim "" (·.label)) outcome
    rw [heq]
    exact herased.finish
  · exact h

theorem finish_still {status : CommandRunStatus} {message : Option String}
    (h : Published (runtime.finish options runId status message)) {run : CommandRun} (hrun : run ∈ runtime.pending)
    (hne : run.id ≠ runId) : run ∈ runtime.runs := by
  unfold CommandRuntime.finish at h
  split at h
  · exact h run hrun
  rename_i found hfound
  rcases mem_replace (h run (List.mem_filter.mpr ⟨hrun, by simpa using hne⟩)) with rfl | hold
  · exact absurd (find_id hfound).2 hne
  · exact hold.1

theorem published_create (hnew : ∀ run ∈ runtime.pending, run.id ≠ options.id runtime.drawn) {run : CommandRun}
    (hid : run.id = options.id runtime.drawn) {bypassApproval : Bool} :
    Published (runtime.create options run bypassApproval) ↔
      ∀ old ∈ runtime.pending, old ∈ runtime.runs.drop (runtime.runs.length - 11) := by
  have hruns : sliceLast 12 (runtime.runs ++ [run]) = runtime.runs.drop (runtime.runs.length - 11) ++ [run] := by
    rw [sliceLast, if_neg (by decide), List.length_append, List.length_singleton,
      List.drop_append_of_le_length (by omega)]
    congr 2
  have hold : ∀ {old}, old ∈ runtime.pending → old ∈ sliceLast 12 (runtime.runs ++ [run]) →
      old ∈ runtime.runs.drop (runtime.runs.length - 11) := by
    intro old hpending hmem
    rw [hruns] at hmem
    rcases List.mem_append.mp hmem with hmem | hmem
    · exact hmem
    · rw [List.mem_singleton.mp hmem] at hpending
      exact absurd hid (hnew run hpending)
  have hcreated : (∀ old ∈ runtime.pending, old ∈ runtime.runs.drop (runtime.runs.length - 11)) →
      ∀ old ∈ runtime.pending ++ [run], old ∈ sliceLast 12 (runtime.runs ++ [run]) := by
    intro h old hmem
    rw [hruns]
    rcases List.mem_append.mp hmem with hmem | hmem
    · exact List.mem_append_left _ (h old hmem)
    · exact List.mem_append_right _ hmem
  unfold CommandRuntime.create
  dsimp only
  split
  · constructor
    · intro h old hpending
      exact hold hpending (finish_still h (List.mem_append_left _ hpending) fun heq => hnew old hpending (heq.trans hid))
    intro h
    have hpublished : Published { runtime with
        drawn := runtime.drawn + 1
        pending := runtime.pending ++ [run]
        runs := sliceLast 12 (runtime.runs ++ [run])
        log := .created run bypassApproval :: runtime.log } := hcreated h
    exact hpublished.finish
  · exact ⟨fun h old hpending => hold hpending (h old (List.mem_append_left _ hpending)), hcreated⟩

theorem published_start (h : Published runtime) (hnew : ∀ run ∈ runtime.pending, run.id ≠ options.id runtime.drawn)
    {commandId : String} {invocation : RuntimeInvocation} :
    Published (runtime.start options commandId invocation) ↔
      (options.registry commandId ≠ none →
        ∀ run ∈ runtime.pending, run ∈ runtime.runs.drop (runtime.runs.length - 11)) := by
  unfold CommandRuntime.start
  cases options.registry commandId with
  | none => exact ⟨fun _ hne => absurd rfl hne, fun _ => h⟩
  | some command =>
    have hcreate : Published (runtime.create options (runtime.newRun options commandId command invocation)
        invocation.bypassApproval) ↔ ∀ old ∈ runtime.pending, old ∈ runtime.runs.drop (runtime.runs.length - 11) :=
      published_create hnew rfl
    have hmicrotask : ∀ {created : CommandRuntime} {microtasks : List String} {queued : Prop} [Decidable queued],
        Published (if queued then { created with microtasks } else created) ↔ Published created := by
      intro created microtasks queued _
      split
      · exact Iff.rfl
      · exact Iff.rfl
    dsimp only
    rw [hmicrotask, hcreate]
    exact ⟨fun h _ => h, fun h => h (by simp)⟩

theorem published_step (hids : Function.Injective options.id) (h : Lifecycle options runtime)
    (hpublished : Published runtime) (event : CommandEvent) :
    Published (runtime.step options event) ↔ FindsRecent options runtime event := by
  have hnew : ∀ run ∈ runtime.pending, run.id ≠ options.id runtime.drawn := by
    intro run hrun heq
    obtain ⟨entry, hentry, hcreates⟩ := (h.unresolved run hrun).1
    rw [heq, (h.undrawn hids hentry).1] at hcreates
    cases hcreates
  have hlogged : ∀ entry, Published { runtime with log := entry :: runtime.log } := fun _ => hpublished
  cases event with
  | start commandId invocation => exact published_start hpublished hnew
  | propose commandId input source => exact published_start hpublished hnew
  | approve runId =>
    refine iff_of_true ?_ trivial
    show Published (runtime.approve options runId)
    unfold CommandRuntime.approve
    dsimp only
    split
    · exact hlogged _
    · split
      · exact hlogged _
      · exact (hlogged _).update.execute
  | cancel runId =>
    refine iff_of_true ?_ trivial
    show Published (runtime.cancel options runId)
    unfold CommandRuntime.cancel
    dsimp only
    split
    · exact hlogged _
    split
    · exact hlogged _
    · have haborted : Published { runtime with
          log := .cancelled runId :: runtime.log, aborted := runtime.aborted ++ [runId] } := hpublished
      exact haborted.finish
  | destroy =>
    refine iff_of_true ?_ trivial
    show Published (runtime.destroy options)
    unfold CommandRuntime.destroy
    have haborted : Published { runtime with
        aborted := runtime.aborted ++ runtime.pending.map (·.id), log := .destroyed :: runtime.log } := hpublished
    generalize runtime.pending.map (·.id) = ids at haborted ⊢
    dsimp only
    exact Transition.foldl_rel (R := fun before after => Published before → Published after) (fun _ => id)
      (fun hf hg hs => hg (hf hs)) (fun _ _ _ hs => hs.finish) _ haborted
  | change environment => exact iff_of_true hpublished trivial
  | tick clock => exact iff_of_true hpublished trivial
  | microtask =>
    refine iff_of_true ?_ trivial
    show Published (runtime.microtask options)
    unfold CommandRuntime.microtask
    split
    · exact hpublished
    · rename_i first microtasks hmicrotasks
      have htaken : Published { runtime with microtasks } := hpublished
      exact htaken.execute
  | complete runId outcome => exact iff_of_true hpublished.complete trivial

/-- Pending runs are in sight in every state of a run exactly when every creation finds them among the eleven runs
created last. -/
theorem pending_runs_in_sight_iff (hids : Function.Injective options.id) (environment : CommandEnvironment)
    (events : List CommandEvent) :
    (∀ n, InSight (Transition.run (CommandRuntime.step options) (.initial environment) (events.take n))) ↔
      Transition.Along (CommandRuntime.step options) (FindsRecent options) (.initial environment) events := by
  have hsame : ∀ n, InSight (Transition.run (CommandRuntime.step options) (.initial environment) (events.take n)) ↔
      Published (Transition.run (CommandRuntime.step options) (.initial environment) (events.take n)) := fun n =>
    inSight_iff (run_lifecycle hids environment (events.take n))
  rw [forall_congr' hsame]
  refine Transition.along_iff (I := fun runtime => Lifecycle options runtime ∧ Published runtime) ?_ (fun _ h => h.2) ?_
    ⟨lifecycle_initial, fun _ hrun => by cases hrun⟩
  · exact fun runtime event h hrecent => ⟨h.1.step hids event, (published_step hids h.1 h.2 event).mpr hrecent⟩
  · exact fun runtime event h hrecent hpublished => hrecent ((published_step hids h.1 h.2 event).mp hpublished)

end

/-! ## Twelve runs behind one that waits -/

def printProposed : CommandEvent := .propose "document.print" [] .agent

theorem proposed_in_sight :
    InSight (Transition.run (CommandRuntime.step twoCommands) (.initial openDocument) [printProposed]) := by
  refine (pending_runs_in_sight_iff twoCommands_ids openDocument [printProposed]).mpr ⟨?_, trivial⟩ 1
  exact fun _ run hrun => by cases hrun

/-- Thirteen proposals that need an approval: the first is not published any more, and has no receipt. -/
theorem thirteenth_hides_first :
    ¬ InSight (Transition.run (CommandRuntime.step twoCommands) (.initial openDocument)
      (List.replicate 13 printProposed)) := by
  intro h
  have hpublished := (inSight_iff (run_lifecycle twoCommands_ids openDocument _)).mp h
  revert hpublished
  unfold Published
  decide +kernel

end Marks
