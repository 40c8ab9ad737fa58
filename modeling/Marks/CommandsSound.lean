import Mathlib.Data.List.Nodup
import Marks.Commands

/-! # The life of a command run

A run that is pending stands somewhere: it awaits its approval, its microtask is queued, or its executor's call
is in flight. Whatever ends it takes it off and resolves its one receipt, and only a run that stands at its
microtask or its approval reaches the executor. -/

namespace Marks

open List hiding replace

/-! ## What the log says of a run -/

def CommandLog.creates (runId : String) : CommandLog → Bool
  | .created run _ => run.id == runId
  | _ => false

def CommandLog.executes (runId : String) : CommandLog → Bool
  | .executed id _ => id == runId
  | _ => false

def CommandLog.resolves (runId : String) : CommandLog → Bool
  | .resolved receipt => receipt.id == runId
  | _ => false

def CommandLog.cancels (runId : String) : CommandLog → Bool
  | .cancelled id => id == runId
  | .destroyed => true
  | _ => false

def since (runId : String) (log : List CommandLog) : List CommandLog := log.takeWhile fun entry => !entry.creates runId

section
variable {log : List CommandLog} {entry : CommandLog} {runId : String}

theorem since_cons (h : entry.creates runId = false) : since runId (entry :: log) = entry :: since runId log := by
  unfold since
  rw [takeWhile_cons, h]
  rfl

theorem since_created (h : entry.creates runId = true) : since runId (entry :: log) = [] := by
  unfold since
  rw [takeWhile_cons, h]
  rfl

end

structure CreatedAs (options : CommandRuntimeOptions) (log : List CommandLog) (run first : CommandRun)
    (bypassApproval : Bool) (command : CommandDefinition) : Prop where
  created : .created first bypassApproval ∈ log
  id : first.id = run.id
  commandId : first.commandId = run.commandId
  source : first.source = run.source
  registered : options.registry first.commandId = some command

/-- The executor may be called: the command is available, nothing ended the run, it was not called before, and
an approval came where one is needed. -/
structure MayExecute (options : CommandRuntimeOptions) (log : List CommandLog) (first : CommandRun)
    (bypassApproval : Bool) (command : CommandDefinition) (environment : CommandEnvironment) : Prop where
  created : .created first bypassApproval ∈ log
  registered : options.registry first.commandId = some command
  available : (commandInvocationAvailability command environment first.source).enabled = true
  fresh : ∀ entry ∈ log, entry.executes first.id = false ∧ entry.resolves first.id = false
  going : ∀ entry ∈ since first.id log, entry.cancels first.id = false
  approved : needsApproval command first.source bypassApproval = true → .approved first.id ∈ since first.id log

def CommandOrderly (options : CommandRuntimeOptions) : CommandLog → List CommandLog → Prop
  | .created run _, log => ∀ entry ∈ log, entry.creates run.id = false
  | .executed runId environment, log => ∃ first bypassApproval command, first.id = runId ∧
      MayExecute options log first bypassApproval command environment
  | .resolved receipt, log => receipt.status.isTerminal = true ∧ (∃ entry ∈ log, entry.creates receipt.id = true) ∧
      ∀ entry ∈ log, entry.resolves receipt.id = false
  | _, _ => True

/-! ## The invariant -/

section
variable (options : CommandRuntimeOptions)

structure Waits (log : List CommandLog) (run first : CommandRun) (bypassApproval : Bool)
    (command : CommandDefinition) : Prop extends CreatedAs options log run first bypassApproval command where
  going : ∀ entry ∈ since run.id log, entry.cancels run.id = false
  unexecuted : ∀ entry ∈ log, entry.executes run.id = false

/-- Where a pending run stands. -/
inductive Stands (runtime : CommandRuntime) (run : CommandRun) : Prop
  | awaiting {first bypassApproval command} (hw : Waits options runtime.log run first bypassApproval command)
    (hs : run.status = .awaitingApproval)
  | queued {first bypassApproval command} (hw : Waits options runtime.log run first bypassApproval command)
    (hs : run.status = .proposed) (hm : run.id ∈ runtime.microtasks)
    (ha : needsApproval command run.source bypassApproval = true → .approved run.id ∈ since run.id runtime.log)
  | running (hs : run.status = .running) (hc : run.id ∈ runtime.calls)

structure Kept (runtime : CommandRuntime) : Prop where
  chronicle : Transition.Chronicle (CommandOrderly options) runtime.log
  supplied : ∀ run bypassApproval, .created run bypassApproval ∈ runtime.log →
    ∃ n < runtime.drawn, run.id = options.id n
  distinct : (runtime.pending.map (·.id)).Nodup
  unresolved : ∀ run ∈ runtime.pending, (∃ entry ∈ runtime.log, entry.creates run.id = true) ∧
    ∀ entry ∈ runtime.log, entry.resolves run.id = false
  ended : ∀ run bypassApproval, .created run bypassApproval ∈ runtime.log →
    run.id ∈ runtime.pending.map (·.id) ∨ ∃ receipt, .resolved receipt ∈ runtime.log ∧ receipt.id = run.id
  shown : ∀ run ∈ runtime.runs, ∀ receipt, .resolved receipt ∈ runtime.log → receipt.id = run.id → run = receipt
  listed : ∀ receipt ∈ runtime.receipts, .resolved receipt ∈ runtime.log

structure Lifecycle (runtime : CommandRuntime) : Prop extends Kept options runtime where
  stands : ∀ run ∈ runtime.pending, Stands options runtime run

end

section
open CommandRuntime
variable {options : CommandRuntimeOptions} {runtime : CommandRuntime} {runId : String}

/-! ## Finding and replacing -/

variable {run : CommandRun}

theorem find_id (h : runtime.find runId = some run) : run ∈ runtime.pending ∧ run.id = runId :=
  ⟨mem_of_find?_eq_some h, beq_iff_eq.mp (by simpa using find?_some h)⟩

theorem find_none (h : runtime.find runId = none) : ∀ run ∈ runtime.pending, run.id ≠ runId := by
  intro run hm heq
  exact find?_eq_none.mp h run hm (beq_iff_eq.mpr heq)

theorem replace_ids {runs : List CommandRun} :
    (replace runs run).map (·.id) = runs.map (·.id) := by
  unfold replace
  rw [map_map]
  refine map_congr_left fun other _ => ?_
  rw [Function.comp_apply]
  split
  · rename_i h
    exact h.symm
  · rfl

theorem mem_replace {runs : List CommandRun} {other : CommandRun} (h : other ∈ replace runs run) :
    other = run ∨ other ∈ runs ∧ other.id ≠ run.id := by
  obtain ⟨old, hm, rfl⟩ := mem_map.mp h
  by_cases ho : old.id = run.id
  · rw [if_pos ho]
    exact .inl rfl
  · rw [if_neg ho]
    exact .inr ⟨hm, ho⟩

theorem mem_sliceLast {α : Type} {n : Nat} {l : List α} {a : α} (h : a ∈ sliceLast n l) : a ∈ l := by
  unfold sliceLast at h
  split at h
  · exact h
  · exact mem_of_mem_drop h

/-! ## A run that ends -/

variable {status : CommandRunStatus}

theorem Kept.finish (h : Kept options runtime) (hs : status.isTerminal = true)
    (message : Option String) : Kept options (runtime.finish options runId status message) := by
  unfold CommandRuntime.finish
  split
  · exact h
  rename_i run hf
  obtain ⟨hm, rfl⟩ := find_id hf
  obtain ⟨hcreated, hunresolved⟩ := h.unresolved run hm
  have hother : ∀ {other : CommandRun}, other ∈ runtime.pending.filter (·.id != run.id) →
      other ∈ runtime.pending ∧ other.id ≠ run.id := fun ho =>
    ⟨(mem_filter.mp ho).1, bne_iff_ne.mp (mem_filter.mp ho).2⟩
  refine ⟨⟨⟨hs, hcreated, hunresolved⟩, h.chronicle⟩, fun other bypass ho => ?_, ?_, fun other ho => ?_,
    fun other bypass ho => ?_, fun other ho receipt hr heq => ?_, fun receipt hr => ?_⟩
  · rcases mem_cons.mp ho with ho | ho
    · cases ho
    · exact h.supplied other bypass ho
  · exact h.distinct.sublist (List.filter_sublist.map _)
  · obtain ⟨ho, hne⟩ := hother ho
    obtain ⟨⟨entry, he, hc⟩, hu⟩ := h.unresolved other ho
    refine ⟨⟨entry, mem_cons_of_mem _ he, hc⟩, fun entry he => ?_⟩
    rcases mem_cons.mp he with rfl | he
    · exact beq_false_of_ne fun heq => hne heq.symm
    · exact hu entry he
  · rcases mem_cons.mp ho with ho | ho
    · cases ho
    by_cases heq : other.id = run.id
    · exact .inr ⟨_, mem_cons_self, heq.symm⟩
    rcases h.ended other bypass ho with hp | ⟨receipt, hr, hid⟩
    · obtain ⟨old, hold, hid⟩ := mem_map.mp hp
      refine .inl (mem_map.mpr ⟨old, mem_filter.mpr ⟨hold, bne_iff_ne.mpr ?_⟩, hid⟩)
      rw [hid]
      exact heq
    · exact .inr ⟨receipt, mem_cons_of_mem _ hr, hid⟩
  · rcases mem_replace ho with rfl | ⟨ho, hne⟩
    · rcases mem_cons.mp hr with hr | hr
      · exact (CommandLog.resolved.inj hr).symm
      · have hid : receipt.id = run.id := heq
        exact absurd hid (ne_of_beq_false (hunresolved _ hr))
    · rcases mem_cons.mp hr with hr | hr
      · rw [CommandLog.resolved.inj hr] at heq
        exact absurd heq.symm hne
      · exact h.shown other ho receipt hr heq
  · rcases mem_append.mp (mem_sliceLast hr) with hr | hr
    · exact mem_cons_of_mem _ (h.listed receipt hr)
    · rw [mem_singleton.mp hr]
      exact mem_cons_self

theorem since_append {log entries : List CommandLog} (h : ∀ entry ∈ entries, entry.creates runId = false) :
    since runId (entries ++ log) = entries ++ since runId log := by
  unfold since
  rw [takeWhile_append_of_pos]
  intro entry he
  rw [h entry he]
  rfl

def CommandLog.Spares (runId : String) (entry : CommandLog) : Prop :=
  entry.creates runId = false ∧ entry.cancels runId = false ∧ entry.executes runId = false

theorem Waits.grow {log : List CommandLog} (entries : List CommandLog) {first : CommandRun} {bypassApproval : Bool}
    {command : CommandDefinition} (h : Waits options log run first bypassApproval command)
    (hentries : ∀ entry ∈ entries, entry.Spares run.id) :
    Waits options (entries ++ log) run first bypassApproval command := by
  refine ⟨⟨mem_append_right _ h.created, h.id, h.commandId, h.source, h.registered⟩, fun entry he => ?_,
    fun entry he => ?_⟩
  · rw [since_append fun entry he => (hentries entry he).1] at he
    rcases mem_append.mp he with he | he
    · exact (hentries entry he).2.1
    · exact h.going entry he
  · rcases mem_append.mp he with he | he
    · exact (hentries entry he).2.2
    · exact h.unexecuted entry he

theorem Stands.grow {after : CommandRuntime} (entries : List CommandLog)
    (h : Stands options runtime run) (hlog : after.log = entries ++ runtime.log)
    (hentries : ∀ entry ∈ entries, entry.Spares run.id)
    (hmicrotasks : run.id ∈ runtime.microtasks → run.id ∈ after.microtasks)
    (hcalls : run.id ∈ runtime.calls → run.id ∈ after.calls) : Stands options after run := by
  cases h with
  | awaiting hw hs => exact .awaiting (hlog ▸ hw.grow entries hentries) hs
  | queued hw hs hm ha =>
    refine .queued (hlog ▸ hw.grow entries hentries) hs (hmicrotasks hm) fun hn => ?_
    rw [hlog, since_append fun entry he => (hentries entry he).1]
    exact mem_append_right _ (ha hn)
  | running hs hc => exact .running hs (hcalls hc)

section

variable (h : Kept options runtime)
include h

theorem Kept.finish_lifecycle (hs : status.isTerminal = true)
    (message : Option String) (hstands : ∀ run ∈ runtime.pending, run.id ≠ runId → Stands options runtime run) :
    Lifecycle options (runtime.finish options runId status message) := by
  refine ⟨h.finish hs message, ?_⟩
  unfold CommandRuntime.finish
  split
  · rename_i hf
    exact fun run hm => hstands run hm (find_none hf run hm)
  rename_i ended hf
  obtain ⟨hended, rfl⟩ := find_id hf
  intro run hm
  have hne : run.id ≠ ended.id := bne_iff_ne.mp (mem_filter.mp hm).2
  refine (hstands run (mem_filter.mp hm).1 hne).grow [_] rfl ?_ id id
  intro entry he
  rw [mem_singleton.mp he]
  exact ⟨rfl, rfl, rfl⟩

/-! ## A run that starts -/

theorem Kept.update {patch : CommandRun → CommandRun}
    (hpatch : ∀ run, (patch run).id = run.id) : Kept options (runtime.update runId patch) := by
  unfold CommandRuntime.update
  split
  · exact h
  rename_i run hf
  obtain ⟨hm, rfl⟩ := find_id hf
  have hids : (replace runtime.pending (patch run)).map (·.id) = runtime.pending.map (·.id) := replace_ids
  refine ⟨h.chronicle, h.supplied, ?_, fun other ho => ?_, fun other bypass ho => ?_,
    fun other ho receipt hr heq => ?_, h.listed⟩
  · show ((replace runtime.pending (patch run)).map (·.id)).Nodup
    rw [hids]
    exact h.distinct
  · rcases mem_replace ho with rfl | ⟨ho, _⟩
    · rw [hpatch]
      exact h.unresolved run hm
    · exact h.unresolved other ho
  · show _ ∈ (replace runtime.pending (patch run)).map (·.id) ∨ _
    rw [hids]
    exact h.ended other bypass ho
  · rcases mem_replace ho with rfl | ⟨ho, _⟩
    · rw [hpatch] at heq
      exact absurd heq (ne_of_beq_false ((h.unresolved run hm).2 _ hr))
    · exact h.shown other ho receipt hr heq

theorem Kept.log {entry : CommandLog} (ho : CommandOrderly options entry runtime.log)
    (hcreates : ∀ runId, entry.creates runId = false) (hresolves : ∀ runId, entry.resolves runId = false) :
    Kept options { runtime with log := entry :: runtime.log } := by
  have hold : ∀ {other}, other ∈ entry :: runtime.log → other = entry ∨ other ∈ runtime.log := mem_cons.mp
  refine ⟨⟨ho, h.chronicle⟩, fun run bypass hm => ?_, h.distinct, fun run hm => ?_, fun run bypass hm => ?_,
    fun run hm receipt hr heq => ?_, fun receipt hr => mem_cons_of_mem _ (h.listed receipt hr)⟩
  · rcases hold hm with rfl | hm
    · exact absurd (hcreates run.id) (by rw [CommandLog.creates, beq_self_eq_true]; exact Bool.noConfusion)
    · exact h.supplied run bypass hm
  · obtain ⟨⟨created, hc, hid⟩, hu⟩ := h.unresolved run hm
    refine ⟨⟨created, mem_cons_of_mem _ hc, hid⟩, fun other ho => ?_⟩
    rcases hold ho with rfl | ho
    · exact hresolves run.id
    · exact hu other ho
  · rcases hold hm with rfl | hm
    · exact absurd (hcreates run.id) (by rw [CommandLog.creates, beq_self_eq_true]; exact Bool.noConfusion)
    · rcases h.ended run bypass hm with hp | ⟨receipt, hr, hid⟩
      · exact .inl hp
      · exact .inr ⟨receipt, mem_cons_of_mem _ hr, hid⟩
  · rcases hold hr with rfl | hr
    · exact absurd (hresolves receipt.id) (by rw [CommandLog.resolves, beq_self_eq_true]; exact Bool.noConfusion)
    · exact h.shown run hm receipt hr heq

structure Due (options : CommandRuntimeOptions) (runtime : CommandRuntime) (run first : CommandRun)
    (bypassApproval : Bool) (command : CommandDefinition) : Prop
    extends Waits options runtime.log run first bypassApproval command where
  approved : needsApproval command run.source bypassApproval = true → .approved run.id ∈ since run.id runtime.log

theorem Kept.execute
    (hothers : ∀ run ∈ runtime.pending, run.id ≠ runId → Stands options runtime run)
    (hown : ∀ run ∈ runtime.pending, run.id = runId → run.status ≠ .proposed ∧ Stands options runtime run ∨
      run.status = .proposed ∧ ∃ first bypassApproval command, Due options runtime run first bypassApproval command) :
    Lifecycle options (runtime.execute options runId) := by
  unfold CommandRuntime.execute
  split
  · rename_i hf
    exact ⟨h, fun run hm => hothers run hm (find_none hf run hm)⟩
  rename_i run hf
  obtain ⟨hm, rfl⟩ := find_id hf
  have hstands : Stands options runtime run → Lifecycle options runtime := fun hr =>
    ⟨h, fun other ho => by
      by_cases hne : other.id = run.id
      · rw [inj_on_of_nodup_map h.distinct ho hm hne]
        exact hr
      · exact hothers other ho hne⟩
  split
  · rename_i hs
    rcases hown run hm rfl with ⟨_, hr⟩ | ⟨hp, _⟩
    · exact hstands hr
    · exact absurd hp hs
  · rename_i hs
    have hdue : ∃ first bypassApproval command, Due options runtime run first bypassApproval command := by
      rcases hown run hm rfl with ⟨hne, _⟩ | hd
      · exact absurd hne hs
      · exact hd.2
    obtain ⟨first, bypass, command, hd⟩ := hdue
    rw [← hd.commandId, hd.registered]
    simp only
    split
    · exact h.finish_lifecycle rfl _ hothers
    rename_i hav
    have havailable : (commandInvocationAvailability command runtime.environment first.source).enabled = true := by
      rw [hd.source]
      exact Bool.not_eq_false _ |>.mp fun hf => hav (by rw [hf]; rfl)
    set patch := fun run : CommandRun => { run with
      status := .running, startedAt := some runtime.clock, message := some ("Running " ++ command.label) }
    have hup : runtime.update run.id patch =
        { runtime with pending := replace runtime.pending (patch run), runs := replace runtime.runs (patch run) } := by
      unfold CommandRuntime.update
      rw [hf]
    have hk : Kept options (runtime.update run.id patch) := h.update fun _ => rfl
    have horder : CommandOrderly options (.executed run.id runtime.environment) runtime.log := by
      refine ⟨first, bypass, command, hd.id, hd.created, hd.registered, havailable, fun entry he => ?_, ?_, ?_⟩
      · rw [hd.id]
        exact ⟨hd.unexecuted entry he, (h.unresolved run hm).2 entry he⟩
      · rw [hd.id]
        exact hd.going
      · rw [hd.id, hd.source]
        exact hd.approved
    rw [hup] at hk ⊢
    have hlog := hk.log horder (fun _ => rfl) fun _ => rfl
    refine ⟨⟨hlog.chronicle, hlog.supplied, hlog.distinct, hlog.unresolved, hlog.ended, hlog.shown, hlog.listed⟩,
      fun other ho => ?_⟩
    rcases mem_replace ho with rfl | ⟨ho, hne⟩
    · exact .running rfl (mem_append_right _ mem_cons_self)
    · refine (hothers other ho hne).grow [_] rfl (fun entry he => ?_) id fun hc => mem_append_left _ hc
      rw [mem_singleton.mp he]
      exact ⟨rfl, rfl, beq_false_of_ne fun heq => hne heq.symm⟩

/-! ## A run that is created -/

theorem Kept.created_of {runId : String} {entry : CommandLog} (hm : entry ∈ runtime.log)
    (he : entry.resolves runId = true ∨ entry.executes runId = true) :
    ∃ first ∈ runtime.log, first.creates runId = true := by
  obtain ⟨later, earlier, hlog⟩ := append_of_mem hm
  have hc := h.chronicle
  rw [hlog] at hc ⊢
  have ho := hc.agrees_at
  have hsub : ∀ {first}, first ∈ earlier → first ∈ later ++ entry :: earlier := fun hf =>
    mem_append_right _ (mem_cons_of_mem _ hf)
  cases entry with
  | resolved receipt =>
    have hid : receipt.id = runId := beq_iff_eq.mp (he.resolve_right Bool.noConfusion)
    obtain ⟨first, hf, hcreates⟩ := ho.2.1
    exact ⟨first, hsub hf, hid ▸ hcreates⟩
  | executed id environment =>
    have hid : id = runId := beq_iff_eq.mp (he.resolve_left Bool.noConfusion)
    obtain ⟨first, bypass, command, hfirst, hmay⟩ := ho
    exact ⟨_, hsub hmay.created, beq_iff_eq.mpr (hfirst.trans hid)⟩
  | _ => rcases he with he | he <;> cases he

end

theorem Kept.undrawn (hids : Function.Injective options.id) (h : Kept options runtime) {entry : CommandLog}
    (hm : entry ∈ runtime.log) : entry.creates (options.id runtime.drawn) = false ∧
      entry.resolves (options.id runtime.drawn) = false ∧ entry.executes (options.id runtime.drawn) = false := by
  have hcreates : ∀ first ∈ runtime.log, first.creates (options.id runtime.drawn) = false := by
    intro first hf
    cases first with
    | created run bypass =>
      obtain ⟨n, hn, hid⟩ := h.supplied run bypass hf
      refine beq_false_of_ne fun heq => ?_
      have hsame := hids (hid.symm.trans heq)
      omega
    | _ => rfl
  have hnone : ¬∃ first ∈ runtime.log, first.creates (options.id runtime.drawn) = true := by
    rintro ⟨first, hf, hc⟩
    rw [hcreates first hf] at hc
    cases hc
  refine ⟨hcreates entry hm, ?_, ?_⟩
  · exact Bool.not_eq_true _ ▸ fun hr => hnone (h.created_of hm (.inl hr))
  · exact Bool.not_eq_true _ ▸ fun hr => hnone (h.created_of hm (.inr hr))

theorem Kept.create (hids : Function.Injective options.id) (h : Kept options runtime)
    (hid : run.id = options.id runtime.drawn) (bypassApproval : Bool) :
    Kept options { runtime with
      drawn := runtime.drawn + 1
      pending := runtime.pending ++ [run]
      runs := sliceLast 12 (runtime.runs ++ [run])
      log := .created run bypassApproval :: runtime.log } := by
  have hnew : ∀ {entry}, entry ∈ runtime.log → entry.creates run.id = false ∧ entry.resolves run.id = false ∧
      entry.executes run.id = false := fun hm => hid ▸ h.undrawn hids hm
  have hother : ∀ other ∈ runtime.pending, other.id ≠ run.id := by
    intro other ho heq
    obtain ⟨⟨entry, he, hc⟩, _⟩ := h.unresolved other ho
    rw [heq, (hnew he).1] at hc
    cases hc
  have hself : (CommandLog.created run bypassApproval).creates run.id = true := beq_self_eq_true run.id
  refine ⟨⟨fun entry he => (hnew he).1, h.chronicle⟩, fun other bypass ho => ?_, ?_, fun other ho => ?_,
    fun other bypass ho => ?_, fun other ho receipt hr heq => ?_, fun receipt hr => mem_cons_of_mem _ (h.listed receipt hr)⟩
  · rcases mem_cons.mp ho with ho | ho
    · cases ho
      exact ⟨runtime.drawn, Nat.lt_succ_self _, hid⟩
    · obtain ⟨n, hn, hid⟩ := h.supplied other bypass ho
      exact ⟨n, Nat.lt_succ_of_lt hn, hid⟩
  · rw [map_append, nodup_append]
    refine ⟨h.distinct, nodup_singleton _, ?_⟩
    intro id hm id' hm' heq
    obtain ⟨other, ho, rfl⟩ := mem_map.mp hm
    rw [mem_singleton.mp hm'] at heq
    exact hother other ho heq
  · rcases mem_append.mp ho with ho | ho
    · obtain ⟨⟨entry, he, hc⟩, hu⟩ := h.unresolved other ho
      refine ⟨⟨entry, mem_cons_of_mem _ he, hc⟩, fun entry he => ?_⟩
      rcases mem_cons.mp he with rfl | he
      · rfl
      · exact hu entry he
    · rw [mem_singleton.mp ho]
      refine ⟨⟨_, mem_cons_self, hself⟩, fun entry he => ?_⟩
      rcases mem_cons.mp he with rfl | he
      · rfl
      · exact (hnew he).2.1
  · show _ ∈ (runtime.pending ++ [run]).map (·.id) ∨ _
    rw [map_append, mem_append]
    rcases mem_cons.mp ho with ho | ho
    · cases ho
      exact .inl (.inr mem_cons_self)
    · rcases h.ended other bypass ho with hp | ⟨receipt, hr, hid⟩
      · exact .inl (.inl hp)
      · exact .inr ⟨receipt, mem_cons_of_mem _ hr, hid⟩
  · rcases mem_cons.mp hr with hr | hr
    · cases hr
    have ho : other ∈ sliceLast 12 (runtime.runs ++ [run]) := ho
    rcases mem_append.mp (mem_sliceLast ho) with ho | ho
    · exact h.shown other ho receipt hr heq
    · rw [mem_singleton.mp ho] at heq
      exact absurd heq (ne_of_beq_false (hnew hr).2.1)

theorem newRun_status {commandId : String} {command : CommandDefinition} {invocation : RuntimeInvocation} :
    (runtime.newRun options commandId command invocation).status = .failed ∨
      (runtime.newRun options commandId command invocation).status = .awaitingApproval ∨
      (runtime.newRun options commandId command invocation).status = .proposed ∧
        needsApproval command invocation.source invocation.bypassApproval = false := by
  unfold newRun
  simp only
  generalize (if invocation.source = .agent ∨ invocation.source = .bridge then validateInput command invocation.input
    else none) = inputError
  split
  · cases hn : needsApproval command invocation.source invocation.bypassApproval with
    | true => exact .inr (.inl rfl)
    | false => exact .inr (.inr ⟨rfl, rfl⟩)
  · exact .inl rfl

theorem Lifecycle.start (hids : Function.Injective options.id) (h : Lifecycle options runtime) {commandId : String}
    {invocation : RuntimeInvocation} : Lifecycle options (runtime.start options commandId invocation) := by
  unfold CommandRuntime.start
  split
  · exact h
  rename_i command hcommand
  have hstatus := @newRun_status options runtime commandId command invocation
  have hid : (runtime.newRun options commandId command invocation).id = options.id runtime.drawn := rfl
  have hcommandId : (runtime.newRun options commandId command invocation).commandId = commandId := rfl
  have hsource : (runtime.newRun options commandId command invocation).source = invocation.source := rfl
  generalize runtime.newRun options commandId command invocation = run at hstatus hid hcommandId hsource ⊢
  have hnew : ∀ {entry}, entry ∈ runtime.log → entry.creates run.id = false ∧ entry.resolves run.id = false ∧
      entry.executes run.id = false := fun hm => hid ▸ h.undrawn hids hm
  have hk := h.toKept.create hids hid invocation.bypassApproval
  have hself : (CommandLog.created run invocation.bypassApproval).creates run.id = true := beq_self_eq_true run.id
  have hsince : since run.id (.created run invocation.bypassApproval :: runtime.log) = [] := since_created hself
  have hwaits : Waits options (.created run invocation.bypassApproval :: runtime.log) run run
      invocation.bypassApproval command := by
    refine ⟨⟨mem_cons_self, rfl, rfl, rfl, hcommandId ▸ hcommand⟩, fun entry he => ?_, fun entry he => ?_⟩
    · rw [hsince] at he
      cases he
    · rcases mem_cons.mp he with rfl | he
      · rfl
      · exact (hnew he).2.2
  have hothers : ∀ {after : CommandRuntime}, after.log = .created run invocation.bypassApproval :: runtime.log →
      (∀ id, id ∈ runtime.microtasks → id ∈ after.microtasks) → after.calls = runtime.calls →
      ∀ other ∈ runtime.pending, Stands options after other := by
    intro after hlog hmicrotasks hcalls other ho
    refine (h.stands other ho).grow [_] hlog (fun entry he => ?_) (hmicrotasks _) fun hc => hcalls ▸ hc
    rw [mem_singleton.mp he]
    refine ⟨beq_false_of_ne fun heq => ?_, rfl, rfl⟩
    obtain ⟨⟨entry, he, hc⟩, _⟩ := h.unresolved other ho
    rw [← heq, (hnew he).1] at hc
    cases hc
  unfold CommandRuntime.create
  simp only
  rcases hstatus with hs | hs | ⟨hs, hn⟩
  · have hp : run.status ≠ .proposed := by
      rw [hs]
      exact CommandRunStatus.noConfusion
    rw [if_neg hp, if_pos hs]
    refine hk.finish_lifecycle rfl _ fun other ho hne => ?_
    rcases mem_append.mp ho with ho | ho
    · refine hothers ?_ ?_ ?_ other ho <;> first | rfl | exact fun _ => id
    · exact absurd (congrArg CommandRun.id (mem_singleton.mp ho)) hne
  · have hp : run.status ≠ .proposed := by
      rw [hs]
      exact CommandRunStatus.noConfusion
    have hf : run.status ≠ .failed := by
      rw [hs]
      exact CommandRunStatus.noConfusion
    rw [if_neg hp, if_neg hf]
    refine ⟨hk, fun other ho => ?_⟩
    rcases mem_append.mp ho with ho | ho
    · refine hothers ?_ ?_ ?_ other ho <;> first | rfl | exact fun _ => id
    · rw [mem_singleton.mp ho]
      exact .awaiting hwaits hs
  · have hf : run.status ≠ .failed := by
      rw [hs]
      exact CommandRunStatus.noConfusion
    rw [if_pos hs, if_neg hf]
    refine ⟨⟨hk.chronicle, hk.supplied, hk.distinct, hk.unresolved, hk.ended, hk.shown, hk.listed⟩, fun other ho => ?_⟩
    rcases mem_append.mp ho with ho | ho
    · refine hothers ?_ ?_ ?_ other ho <;> first | rfl | exact fun _ => mem_append_left _
    rw [mem_singleton.mp ho]
    refine .queued hwaits hs (mem_append_right _ mem_cons_self) fun ha => ?_
    rw [hsource, hn] at ha
    cases ha

/-! ## The steps -/

theorem Lifecycle.approve (h : Lifecycle options runtime) : Lifecycle options (runtime.approve options runId) := by
  have hk : Kept options { runtime with log := .approved runId :: runtime.log } :=
    h.toKept.log trivial (fun _ => rfl) fun _ => rfl
  have hstands : ∀ run ∈ runtime.pending, Stands options { runtime with log := .approved runId :: runtime.log } run := by
    intro run hm
    refine (h.stands run hm).grow [_] rfl (fun entry he => ?_) id id
    rw [mem_singleton.mp he]
    exact ⟨rfl, rfl, rfl⟩
  unfold CommandRuntime.approve
  simp only
  split
  · exact ⟨hk, hstands⟩
  rename_i run hf
  obtain ⟨hm, hid⟩ := find_id hf
  split
  · exact ⟨hk, hstands⟩
  rename_i hs
  have hs := not_not.mp hs
  have hup : ({ runtime with log := .approved runId :: runtime.log } : CommandRuntime).update runId
        (fun run => { run with status := .proposed, message := some "Approved" }) =
      { runtime with
        log := .approved runId :: runtime.log
        pending := replace runtime.pending { run with status := .proposed, message := some "Approved" }
        runs := replace runtime.runs { run with status := .proposed, message := some "Approved" } } := by
    unfold CommandRuntime.update
    rw [hf]
  have hku : Kept options (({ runtime with log := .approved runId :: runtime.log } : CommandRuntime).update runId
      fun run => { run with status := .proposed, message := some "Approved" }) := hk.update fun _ => rfl
  rw [hup] at hku ⊢
  refine hku.execute (fun other ho hne => ?_) fun other ho heq => ?_
  · rcases mem_replace ho with rfl | ⟨ho, _⟩
    · exact absurd hid hne
    · exact (hstands other ho).grow [] rfl (fun _ he => (by cases he)) id id
  rcases mem_replace ho with rfl | ⟨_, hne⟩
  · cases h.stands run hm with
    | awaiting hw _ =>
      have hw := hw.grow [.approved runId] fun entry he => by
        rw [mem_singleton.mp he]
        exact ⟨rfl, rfl, rfl⟩
      refine .inr ⟨rfl, _, _, _, ⟨⟨⟨hw.created, hw.id, hw.commandId, hw.source, hw.registered⟩, hw.going, hw.unexecuted⟩, fun _ => ?_⟩⟩
      rw [since_cons rfl]
      exact hid ▸ mem_cons_self
    | queued _ hq _ _ =>
      rw [hs] at hq
      cases hq
    | running hr _ =>
      rw [hs] at hr
      cases hr
  · exact absurd (heq.trans hid.symm) hne

theorem Lifecycle.cancel (h : Lifecycle options runtime) : Lifecycle options (runtime.cancel options runId) := by
  have hk : Kept options { runtime with log := .cancelled runId :: runtime.log } :=
    h.toKept.log trivial (fun _ => rfl) fun _ => rfl
  have hstands : ∀ run ∈ runtime.pending, run.id ≠ runId → Stands options { runtime with log := .cancelled runId :: runtime.log } run := by
    intro run hm hne
    refine (h.stands run hm).grow [_] rfl (fun entry he => ?_) id id
    rw [mem_singleton.mp he]
    exact ⟨rfl, beq_false_of_ne fun heq => hne heq.symm, rfl⟩
  unfold CommandRuntime.cancel
  simp only
  split
  · rename_i hf
    exact ⟨hk, fun run hm => hstands run hm (find_none hf run hm)⟩
  rename_i run hf
  obtain ⟨hm, hid⟩ := find_id hf
  have hrun := h.stands run hm
  have hs : run.status.isTerminal = false := by
    cases hrun with
    | awaiting _ hs => rw [hs]; rfl
    | queued _ hs _ _ => rw [hs]; rfl
    | running hs _ => rw [hs]; rfl
  rw [if_neg (by rw [hs]; exact Bool.false_ne_true)]
  have hka : Kept options
      { runtime with aborted := runtime.aborted ++ [runId], log := .cancelled runId :: runtime.log } :=
    ⟨hk.chronicle, hk.supplied, hk.distinct, hk.unresolved, hk.ended, hk.shown, hk.listed⟩
  refine hka.finish_lifecycle rfl _ fun other ho hne => ?_
  exact (hstands other ho hne).grow [] rfl (fun _ he => (by cases he)) id id

theorem finish_pending {message : Option String} :
    (runtime.finish options runId status message).pending = runtime.pending.filter (·.id != runId) := by
  unfold CommandRuntime.finish
  split
  · rename_i hf
    exact (filter_eq_self.mpr fun run hm => bne_iff_ne.mpr (find_none hf run hm)).symm
  · rfl

theorem Kept.finishAll (h : Kept options runtime) {message : Option String} (ids : List String) :
    Kept options (ids.foldl (fun runtime runId => runtime.finish options runId .cancelled message) runtime) ∧
      (ids.foldl (fun runtime runId => runtime.finish options runId .cancelled message) runtime).pending =
        runtime.pending.filter fun run => !ids.contains run.id := by
  induction ids generalizing runtime with
  | nil => exact ⟨h, (filter_eq_self.mpr fun _ _ => rfl).symm⟩
  | cons runId ids ih =>
    have hfirst : Kept options (runtime.finish options runId .cancelled message) := h.finish rfl message
    obtain ⟨hk, hp⟩ := ih hfirst
    refine ⟨hk, hp.trans ?_⟩
    rw [finish_pending, filter_filter]
    refine filter_congr fun run _ => ?_
    rw [contains_cons, Bool.not_or, Bool.and_comm]
    rfl

theorem Lifecycle.destroy (h : Lifecycle options runtime) : Lifecycle options (runtime.destroy options) := by
  have hk : Kept options { runtime with log := .destroyed :: runtime.log } :=
    h.toKept.log trivial (fun _ => rfl) fun _ => rfl
  have hka : Kept options { runtime with
      aborted := runtime.aborted ++ runtime.pending.map (·.id), log := .destroyed :: runtime.log } :=
    ⟨hk.chronicle, hk.supplied, hk.distinct, hk.unresolved, hk.ended, hk.shown, hk.listed⟩
  obtain ⟨hkept, hpending⟩ := @Kept.finishAll _ _ hka (some "Command surface closed.") (runtime.pending.map (·.id))
  refine ⟨hkept, fun run hm => ?_⟩
  unfold CommandRuntime.destroy at hm
  simp only at hm
  rw [hpending] at hm
  obtain ⟨hm, hn⟩ := mem_filter.mp hm
  have hc : (runtime.pending.map (·.id)).contains run.id = true := contains_iff_mem.mpr (mem_map_of_mem hm)
  rw [hc] at hn
  cases hn

theorem Lifecycle.microtask (h : Lifecycle options runtime) : Lifecycle options (runtime.microtask options) := by
  unfold CommandRuntime.microtask
  split
  · exact h
  rename_i runId microtasks hmicrotasks
  have hk : Kept options { runtime with microtasks } :=
    ⟨h.chronicle, h.supplied, h.distinct, h.unresolved, h.ended, h.shown, h.listed⟩
  refine hk.execute (fun run hm hne => ?_) fun run hm heq => ?_
  · refine (h.stands run hm).grow [] rfl (fun _ he => (by cases he)) (fun hin => ?_) id
    rw [hmicrotasks] at hin
    exact (mem_cons.mp hin).resolve_left hne
  cases h.stands run hm with
  | awaiting hw hs => exact .inl ⟨by rw [hs]; exact CommandRunStatus.noConfusion, .awaiting hw hs⟩
  | queued hw hs _ ha => exact .inr ⟨hs, _, _, _, ⟨hw, ha⟩⟩
  | running hs hc => exact .inl ⟨by rw [hs]; exact CommandRunStatus.noConfusion, .running hs hc⟩

theorem settle_finishes {label : String} {outcome : CommandOutcome} : ∃ status message,
    status.isTerminal = true ∧ runtime.settle options runId label outcome = runtime.finish options runId status message := by
  unfold CommandRuntime.settle
  split
  · exact ⟨.cancelled, _, rfl, rfl⟩
  cases outcome with
  | returned ok message =>
    cases ok with
    | true => exact ⟨.succeeded, _, rfl, rfl⟩
    | false => exact ⟨.failed, _, rfl, rfl⟩
  | threw message => exact ⟨.failed, _, rfl, rfl⟩

theorem Lifecycle.complete (h : Lifecycle options runtime) {outcome : CommandOutcome} :
    Lifecycle options (runtime.complete options runId outcome) := by
  unfold CommandRuntime.complete
  split
  · simp only
    obtain ⟨status, message, hs, heq⟩ := @settle_finishes options { runtime with calls := runtime.calls.erase runId }
      runId (((runtime.find runId).bind fun run => options.registry run.commandId).elim "" (·.label)) outcome
    rw [heq]
    have hk : Kept options { runtime with calls := runtime.calls.erase runId } :=
      ⟨h.chronicle, h.supplied, h.distinct, h.unresolved, h.ended, h.shown, h.listed⟩
    refine hk.finish_lifecycle hs message fun run hm hne => ?_
    exact (h.stands run hm).grow [] rfl (fun _ he => (by cases he)) id (mem_erase_of_ne hne).mpr
  · exact h

theorem Lifecycle.step (hids : Function.Injective options.id) (h : Lifecycle options runtime) (event : CommandEvent) :
    Lifecycle options (runtime.step options event) := by
  cases event with
  | start commandId invocation => exact h.start hids
  | propose commandId input source => exact h.start hids
  | approve runId => exact h.approve
  | cancel runId => exact h.cancel
  | destroy => exact h.destroy
  | change environment =>
    exact ⟨⟨h.chronicle, h.supplied, h.distinct, h.unresolved, h.ended, h.shown, h.listed⟩, fun run hm =>
      (h.stands run hm).grow [] rfl (fun _ he => (by cases he)) id id⟩
  | tick clock =>
    exact ⟨⟨h.chronicle, h.supplied, h.distinct, h.unresolved, h.ended, h.shown, h.listed⟩, fun run hm =>
      (h.stands run hm).grow [] rfl (fun _ he => (by cases he)) id id⟩
  | microtask => exact h.microtask
  | complete runId outcome => exact h.complete

theorem lifecycle_initial {environment : CommandEnvironment} : Lifecycle options (.initial environment) :=
  ⟨⟨trivial, fun _ _ hm => (by cases hm), nodup_nil, fun _ hm => (by cases hm), fun _ _ hm => (by cases hm),
    fun _ hm => (by cases hm), fun _ hm => (by cases hm)⟩, fun _ hm => (by cases hm)⟩

theorem run_lifecycle (hids : Function.Injective options.id) (environment : CommandEnvironment)
    (events : List CommandEvent) :
    Lifecycle options (Transition.run (CommandRuntime.step options) (.initial environment) events) :=
  Transition.run_inv (C := fun _ _ => True) (fun _ event h _ => h.step hids event) lifecycle_initial
    (Transition.along_of fun _ _ => trivial)

end

/-! ## A human and an agent -/

def boldCommand : CommandDefinition :=
  ⟨"format.bold", "Bold", [.human, .agent], none, none, none, none, some .edit, true, false, .write, none⟩

def printCommand : CommandDefinition :=
  ⟨"document.print", "Print", [.human, .agent], none, none, none, none, none, true, false, .external, none⟩

def twoCommands : CommandRuntimeOptions where
  registry id := if id = "format.bold" then some boldCommand
    else if id = "document.print" then some printCommand else none
  id n := String.ofList (List.replicate n 'r')
  maxReceipts := 40

theorem twoCommands_ids : Function.Injective twoCommands.id := by
  intro n m h
  have hl := congrArg List.length (String.ofList_injective h)
  rwa [length_replicate, length_replicate] at hl

def openDocument : CommandEnvironment :=
  ⟨true, true, some ⟨some (.document .owner), true, true, true, true⟩, .session, .edit, .editor, .desktop, .text, 4, true⟩

def approvedThenCancelled : List CommandEvent :=
  [.start "format.bold" ⟨.human, [], false⟩, .propose "document.print" [] .agent, .microtask,
    .complete "" (.returned true (some "done")), .approve "r", .cancel "r", .complete "r" (.returned true none)]

end Marks
